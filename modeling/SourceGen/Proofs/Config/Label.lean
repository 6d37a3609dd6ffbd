import SourceGen.Proofs.Config.Described
import SourceGen.Proofs.Toml.Origin

/-! # What an error is about

A problem with the values of a document is reported with a stretch of the document. There stands the
key or the value that the problem is about, or what made a table that stands for a value. -/
namespace SourceGen

open Toml

variable {π : Type}

/-- What a problem is about: a key, or a value that was found under a name. -/
inductive Culprit (π : Type) where
  | key (key : Key π)
  | value (name : Text) (node : Node π)

namespace Culprit

def place : Culprit π → π
  | key k => k.place
  | value _ node => node.place

def IsIn (document : Text) : Culprit Extent → Prop
  | key k => k.IsIn document
  | value name node => node.IsIn document name

theorem IsIn.start {document : Text} {culprit : Culprit Extent} (h : culprit.IsIn document) :
    culprit.place.start <:+ document := by
  cases culprit with
  | key => exact Key.IsIn.start h
  | value => exact Node.IsIn.start h

theorem IsIn.leftOf {document : Text} {culprit : Culprit Extent} (h : culprit.IsIn document) :
    LeftOf culprit.place.stop culprit.place.start := by
  cases culprit with
  | key => exact Key.IsIn.leftOf h
  | value => exact Node.IsIn.leftOf h

end Culprit

namespace Shape

/-- A number without a value, or beyond every machine format. -/
inductive Unreadable : Node π → Prop where
  | integer {place} : Unreadable (.scalar place (.integer none))
  | beyond {place n} : n < -2 ^ 127 ∨ 2 ^ 128 ≤ n → Unreadable (.scalar place (.integer (some n)))
  | float {place} : Unreadable (.scalar place (.float none))

/-- The value is no width, and this is why. -/
inductive NoWidth : Node π → Problem → Prop where
  | wrongType {node found} :
      (∀ place n, node = .scalar place (.integer (some n)) → n < -2 ^ 63 ∨ 2 ^ 64 ≤ n) →
      found? node = some found → NoWidth node (.wrongType found .width)
  | tooLarge {place n} : 2 ^ 63 ≤ n → n < 2 ^ 64 →
      NoWidth (.scalar place (.integer (some n))) (.widthTooLarge n)
  | unreadable {node} : Unreadable node → NoWidth node .unreadableNumber

/-- The value under the name is no line ending, and this is why: a string that is none, what is
neither a string nor a table, a table without a key or with several, its only key, or what stands
under that key. -/
inductive NoLineEnding (name : Text) : Node π → Problem → Culprit π → Prop where
  | string {place t} : (∀ e : LineEnding, t ≠ e.name) →
      NoLineEnding name (.scalar place (.string t)) (.unknownLineEnding t)
        (.value name (.scalar place (.string t)))
  | neither {node} : (∀ place t, node ≠ .scalar place (.string t)) →
      (∀ place form entries, node ≠ .table place form entries) →
      NoLineEnding name node .noLineEnding (.value name node)
  | keys {place form entries} : entries.length ≠ 1 →
      NoLineEnding name (.table place form entries) .lineEndingKeys
        (.value name (.table place form entries))
  | onlyKey {place form key node} : (∀ e : LineEnding, key.name ≠ e.name) →
      NoLineEnding name (.table place form [(key, node)]) (.unknownLineEnding key.name) (.key key)
  | content {place form key node e} : key.name = LineEnding.name e → ¬Hollow node →
      NoLineEnding name (.table place form [(key, node)]) .lineEndingContent (.value key.name node)

/-- The value under the name gives no settings, and this is why. -/
inductive NoSettings (name : Text) : Node π → Problem → Culprit π → Prop where
  | wrongType {place value found} : value ≠ .dateTime →
      found? (.scalar place value) = some found →
      NoSettings name (.scalar place value) (.wrongType found .settings)
        (.value name (.scalar place value))
  | unreadable {node} : Unreadable node → NoSettings name node .unreadableNumber (.value name node)
  | dateTime {place} :
      NoSettings name (.scalar place .dateTime) (.unknownField dateTimeKey settingsKeys)
        (.value name (.scalar place .dateTime))
  | unknown {place form entries e} : e ∈ entries → (∀ s : Setting, e.1.name ≠ s.key) →
      NoSettings name (.table place form entries) (.unknownField e.1.name settingsKeys) (.key e.1)
  | width {place form entries e problem} : e ∈ entries → e.1.name = Setting.width.key →
      NoWidth e.2 problem →
      NoSettings name (.table place form entries) problem (.value e.1.name e.2)
  | lineEnding {place form entries e problem culprit} : e ∈ entries →
      e.1.name = Setting.lineEnding.key → NoLineEnding e.1.name e.2 problem culprit →
      NoSettings name (.table place form entries) problem culprit
  | first {place ofTables items node problem} : items[0]? = some node → NoWidth node problem →
      NoSettings name (.array place ofTables items) problem (.value name node)
  | second {place ofTables items node problem culprit} : items[1]? = some node →
      NoLineEnding name node problem culprit →
      NoSettings name (.array place ofTables items) problem culprit

/-- The table has this problem, which is about this key or value. -/
inductive Blames (root : Table π) : Problem → Culprit π → Prop where
  | unknown {e} : e ∈ root → e.1.name ≠ builderKey →
      Blames root (.unknownField e.1.name documentKeys) (.key e.1)
  | builder {e problem culprit} : e ∈ root → e.1.name = builderKey →
      NoSettings e.1.name e.2 problem culprit → Blames root problem culprit

theorem unreadable_of_found? {node : Node π} (h : found? node = none) : Unreadable node := by
  unfold found? at h
  split at h
  · cases h
  · next place n =>
    cases n with
    | none => exact .integer
    | some n =>
      refine .beyond ?_
      have hs : ¬(-2 ^ 127 ≤ n ∧ n < 2 ^ 127) ∧ ¬(0 ≤ n ∧ n < 2 ^ 128) := by
        simpa [fitsSigned, fitsUnsigned, Option.filter] using h
      omega
  · next place x =>
    rw [Option.map_eq_none_iff] at h
    subst h
    exact .float
  all_goals cases h

/-- A value that does not fit is told by what it is, if it can be read. -/
theorem mismatch_cases (node : Node π) (expected : Expectation) :
    (∃ found, found? node = some found ∧
      mismatch node expected = ⟨.wrongType found expected, node.place⟩) ∨
    (Unreadable node ∧ mismatch node expected = ⟨.unreadableNumber, node.place⟩) := by
  unfold mismatch
  split
  · next found hf => exact .inl ⟨found, hf, rfl⟩
  · next hf => exact .inr ⟨unreadable_of_found? hf, rfl⟩

theorem noWidth_mismatch {node : Node π}
    (hn : ∀ place n, node = .scalar place (.integer (some n)) → n < -2 ^ 63 ∨ 2 ^ 64 ≤ n) :
    NoWidth node (mismatch node .width).problem ∧ (mismatch node .width).place = node.place := by
  rcases mismatch_cases node .width with ⟨found, hf, h⟩ | ⟨hu, h⟩
  · rw [h]
    exact ⟨.wrongType hn hf, rfl⟩
  · rw [h]
    exact ⟨.unreadable hu, rfl⟩

theorem noWidth_of_width {node : Node π} {fault : Fault π} (h : width node = .error fault) :
    NoWidth node fault.problem ∧ fault.place = node.place := by
  unfold width at h
  split at h
  · next n =>
    split at h
    · cases h
    · next hs =>
      have hs : ¬(-2 ^ 63 ≤ n ∧ n < 2 ^ 63) := by simpa [fitsSigned] using hs
      split at h
      · next hu =>
        have hu : 0 ≤ n ∧ n < 2 ^ 64 := by simpa [fitsUnsigned] using hu
        cases h
        exact ⟨.tooLarge (by omega) hu.2, rfl⟩
      · next hu =>
        have hu : ¬(0 ≤ n ∧ n < 2 ^ 64) := by simpa [fitsUnsigned] using hu
        cases h
        apply noWidth_mismatch
        rintro _ _ ⟨⟩
        omega
  · next hn =>
    cases h
    apply noWidth_mismatch
    rintro place n rfl
    exact absurd rfl (hn place n)

theorem ne_name_of_ofName? {t : Text} (h : LineEnding.ofName? t = none) (e : LineEnding) :
    t ≠ e.name := by
  rintro rfl
  rw [LineEnding.ofName?_name] at h
  cases h

theorem noLineEnding_of_lineEnding {name : Text} {node : Node π} {fault : Fault π}
    (h : lineEnding node = .error fault) :
    ∃ culprit, NoLineEnding name node fault.problem culprit ∧ fault.place = culprit.place := by
  unfold lineEnding at h
  split at h
  · split at h
    · cases h
    · next hn =>
      cases h
      exact ⟨_, .string (ne_name_of_ofName? hn), rfl⟩
  · split at h
    · next he =>
      split at h
      · cases h
      · next hc =>
        cases h
        exact ⟨_, .content (LineEnding.ofName?_eq_some he) (mt isEmptyCollection_iff.mpr hc), rfl⟩
    · next hn =>
      cases h
      exact ⟨_, .onlyKey (ne_name_of_ofName? hn), rfl⟩
  · next hk =>
    cases h
    refine ⟨_, .keys ?_, rfl⟩
    intro hl
    obtain ⟨⟨key, content⟩, rfl⟩ := List.length_eq_one_iff.mp hl
    exact hk _ _ rfl
  · next hs _ ht =>
    cases h
    exact ⟨_, .neither hs ht, rfl⟩

/-- A fold fails where one of its steps does. -/
theorem exists_of_foldlM_eq_error {ε α γ : Type} {step : γ → α → Except ε γ} {l : List α} {c : γ}
    {e : ε} (h : l.foldlM step c = .error e) : ∃ a ∈ l, ∃ c', step c' a = .error e := by
  induction l generalizing c with
  | nil => cases h
  | cons a l ih =>
    rw [List.foldlM_cons] at h
    cases hs : step c a with
    | error e' =>
      rw [hs] at h
      cases h
      exact ⟨a, List.mem_cons_self, c, hs⟩
    | ok c' =>
      rw [hs] at h
      obtain ⟨a', hm, hs⟩ := ih h
      exact ⟨a', List.mem_cons_of_mem a hm, hs⟩

theorem map_eq_error_iff {ε α β : Type} {x : Except ε α} {f : α → β} {e : ε} :
    x.map f = .error e ↔ x = .error e := by
  cases x <;> simp [Except.map]

theorem bind_eq_error_iff {ε α β : Type} {x : Except ε α} {f : α → Except ε β} {e : ε} :
    x >>= f = .error e ↔ x = .error e ∨ ∃ a, x = .ok a ∧ f a = .error e := by
  cases x <;> simp [bind, Except.bind]

theorem noSettings_of_setting {name : Text} {place : π} {form : TableForm} {entries : Table π}
    {e : Key π × Node π} (he : e ∈ entries) {c : BuilderConfig} {fault : Fault π}
    (h : setting c e = .error fault) :
    ∃ culprit, NoSettings name (.table place form entries) fault.problem culprit ∧
      fault.place = culprit.place := by
  unfold setting at h
  split at h
  · next hs =>
    obtain ⟨hw, hp⟩ := noWidth_of_width (map_eq_error_iff.mp h)
    exact ⟨_, .width he (Setting.ofKey?_eq_some_iff.mp hs) hw, hp⟩
  · next hs =>
    obtain ⟨culprit, hl, hp⟩ := noLineEnding_of_lineEnding (map_eq_error_iff.mp h)
    exact ⟨culprit, .lineEnding he (Setting.ofKey?_eq_some_iff.mp hs) hl, hp⟩
  · next hs =>
    cases h
    refine ⟨_, .unknown he ?_, rfl⟩
    intro s hk
    rw [Setting.ofKey?_eq_some_iff.mpr hk] at hs
    cases hs

theorem noSettings_of_positional {name : Text} {place : π} {ofTables : Bool} {items : List (Node π)}
    {fault : Fault π} (h : positional items = .error fault) :
    ∃ culprit, NoSettings name (.array place ofTables items) fault.problem culprit ∧
      fault.place = culprit.place := by
  match items with
  | [] => cases h
  | [w] =>
    obtain ⟨hw, hp⟩ := noWidth_of_width (map_eq_error_iff.mp h)
    exact ⟨_, .first rfl hw, hp⟩
  | w :: e :: rest =>
    rcases bind_eq_error_iff.mp h with h | ⟨n, -, h⟩
    · obtain ⟨hw, hp⟩ := noWidth_of_width h
      exact ⟨_, .first rfl hw, hp⟩
    · rcases bind_eq_error_iff.mp h with h | ⟨e, -, h⟩
      · obtain ⟨culprit, hl, hp⟩ := noLineEnding_of_lineEnding h
        exact ⟨culprit, .second rfl hl, hp⟩
      · cases h

theorem noSettings_of_settings {name : Text} {node : Node π} {fault : Fault π}
    (h : settings node = .error fault) :
    ∃ culprit, NoSettings name node fault.problem culprit ∧ fault.place = culprit.place := by
  unfold settings at h
  split at h
  · obtain ⟨e, hm, c, hs⟩ := exists_of_foldlM_eq_error h
    exact noSettings_of_setting ((inNameOrder_perm _).mem_iff.mp hm) hs
  · exact noSettings_of_positional h
  · cases h
    exact ⟨_, .dateTime, rfl⟩
  · next ht ha hd =>
    cases h
    cases node with
    | table => exact absurd rfl (ht _ _ _)
    | array => exact absurd rfl (ha _ _ _)
    | scalar place value =>
      have hv : value ≠ .dateTime := by
        rintro rfl
        exact hd _ rfl
      rcases mismatch_cases (.scalar place value) .settings with ⟨found, hf, h⟩ | ⟨hu, h⟩
      · rw [h]
        exact ⟨_, .wrongType hv hf, rfl⟩
      · rw [h]
        exact ⟨_, .unreadable hu, rfl⟩

/-- A problem that is reported has a culprit, and is reported with the place of the culprit. -/
theorem blames_of_document {root : Table π} {fault : Fault π} (h : document root = .error fault) :
    ∃ culprit, Blames root fault.problem culprit ∧ fault.place = culprit.place := by
  obtain ⟨e, hm, c, hs⟩ := exists_of_foldlM_eq_error h
  have hm := (inNameOrder_perm root).mem_iff.mp hm
  unfold topLevel at hs
  split at hs
  · next hk =>
    have hk : e.1.name = builderKey := by simpa [documentKeys] using hk
    obtain ⟨culprit, hn, hp⟩ := noSettings_of_settings hs
    exact ⟨culprit, .builder hm hk hn, hp⟩
  · next hk =>
    cases hs
    exact ⟨_, .unknown hm (by simpa [documentKeys] using hk), rfl⟩

section IsIn

variable {document name : Text} {node : Node Extent} {problem : Problem} {culprit : Culprit Extent}

theorem NoLineEnding.isIn (h : NoLineEnding name node problem culprit)
    (hn : node.IsIn document name) : culprit.IsIn document := by
  cases h with
  | string | neither | keys => exact hn
  | onlyKey => exact hn.entries.keys _ (List.mem_singleton_self _)
  | content => exact hn.entries.nodes _ (List.mem_singleton_self _)

theorem NoSettings.isIn (h : NoSettings name node problem culprit) (hn : node.IsIn document name) :
    culprit.IsIn document := by
  cases h with
  | wrongType | unreadable | dateTime => exact hn
  | unknown he => exact hn.entries.keys _ he
  | width he => exact hn.entries.nodes _ he
  | lineEnding he _ hl => exact hl.isIn (hn.entries.nodes _ he)
  | first hi => exact hn.items _ (List.mem_of_getElem? hi)
  | second hi hl => exact hl.isIn (hn.items _ (List.mem_of_getElem? hi))

theorem Blames.isIn {root : Table Extent} (h : Blames root problem culprit)
    (hr : root.IsIn document) : culprit.IsIn document := by
  cases h with
  | unknown he => exact hr.keys _ he
  | builder he _ hn => exact hn.isIn (hr.nodes _ he)

end IsIn

end Shape

theorem Text.byteLength_pos {t : Text} (h : t ≠ []) : 0 < t.byteLength := by
  obtain ⟨c, t, rfl⟩ := List.exists_cons_of_ne_nil h
  rw [Text.byteLength_cons]
  exact Nat.add_pos_left c.utf8Size_pos _

/-- The span of a stretch counts the bytes before it and those in it. -/
theorem Toml.LeftOf.exists_span {place : Extent} (h : LeftOf place.stop place.start)
    {document : Text} (hs : place.start <:+ document) :
    ∃ before label, place = ⟨label ++ place.stop, place.stop⟩ ∧
      document = before ++ label ++ place.stop ∧ label ≠ [] ∧
      place.span document = (before.byteLength, label.byteLength) := by
  obtain ⟨start, stop⟩ := place
  obtain ⟨before, rfl⟩ := hs
  obtain ⟨hlabel, hl⟩ := h
  dsimp only at hlabel hl
  obtain ⟨label, rfl⟩ := hlabel
  refine ⟨before, label, rfl, (List.append_assoc ..).symm, ?_, ?_⟩
  · rintro rfl
    simp at hl
  · simp only [Extent.span, Text.byteLength_append, Prod.mk.injEq]
    omega

namespace BuilderConfig

theorem ofDocument_eq_error {document : Text} {root : Table Extent} {source : Text} {e : LoadError}
    (hr : Toml.parse? document = some root) (h : (load document source).result = .error e) :
    ∃ fault, Shape.document root = .error fault ∧
      e = .document source (some (fault.problem, fault.place.span document)) := by
  simp only [load, ofDocument, hr] at h
  cases hs : Shape.document root with
  | ok c =>
    rw [hs] at h
    cases h
  | error fault =>
    rw [hs] at h
    exact ⟨fault, rfl, (Except.error.inj h).symm⟩

/-- Where a document can be read but not loaded, the error has a problem and a label inside the
document. The label is a stretch of whole characters, one at least, and there stands the key or the
value that the problem is about, or the header or the key that made the table that was taken for a
value. -/
theorem problem_is_labelled {document source : Text} {root : Table Extent} {e : LoadError}
    (hr : Toml.parse? document = some root) (h : (load document source).result = .error e) :
    ∃ problem offset length, e = .document source (some (problem, offset, length)) ∧
      0 < length ∧ offset + length ≤ document.byteLength ∧
      ∃ culprit before label behind, Shape.Blames root problem culprit ∧ culprit.IsIn document ∧
        culprit.place = ⟨label ++ behind, behind⟩ ∧ document = before ++ label ++ behind ∧
        offset = before.byteLength ∧ length = label.byteLength := by
  obtain ⟨fault, hs, rfl⟩ := ofDocument_eq_error hr h
  obtain ⟨culprit, hb, hp⟩ := Shape.blames_of_document hs
  have hi := hb.isIn (Toml.parse?_isIn hr)
  obtain ⟨before, label, hpl, hd, hne, hspan⟩ := hi.leftOf.exists_span hi.start
  have hl := congrArg Text.byteLength hd
  rw [Text.byteLength_append, Text.byteLength_append] at hl
  refine ⟨fault.problem, before.byteLength, label.byteLength, ?_, Text.byteLength_pos hne, by omega,
    culprit, before, label, culprit.place.stop, hb, hi, hpl, hd, rfl, rfl⟩
  rw [hp, hspan]

theorem problem_is_labelled_multibyte :
    (∃ document : Text, document = "\ufeff# größe\r\n[builder]\r\n'größe' = 1\r\n".toList ∧
      ∃ root, Toml.parse? document = some root ∧
      (load document []).result = .error (.document []
        (some (.unknownField "größe".toList Shape.settingsKeys, 25, 9))) ∧
      25 + 9 ≤ document.byteLength ∧
      ∃ culprit, ∃ before label behind : Text,
        Shape.Blames root (.unknownField "größe".toList Shape.settingsKeys) culprit ∧
        culprit.IsIn document ∧ culprit.place = ⟨label ++ behind, behind⟩ ∧
        document = before ++ label ++ behind ∧ 25 = before.byteLength ∧ 9 = label.byteLength) ∧
    ∃ document : Text, document = "[builder]\nline_ending.lf = 'größe'\n".toList ∧
      ∃ root, Toml.parse? document = some root ∧
      (load document []).result = .error (.document [] (some (.lineEndingContent, 27, 9))) ∧
      27 + 9 ≤ document.byteLength ∧
      ∃ culprit, ∃ before label behind : Text, Shape.Blames root .lineEndingContent culprit ∧
        culprit.IsIn document ∧ culprit.place = ⟨label ++ behind, behind⟩ ∧
        document = before ++ label ++ behind ∧ 27 = before.byteLength ∧ 9 = label.byteLength := by
  constructor
  · have hs : (Toml.parse? "\ufeff# größe\r\n[builder]\r\n'größe' = 1\r\n".toList).isSome := by
      decide +kernel
    have h : (load "\ufeff# größe\r\n[builder]\r\n'größe' = 1\r\n".toList []).result =
        .error (.document [] (some (.unknownField "größe".toList Shape.settingsKeys, 25, 9))) := by
      decide +kernel
    obtain ⟨root, hr⟩ := Option.isSome_iff_exists.mp hs
    obtain ⟨_, _, _, ⟨⟩, -, hl⟩ := problem_is_labelled hr h
    exact ⟨_, rfl, root, hr, h, hl⟩
  · have hs : (Toml.parse? "[builder]\nline_ending.lf = 'größe'\n".toList).isSome := by
      decide +kernel
    have h : (load "[builder]\nline_ending.lf = 'größe'\n".toList []).result =
        .error (.document [] (some (.lineEndingContent, 27, 9))) := by
      decide +kernel
    obtain ⟨root, hr⟩ := Option.isSome_iff_exists.mp hs
    obtain ⟨_, _, _, ⟨⟩, -, hl⟩ := problem_is_labelled hr h
    exact ⟨_, rfl, root, hr, h, hl⟩

end BuilderConfig

end SourceGen
