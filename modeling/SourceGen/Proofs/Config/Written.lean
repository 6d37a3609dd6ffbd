import Mathlib.Data.List.Nodup
import SourceGen.Proofs.Config.Described
import SourceGen.Proofs.Config.Verdict
import SourceGen.Proofs.Toml.Numeral

/-! # Settings as they are written

Settings can be written under a header, in braces, with dotted keys or as an array, and every document
that is written in one of these ways is read back. -/
namespace SourceGen

open Toml

namespace Shape.Setting

variable (c : BuilderConfig)

/-- The value that a configuration has for a setting, as it is printed. -/
def valueText : Setting → Text
  | width => Text.ofInt c.indentWidth
  | lineEnding => '"' :: c.lineEnding.name ++ ['"']

def text (s : Setting) : Text := s.key ++ " = ".toList ++ s.valueText c

/-- What a setting is where it is not written. -/
def IsDefault (c : BuilderConfig) : Setting → Prop
  | width => c.indentWidth = 4
  | lineEnding => c.lineEnding = .lf

end Shape.Setting

open Shape (Setting)

/-- How settings are written: under a header, in braces, with dotted keys or as an array. -/
inductive Form where
  | header
  | inline
  | dotted
  | array
  deriving DecidableEq

namespace Form

/-- The lines of a document that has these settings of `c`, in this order. -/
def lines (c : BuilderConfig) (settings : List Setting) : Form → List Text
  | header => "[builder]".toList :: settings.map (Setting.text c)
  | inline => ["builder = \x7b ".toList ++
      ", ".toList.intercalate (settings.map (Setting.text c)) ++ " \x7d".toList]
  | dotted => settings.map fun s => "builder.".toList ++ s.text c
  | array => ["builder = [".toList ++
      ", ".toList.intercalate (settings.map (Setting.valueText c)) ++ "]".toList]

/-- No setting is written twice, and an array has them in its own order. -/
def Allows (form : Form) (settings : List Setting) : Prop :=
  settings.Nodup ∧ (form = .array → settings <+: [.width, .lineEnding])

end Form

/-- The second lines are the first with blank lines and comments anywhere between them. -/
inductive Padded : List Text → List Text → Prop where
  | nil : Padded [] []
  | line {lines padded} (line) : Padded lines padded → Padded (line :: lines) (line :: padded)
  | filler {lines padded line} : IsFiller line → Padded lines padded → Padded lines (line :: padded)

namespace Shape.Setting

variable (c : BuilderConfig)

def value : Setting → Scalar
  | width => .integer (some c.indentWidth)
  | lineEnding => .string c.lineEnding.name

def node (s : Setting) : Node Unit := .scalar () (s.value c)

def bareKey (s : Setting) : Key Unit := ⟨s.key, ()⟩

variable {c}

theorem key_injective : Function.Injective key := by
  intro s s' h
  cases s <;> cases s' <;> first | rfl | exact absurd h (by decide)

theorem reads_valueText (s : Setting) (depth : Nat) {u : Text} (hu : word u = ([], u)) :
    Reads (value? depth) Node.bare (s.valueText c ++ u) (s.node c) u := by
  cases s with
  | width => exact ⟨_, value?_ofInt depth c.indentWidth hu, by simp [Node.bare, node, value]⟩
  | lineEnding =>
    have hs : ∀ e : LineEnding, string? ('"' :: e.name ++ ['"'] ++ u) = some (e.name, u) := by
      intro e
      have hq : shortString? ('"' :: e.name ++ ['"']) = some (e.name, []) := by
        cases e <;> decide +kernel
      have ho := readsOn_shortString? u hq
      cases e <;> exact ho
    refine ⟨.scalar ⟨lineEnding.valueText c ++ u, u⟩ (.string c.lineEnding.name), ?_, ?_⟩
    · cases depth with
      | zero => simp only [value?, scalar?, valueText, hs]
      | succ depth =>
        simp only [value?, scalar?, valueText, hs]
        rfl
    · simp [Node.bare, node, value]

theorem solid_valueText (s : Setting) (u : Text) : Solid (s.valueText c ++ u) := by
  cases s with
  | width => exact solid_ofInt c.indentWidth u
  | lineEnding => exact solid_cons (by simp) _

theorem getLast?_valueText (s : Setting) (t : Text) :
    (t ++ s.valueText c).getLast? ≠ some '\n' := by
  intro hm
  cases s with
  | width =>
    obtain ⟨d, r, h, -⟩ := exists_ofInt_eq_cons c.indentWidth
    have hn : width.valueText c ≠ [] := by simp [valueText, h]
    rw [getLast?_of_suffix (List.suffix_append t _) hn] at hm
    cases isNumeralChar_of_mem_ofInt (List.mem_of_getLast? hm)
  | lineEnding =>
    rw [valueText, ← List.append_assoc, List.getLast?_concat] at hm
    cases hm

theorem reads_key (s : Setting) (v : Text) :
    Reads keyPath? KeyPath.bare (s.key ++ " = ".toList ++ v) ⟨[], s.bareKey⟩ ("= ".toList ++ v) := by
  cases s <;> exact ⟨_, rfl, rfl⟩

theorem reads_dottedKey (s : Setting) (v : Text) :
    Reads keyPath? KeyPath.bare ("builder.".toList ++ s.key ++ " = ".toList ++ v)
      ⟨[⟨Shape.builderKey, ()⟩], s.bareKey⟩ ("= ".toList ++ v) := by
  cases s <;> exact ⟨_, rfl, rfl⟩

theorem reads_builderKey (v : Text) :
    Reads keyPath? KeyPath.bare ("builder".toList ++ " = ".toList ++ v)
      ⟨[], ⟨Shape.builderKey, ()⟩⟩ ("= ".toList ++ v) := ⟨_, rfl, rfl⟩

theorem reads_text {skip : Text → Text} (hs : skip = skipBlanks ∨ skip = skipTrivia false)
    (s : Setting) (depth : Nat) {u : Text} (hu : word u = ([], u)) :
    Reads (assignment? skip (value? depth)) Assignment.bare (s.text c ++ u)
      ⟨⟨[], s.bareKey⟩, s.node c⟩ u := by
  have hv := s.reads_valueText (c := c) depth hu
  have h := reads_assignment hs (s.reads_key _) (s.solid_valueText u) hv
  rwa [← List.append_assoc] at h

end Shape.Setting

namespace Form

open Shape (builderKey)

variable (c : BuilderConfig)

def entries (settings : List Setting) : Table Unit := settings.map fun s => (s.bareKey, s.node c)

def statements (settings : List Setting) : Form → List (Statement Unit)
  | header => .openTable ⟨[], ⟨builderKey, ()⟩⟩ () ::
      settings.map fun s => .assign ⟨⟨[], s.bareKey⟩, s.node c⟩
  | inline => [.assign ⟨⟨[], ⟨builderKey, ()⟩⟩, .table () .inline (entries c settings)⟩]
  | dotted => settings.map fun s => .assign ⟨⟨[⟨builderKey, ()⟩], s.bareKey⟩, s.node c⟩
  | array => [.assign ⟨⟨[], ⟨builderKey, ()⟩⟩, .array () false (settings.map (Setting.node c))⟩]

variable {c} {settings : List Setting}

/-- Settings are entered one after the other. -/
theorem foldlM_enter {dotted : Bool} {here : TableForm} (hd : ¬(dotted = true ∧ here ≠ .dotted))
    (hn : settings.Nodup) {t : Table Unit} (ht : ∀ s ∈ settings, t.find? s.key = none) :
    settings.foldlM (fun t s => Table.enter dotted s.bareKey (s.node c) here t) t =
      some (t ++ entries c settings) := by
  induction settings generalizing t with
  | nil => simp [entries]
  | cons s settings ih =>
    obtain ⟨hs, hn⟩ := List.nodup_cons.mp hn
    obtain ⟨hf, ht⟩ := List.forall_mem_cons.mp ht
    have hi : ∀ s' ∈ settings, Table.find? (t.insert s.bareKey (s.node c)) s'.key = none := by
      intro s' hm
      have hne : s'.key ≠ s.key := by
        intro hk
        exact hs (Setting.key_injective hk ▸ hm)
      have hf' := Table.find?_eq_none_iff.mp (ht s' hm)
      rw [Table.find?_eq_none_iff, Table.insert, List.map_append, List.mem_append, not_or]
      exact ⟨hf', by simpa [Setting.bareKey] using hne⟩
    have he : Table.enter dotted s.bareKey (s.node c) here t =
        some (t.insert s.bareKey (s.node c)) := by
      rw [Table.enter, if_neg]
      rintro (h | h)
      · exact hd h
      · rw [Setting.bareKey, hf] at h
        cases h
    rw [List.foldlM_cons, he]
    refine (ih hn hi).trans ?_
    simp [entries, Table.insert]

/-- The line that gives all settings in one value. -/
theorem says_builder {v : Text} {node : Node Unit} (hv : Solid v)
    (hr : Reads (value? nestingLimit) Node.bare v node []) {d : Char} (hd : v.getLast? = some d)
    (hn : d ≠ '\n') :
    Says ("builder = ".toList ++ v) (.assign ⟨⟨[], ⟨builderKey, ()⟩⟩, node⟩) := by
  refine says_assign ⟨'b', rfl, rfl⟩
    (reads_assignment (.inl rfl) (Setting.reads_builderKey v) hv hr) ?_
  have hne : v ≠ [] := by
    rintro rfl
    cases hd
  rw [getLast?_of_suffix (List.suffix_append _ v) hne, hd]
  simpa using hn

theorem word_of_comma {u : Text} (hu : u.head? = some ',') : word u = ([], u) := by
  obtain ⟨v, rfl⟩ := List.head?_eq_some_iff.mp hu
  rfl

theorem reads_inline (hn : settings.Nodup) :
    Reads (value? nestingLimit) Node.bare
      ('\x7b' :: ([' '] ++
        (", ".toList.intercalate (settings.map (Setting.text c)) ++ " \x7d".toList)))
      (.table () .inline (entries c settings)) [] := by
  have hi : List.Forall₂
      (IsItem '\x7d' (assignment? (skipTrivia false) (value? 79)) Assignment.bare " \x7d".toList)
      (settings.map (Setting.text c)) (settings.map fun s => ⟨⟨[], s.bareKey⟩, s.node c⟩) := by
    rw [List.forall₂_map_left_iff, List.forall₂_map_right_iff, List.forall₂_same]
    intro s _
    refine ⟨?_, ?_⟩
    · cases s <;> exact ⟨_, _, rfl, by decide, by decide⟩
    · intro u hu
      refine s.reads_text (.inr rfl) 79 ?_
      rcases hu with hu | rfl
      · exact word_of_comma hu
      · rfl
  refine reads_inlineTable (reads_bracketed (by decide) rfl hi (.inr rfl)) ?_
  rw [inlineTable?, List.foldlM_map]
  exact foldlM_enter (by decide) hn fun _ _ => rfl

theorem reads_values (c : BuilderConfig) (settings : List Setting) :
    Reads (value? nestingLimit) Node.bare
      ('[' :: ([] ++ (", ".toList.intercalate (settings.map (Setting.valueText c)) ++ "]".toList)))
      (.array () false (settings.map (Setting.node c))) [] := by
  have hi : List.Forall₂ (IsItem ']' (value? 79) Node.bare "]".toList)
      (settings.map (Setting.valueText c)) (settings.map (Setting.node c)) := by
    rw [List.forall₂_map_left_iff, List.forall₂_map_right_iff, List.forall₂_same]
    intro s _
    refine ⟨?_, ?_⟩
    · cases s with
      | width =>
        obtain ⟨d, r, h, hd⟩ := exists_ofInt_eq_cons c.indentWidth
        have hm : d ∉ [']', ' ', '\t', '\n', '\r', '#'] := not_mem_of_isNumeralChar hd rfl
        exact ⟨d, r, h, List.ne_of_not_mem_cons hm, List.not_mem_of_not_mem_cons hm⟩
      | lineEnding => exact ⟨_, _, rfl, by decide, by decide⟩
    · intro u hu
      refine s.reads_valueText 79 ?_
      rcases hu with hu | rfl
      · exact word_of_comma hu
      · rfl
  exact reads_array (reads_bracketed (by decide) rfl hi (.inl rfl))

theorem lines_say (form : Form) (hn : settings.Nodup) :
    List.Forall₂ Says (form.lines c settings) (form.statements c settings) := by
  cases form with
  | header =>
    refine .cons ⟨by decide +kernel, rfl⟩ ?_
    rw [List.forall₂_map_left_iff, List.forall₂_map_right_iff, List.forall₂_same]
    intro s _
    have h := Setting.reads_text (c := c) (.inl rfl) s nestingLimit (u := []) rfl
    rw [List.append_nil] at h
    exact says_assign (by cases s <;> exact ⟨_, rfl, rfl⟩) h (s.getLast?_valueText _)
  | inline =>
    have hl : ∀ s : Text, ('\x7b' :: ([' '] ++ (s ++ " \x7d".toList))).getLast? = some '\x7d' := by
      simp [List.getLast?_cons]
    have h := says_builder (solid_cons (by decide) _) (reads_inline (c := c) hn) (hl _) (by decide)
    refine .cons ?_ .nil
    rw [List.append_assoc]
    exact h
  | dotted =>
    rw [lines, statements, List.forall₂_map_left_iff, List.forall₂_map_right_iff, List.forall₂_same]
    intro s _
    have hr := s.reads_valueText (c := c) nestingLimit (u := []) rfl
    rw [List.append_nil] at hr
    have hv := s.solid_valueText (c := c) []
    rw [List.append_nil] at hv
    have h := reads_assignment (.inl rfl) (s.reads_dottedKey (s.valueText c)) hv hr
    have hl := s.getLast?_valueText (c := c) ("builder.".toList ++ s.key ++ " = ".toList)
    have he : "builder.".toList ++ s.text c =
        "builder.".toList ++ s.key ++ " = ".toList ++ s.valueText c := by
      simp [Setting.text]
    rw [he]
    exact says_assign ⟨'b', rfl, rfl⟩ h hl
  | array =>
    have hl : ∀ s : Text, ('[' :: ([] ++ (s ++ "]".toList))).getLast? = some ']' := by
      simp [List.getLast?_cons]
    have h := says_builder (solid_cons (by decide) _) (reads_values c settings) (hl _) (by decide)
    refine .cons ?_ .nil
    rw [List.append_assoc]
    exact h

def root (c : BuilderConfig) (settings : List Setting) : Form → Table Unit
  | header => [(⟨builderKey, ()⟩, .table () .header (entries c settings))]
  | inline => [(⟨builderKey, ()⟩, .table () .inline (entries c settings))]
  | dotted =>
    if settings = [] then [] else [(⟨builderKey, ()⟩, .table () .dotted (entries c settings))]
  | array => [(⟨builderKey, ()⟩, .array () false (settings.map (Setting.node c)))]

/-- Where each statement enters a setting into the one table, the settings are entered one after the
other. -/
theorem foldlM_step_enter {statement : Setting → Statement Unit} {current : List (Key Unit)}
    {dotted : Bool} {here : TableForm}
    (hs : ∀ s t, Building.step ⟨[(⟨builderKey, ()⟩, .table () here t)], current⟩ (statement s) =
      (Table.enter dotted s.bareKey (s.node c) here t).map fun t =>
        ⟨[(⟨builderKey, ()⟩, .table () here t)], current⟩)
    (settings : List Setting) (t : Table Unit) :
    (settings.map statement).foldlM Building.step
        ⟨[(⟨builderKey, ()⟩, .table () here t)], current⟩ =
      (settings.foldlM (fun t s => Table.enter dotted s.bareKey (s.node c) here t) t).map fun t =>
        ⟨[(⟨builderKey, ()⟩, .table () here t)], current⟩ := by
  induction settings generalizing t with
  | nil => rfl
  | cons s settings ih =>
    rw [List.map_cons, List.foldlM_cons, List.foldlM_cons, hs]
    cases Table.enter dotted s.bareKey (s.node c) here t with
    | none => rfl
    | some t' => exact ih t'

theorem build?_statements (form : Form) (hn : settings.Nodup) :
    build? (form.statements c settings) = some (form.root c settings) := by
  cases form with
  | header =>
    have hs : ∀ (s : Setting) (t : Table Unit),
        Building.step ⟨[(⟨builderKey, ()⟩, .table () .header t)], [⟨builderKey, ()⟩]⟩
          (.assign ⟨⟨[], s.bareKey⟩, s.node c⟩) =
        (Table.enter false s.bareKey (s.node c) .header t).map fun t =>
          ⟨[(⟨builderKey, ()⟩, .table () .header t)], [⟨builderKey, ()⟩]⟩ := by
      intro s t
      simp [Building.step, Building.changeAt, Table.changeAt, Table.find?, Node.inParent,
        Node.inTable, Table.assign, Table.replace, Function.comp_def]
    have h := foldlM_step_enter hs settings []
    rw [foldlM_enter (by decide) hn fun _ _ => rfl] at h
    rw [build?, statements, List.foldlM_cons]
    exact congrArg (Option.map (·.root)) h
  | inline => rfl
  | dotted =>
    have hs : ∀ (s : Setting) (t : Table Unit),
        Building.step ⟨[(⟨builderKey, ()⟩, .table () .dotted t)], []⟩
          (.assign ⟨⟨[⟨builderKey, ()⟩], s.bareKey⟩, s.node c⟩) =
        (Table.enter true s.bareKey (s.node c) .dotted t).map fun t =>
          ⟨[(⟨builderKey, ()⟩, .table () .dotted t)], []⟩ := by
      intro s t
      simp [Building.step, Building.changeAt, Table.changeAt, Table.find?, Node.inParent,
        Node.inTable, Table.assign, Table.replace, Function.comp_def]
    cases settings with
    | nil => rfl
    | cons s settings =>
      -- The first dotted key makes the table that the others find.
      have h := foldlM_step_enter hs settings [(s.bareKey, s.node c)]
      have he : settings.foldlM (fun t s => Table.enter true s.bareKey (s.node c) .dotted t)
          [(s.bareKey, s.node c)] = some (entries c (s :: settings)) := by
        have hf : ¬(true = true ∧ TableForm.dotted ≠ .dotted) := by decide
        exact foldlM_enter hf hn (t := []) fun _ _ => rfl
      rw [he] at h
      rw [build?, statements, List.map_cons, List.foldlM_cons]
      exact congrArg (Option.map (·.root)) h
  | array => rfl

theorem find?_entries (settings : List Setting) (s : Setting) :
    (entries c settings).find? s.key = if s ∈ settings then some (s.node c) else none := by
  induction settings with
  | nil => rfl
  | cons s' settings ih =>
    have he : entries c (s' :: settings) = (s'.bareKey, s'.node c) :: entries c settings := rfl
    rw [he, Table.find?, Setting.bareKey, ih]
    by_cases hs : s' = s
    · subst hs
      rw [if_pos rfl, if_pos List.mem_cons_self]
    · rw [if_neg fun h => hs (Setting.key_injective h)]
      simp [Ne.symm hs]

theorem entries_distinct (hn : settings.Nodup) : (entries c settings).Distinct := by
  constructor
  · rw [entries, List.map_map]
    exact hn.map Setting.key_injective
  · intro e he
    obtain ⟨s, -, rfl⟩ := List.mem_map.mp he
    exact .scalar

theorem distinct_singleton {key : Key Unit} {node : Node Unit} (h : node.Distinct) :
    Table.Distinct [(key, node)] := by
  constructor
  · simp
  · simpa using h

theorem root_distinct (form : Form) (hn : settings.Nodup) : (form.root c settings).Distinct := by
  have ht : ∀ made, (Node.table () made (entries c settings)).Distinct := fun _ =>
    Node.distinct_table_iff.mpr (entries_distinct hn)
  cases form with
  | header => exact distinct_singleton (ht _)
  | inline => exact distinct_singleton (ht _)
  | dotted =>
    rw [root]
    split
    · exact Table.distinct_nil
    · exact distinct_singleton (ht _)
  | array =>
    refine distinct_singleton (.array ?_)
    intro node hm
    obtain ⟨s, -, rfl⟩ := List.mem_map.mp hm
    exact .scalar

section Described

open Shape

variable (hc : ∀ s, s ∉ settings → s.IsDefault c)

include hc

/-- The width is one of 64 bits if it is written and read at all, and else as the default is. -/
theorem range_of_given {n : Int}
    (h : Given IsWidth 4 (if Setting.width ∈ settings then some (Setting.width.node c) else none) n) :
    -2 ^ 63 ≤ c.indentWidth ∧ c.indentWidth < 2 ^ 63 := by
  split at h
  · rw [given_some_iff] at h
    cases h with
    | integer hl hu => exact ⟨hl, hu⟩
  · next hw =>
    have hd : c.indentWidth = 4 := hc _ hw
    rw [hd]
    decide

theorem given_width (hr : -2 ^ 63 ≤ c.indentWidth ∧ c.indentWidth < 2 ^ 63) :
    Given IsWidth 4 (if Setting.width ∈ settings then some (Setting.width.node c) else none)
      c.indentWidth := by
  split
  · exact .present (.integer hr.1 hr.2)
  · next hw => exact given_none_iff.mpr (hc _ hw)

theorem given_lineEnding :
    Given IsLineEnding .lf
      (if Setting.lineEnding ∈ settings then some (Setting.lineEnding.node c) else none)
      c.lineEnding := by
  split
  · exact .present .name
  · next hl => exact given_none_iff.mpr (hc _ hl)

theorem range_of_table {made : TableForm} {c' : BuilderConfig}
    (h : IsSettings (.table () made (entries c settings)) c') :
    -2 ^ 63 ≤ c.indentWidth ∧ c.indentWidth < 2 ^ 63 := by
  rcases h with ⟨-, hw, -⟩ | _
  rw [find?_entries] at hw
  exact range_of_given hc hw

theorem isSettings_table {made : TableForm}
    (hr : -2 ^ 63 ≤ c.indentWidth ∧ c.indentWidth < 2 ^ 63) :
    IsSettings (.table () made (entries c settings)) c := by
  refine .table ?_ ?_ ?_
  · intro e he
    obtain ⟨s, -, rfl⟩ := List.mem_map.mp he
    exact ⟨s, rfl⟩
  · rw [find?_entries]
    exact given_width hc hr
  · rw [find?_entries]
    exact given_lineEnding hc

omit hc in
theorem getElem?_nodes (hp : settings <+: [.width, .lineEnding]) :
    (settings.map (Setting.node c))[0]? =
        (if Setting.width ∈ settings then some (Setting.width.node c) else none) ∧
      (settings.map (Setting.node c))[1]? =
        if Setting.lineEnding ∈ settings then some (Setting.lineEnding.node c) else none := by
  cases settings with
  | nil => exact ⟨rfl, rfl⟩
  | cons s settings =>
    obtain ⟨rfl, hq⟩ := List.cons_prefix_cons.mp hp
    cases settings with
    | nil => exact ⟨rfl, rfl⟩
    | cons s settings =>
      obtain ⟨rfl, -⟩ := List.cons_prefix_cons.mp hq
      simp

theorem range_of_root (form : Form) (ha : form.Allows settings) {c' : BuilderConfig}
    (h : Describes (form.root c settings) c') :
    -2 ^ 63 ≤ c.indentWidth ∧ c.indentWidth < 2 ^ 63 := by
  cases form with
  | header | inline => exact range_of_table hc (given_some_iff.mp h.builder)
  | dotted =>
    by_cases he : settings = []
    · have hw : c.indentWidth = 4 := hc .width (by simp [he])
      rw [hw]
      decide
    · rw [root, if_neg he] at h
      exact range_of_table hc (given_some_iff.mp h.builder)
  | array =>
    rcases given_some_iff.mp h.builder with _ | ⟨hw, -⟩
    rw [(getElem?_nodes (ha.2 rfl)).1] at hw
    exact range_of_given hc hw

theorem describes_root (form : Form) (ha : form.Allows settings)
    (hr : -2 ^ 63 ≤ c.indentWidth ∧ c.indentWidth < 2 ^ 63) :
    Describes (form.root c settings) c := by
  have hs : ∀ {node : Node Unit}, IsSettings node c → Describes [(⟨builderKey, ()⟩, node)] c :=
    fun h => ⟨List.forall_mem_singleton.mpr rfl, .present h⟩
  cases form with
  | header | inline => exact hs (isSettings_table hc hr)
  | dotted =>
    by_cases he : settings = []
    · have hw : c.indentWidth = 4 := hc .width (by simp [he])
      have hl : c.lineEnding = .lf := hc .lineEnding (by simp [he])
      rw [root, if_pos he]
      exact ⟨List.forall_mem_nil _, given_none_iff.mpr (by rw [← hw, ← hl])⟩
    · rw [root, if_neg he]
      exact hs (isSettings_table hc hr)
  | array =>
    obtain ⟨hw, hl⟩ := getElem?_nodes (c := c) (ha.2 rfl)
    refine hs (.array ?_ ?_)
    · rw [hw]
      exact given_width hc hr
    · rw [hl]
      exact given_lineEnding hc

end Described

/-- Blank lines and comments say nothing. -/
theorem padded_says {lines padded : List Text} (hp : Padded lines padded)
    {statements : List (Statement Unit)} (hs : List.Forall₂ Says lines statements) :
    (∀ line ∈ padded, ∃ s, IsLine line s) ∧ padded.filterMap stated? = statements := by
  induction hp generalizing statements with
  | nil =>
    cases hs
    exact ⟨List.forall_mem_nil _, rfl⟩
  | line line _ ih =>
    cases hs with
    | cons hl hs =>
      obtain ⟨hi, rfl⟩ := ih hs
      exact ⟨List.forall_mem_cons.mpr ⟨hl.1, hi⟩, List.filterMap_cons_some hl.2⟩
  | filler hf _ ih =>
    obtain ⟨hi, rfl⟩ := ih hs
    have hl := isFiller_isLine hf
    refine ⟨List.forall_mem_cons.mpr ⟨⟨_, hl⟩, hi⟩, List.filterMap_cons_none ?_⟩
    rw [stated?, hl.read]
    rfl

theorem outline?_padded {lines padded : List Text} (hp : Padded lines padded)
    {statements : List (Statement Unit)} (hs : List.Forall₂ Says lines statements) (e : LineEnding) :
    outline? (skipByteOrderMark (e.join padded)) = some statements := by
  obtain ⟨hi, rfl⟩ := padded_says hp hs
  have hb : skipByteOrderMark (e.join padded) = e.join padded := by
    cases padded with
    | nil => rfl
    | cons line padded =>
      obtain ⟨s, hl⟩ := hi line List.mem_cons_self
      exact skipByteOrderMark_join (.inl rfl) e hl.head?_ne padded
  have ho := outline?_lines e hi []
  rw [List.append_nil] at ho
  rw [hb, ho]
  exact congrArg some (List.append_nil _)

end Form

/-- Settings that are written in any of the forms, with blank lines and comments between the lines, are
read back as they are, where those that are left out have their defaults. A width beyond 64 bits is an
error instead. -/
theorem load_written (form : Form) {settings : List Setting} (ha : form.Allows settings)
    {c : BuilderConfig} (hc : ∀ s, s ∉ settings → s.IsDefault c) {document : List Text}
    (hd : Padded (form.lines c settings) document) (e : LineEnding) (source : Text) :
    (-2 ^ 63 ≤ c.indentWidth ∧ c.indentWidth < 2 ^ 63 →
      (BuilderConfig.load (e.join document) source).result = .ok c) ∧
    (¬(-2 ^ 63 ≤ c.indentWidth ∧ c.indentWidth < 2 ^ 63) →
      ∃ problem, (BuilderConfig.load (e.join document) source).result =
        .error (.document source problem)) := by
  have hs : ∀ c', (BuilderConfig.load (e.join document) source).result = .ok c' ↔
      Shape.Describes (form.root c settings) c' := by
    intro c'
    rw [BuilderConfig.load_eq_ok_iff, Form.outline?_padded hd (form.lines_say ha.1) e, verdict,
      Option.bind_some, form.build?_statements ha.1]
    exact mapError_eq_ok_iff.trans (Shape.document_eq_ok_iff (form.root_distinct ha.1))
  constructor
  · intro hr
    exact (hs c).mpr (form.describes_root hc ha hr)
  · intro hr
    refine (BuilderConfig.load_result_cases (e.join document) source).resolve_left ?_
    rintro ⟨c', hl⟩
    exact hr (form.range_of_root hc ha ((hs c').mp hl))

theorem load_written_extremes :
    (BuilderConfig.load (LineEnding.crlf.join ["# narrow".toList,
      "builder = \x7b line_ending = \"crlf\", indent_width = -9223372036854775808 \x7d".toList,
      []]) []).result = .ok { indentWidth := -2 ^ 63, lineEnding := .crlf } ∧
    ∃ problem, (BuilderConfig.load (LineEnding.lf.join
      ["builder = [9223372036854775808]".toList]) []).result = .error (.document [] problem) := by
  have hi : Padded (Form.inline.lines { indentWidth := -2 ^ 63, lineEnding := .crlf }
      [.lineEnding, .width]) ["# narrow".toList,
      "builder = \x7b line_ending = \"crlf\", indent_width = -9223372036854775808 \x7d".toList,
      []] := by
    have hl : Form.inline.lines { indentWidth := -2 ^ 63, lineEnding := .crlf }
        [.lineEnding, .width] =
      ["builder = \x7b line_ending = \"crlf\", indent_width = -9223372036854775808 \x7d".toList] := by
      decide +kernel
    rw [hl]
    have ht : ∀ c ∈ " narrow".toList, isTextChar c = true := List.all_eq_true.mp rfl
    exact .filler (.comment (List.forall_mem_nil _) ht) (.line _ (.filler (.blank (by simp)) .nil))
  have ha : Padded (Form.array.lines { indentWidth := 2 ^ 63 } [.width])
      ["builder = [9223372036854775808]".toList] := by
    have hl : Form.array.lines { indentWidth := 2 ^ 63 } [.width] =
        ["builder = [9223372036854775808]".toList] := by decide +kernel
    rw [hl]
    exact .line _ .nil
  constructor
  · refine (load_written .inline ⟨by decide, nofun⟩ (fun s hs => ?_) hi .crlf []).1 (by decide)
    cases s <;> simp at hs
  · refine (load_written .array ⟨by decide, fun _ => by decide⟩ (fun s hs => ?_) ha .lf []).2
      (by decide)
    cases s with
    | width => simp at hs
    | lineEnding => rfl

end SourceGen
