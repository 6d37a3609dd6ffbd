import Mathlib.Algebra.Group.Int.Defs
import Mathlib.Data.List.Basic
import SourceGen.Config.Load
import SourceGen.Proofs.Toml.DistinctKeys

/-! # The settings that a document describes

Reading visits keys in one order and stops at the first problem. What it accepts can be said without
any order, as the keys of a table are distinct: which keys there are, and what stands under each. -/
namespace SourceGen

open Toml

namespace Shape

variable {π : Type}

/-- What a node says, or the default where there is none. -/
inductive Given {β : Type} (Says : Node π → β → Prop) (default : β) :
    Option (Node π) → β → Prop where
  | absent : Given Says default none default
  | present {node v} : Says node v → Given Says default (some node) v

/-- An integer of 64 bits. -/
inductive IsWidth : Node π → Int → Prop where
  | integer {place n} : -2 ^ 63 ≤ n → n < 2 ^ 63 → IsWidth (.scalar place (.integer (some n))) n

inductive Hollow : Node π → Prop where
  | array {place ofTables} : Hollow (.array place ofTables [])
  | table {place form} : Hollow (.table place form [])

inductive IsLineEnding : Node π → LineEnding → Prop where
  | name {place e} : IsLineEnding (.scalar place (.string e.name)) e
  | onlyKey {place form key node e} :
      key.name = e.name → Hollow node → IsLineEnding (.table place form [(key, node)]) e

def Setting.key : Setting → Text
  | width => "indent_width".toList
  | lineEnding => "line_ending".toList

inductive IsSettings : Node π → BuilderConfig → Prop where
  | table {place form entries c} :
      (∀ e ∈ entries, ∃ s : Setting, e.1.name = s.key) →
      Given IsWidth 4 (Table.find? entries Setting.width.key) c.indentWidth →
      Given IsLineEnding .lf (Table.find? entries Setting.lineEnding.key) c.lineEnding →
      IsSettings (.table place form entries) c
  | array {place ofTables items c} :
      Given IsWidth 4 items[0]? c.indentWidth → Given IsLineEnding .lf items[1]? c.lineEnding →
      IsSettings (.array place ofTables items) c

/-- The table describes the settings `c`. -/
structure Describes (root : Table π) (c : BuilderConfig) : Prop where
  keys : ∀ e ∈ root, e.1.name = "builder".toList
  builder : Given IsSettings { indentWidth := 4, lineEnding := .lf }
    (root.find? "builder".toList) c

section Given

variable {β : Type} {Says : Node π → β → Prop} {d v : β}

@[simp] theorem given_none_iff : Given Says d none v ↔ v = d := by
  constructor
  · rintro ⟨⟩
    rfl
  · rintro rfl
    exact .absent

@[simp] theorem given_some_iff {node : Node π} : Given Says d (some node) v ↔ Says node v := by
  constructor
  · rintro (_ | h)
    exact h
  · exact .present

end Given

section Outcomes

variable {ε α β : Type}

theorem map_eq_ok_iff {x : Except ε α} {f : α → β} {b : β} :
    x.map f = .ok b ↔ ∃ a, x = .ok a ∧ f a = b := by
  cases x <;> simp [Except.map]

theorem bind_eq_ok_iff {x : Except ε α} {f : α → Except ε β} {b : β} :
    x >>= f = .ok b ↔ ∃ a, x = .ok a ∧ f a = .ok b := by
  cases x <;> simp [bind, Except.bind]

end Outcomes

theorem width_eq_ok_iff {node : Node π} {n : Int} : width node = .ok n ↔ IsWidth node n := by
  unfold width
  split
  · next place m =>
    have hm : fitsSigned 64 m = true ↔ -2 ^ 63 ≤ m ∧ m < 2 ^ 63 := by
      simp [fitsSigned]
    constructor
    · intro h
      split at h
      · next hs =>
        cases h
        exact .integer (hm.mp hs).1 (hm.mp hs).2
      · split at h <;> cases h
    · rintro ⟨hl, hu⟩
      rw [if_pos (hm.mpr ⟨hl, hu⟩)]
  · next hn =>
    constructor
    · intro h
      cases h
    · rintro ⟨-, -⟩
      exact absurd rfl (hn _ _)

theorem isEmptyCollection_iff {node : Node π} : isEmptyCollection node = true ↔ Hollow node := by
  constructor
  · intro h
    cases node with
    | scalar place value => cases h
    | array place ofTables items =>
      rw [List.isEmpty_iff.mp h]
      exact .array
    | table place form entries =>
      rw [List.isEmpty_iff.mp h]
      exact .table
  · rintro (_ | _) <;> rfl

theorem lineEnding_eq_ok_iff {node : Node π} {e : LineEnding} :
    lineEnding node = .ok e ↔ IsLineEnding node e := by
  constructor
  · intro h
    unfold lineEnding at h
    split at h
    · split at h
      · next e' he =>
        cases h
        rw [LineEnding.ofName?_eq_some he]
        exact .name
      · cases h
    · split at h
      · next e' he =>
        split at h
        · next hc =>
          cases h
          exact .onlyKey (LineEnding.ofName?_eq_some he) (isEmptyCollection_iff.mp hc)
        · cases h
      · cases h
    · cases h
    · cases h
  · rintro (_ | ⟨hk, hc⟩)
    · simp [lineEnding, LineEnding.ofName?_name]
    · simp [lineEnding, hk, LineEnding.ofName?_name, isEmptyCollection_iff.mpr hc]

theorem Setting.ofKey?_eq_some_iff {name : Text} {s : Setting} :
    ofKey? name = some s ↔ name = s.key := by
  constructor
  · intro h
    obtain ⟨before, behind, hk, -⟩ := List.lookup_eq_some_iff.mp h
    have hm : (name, s) ∈ keys := by
      rw [hk]
      simp
    rcases (by simpa [keys] using hm) with ⟨rfl, rfl⟩ | ⟨rfl, rfl⟩ <;> rfl
  · rintro rfl
    cases s <;> decide

/-- An entry sets what its key names. -/
theorem setting_eq_ok_iff {key : Key π} {node : Node π} {c c' : BuilderConfig} :
    setting c (key, node) = .ok c' ↔
      (key.name = Setting.width.key ∧ ∃ n, IsWidth node n ∧ { c with indentWidth := n } = c') ∨
      (key.name = Setting.lineEnding.key ∧
        ∃ e, IsLineEnding node e ∧ { c with lineEnding := e } = c') := by
  simp only [← Setting.ofKey?_eq_some_iff, ← width_eq_ok_iff, ← lineEnding_eq_ok_iff,
    ← map_eq_ok_iff, setting]
  cases Setting.ofKey? key.name with
  | none => simp
  | some s => cases s <;> simp

/-- Reading the entries of a table with distinct keys, in any order, replaces the settings that the
table has. -/
theorem foldlM_setting_eq_ok_iff {t : Table π} (hn : (t.map fun e => e.1.name).Nodup)
    {c c' : BuilderConfig} :
    t.foldlM setting c = .ok c' ↔
      (∀ e ∈ t, ∃ s : Setting, e.1.name = s.key) ∧
      Given IsWidth c.indentWidth (t.find? Setting.width.key) c'.indentWidth ∧
      Given IsLineEnding c.lineEnding (t.find? Setting.lineEnding.key) c'.lineEnding := by
  have hne : Setting.width.key ≠ Setting.lineEnding.key := by decide
  induction t generalizing c with
  | nil =>
    obtain ⟨w, e⟩ := c
    obtain ⟨w', e'⟩ := c'
    simp [Table.find?, pure, Except.pure, eq_comm]
  | cons entry t ih =>
    obtain ⟨key, node⟩ := entry
    obtain ⟨hk, hn⟩ := List.nodup_cons.mp hn
    have hf : Table.find? t key.name = none := Table.find?_eq_none_iff.mpr hk
    simp only [List.foldlM_cons, bind_eq_ok_iff, setting_eq_ok_iff, ih hn, List.forall_mem_cons,
      Table.find?]
    by_cases hw : key.name = Setting.width.key
    · have hs : ∃ s : Setting, Setting.width.key = s.key := ⟨_, rfl⟩
      rw [hw] at hf
      simp only [hw, hne, hf, hs, if_true, if_false, true_and, false_and, or_false, given_none_iff,
        given_some_iff]
      constructor
      · rintro ⟨_, ⟨n, hi, rfl⟩, ht, hc, he⟩
        exact ⟨ht, hc ▸ hi, he⟩
      · rintro ⟨ht, hi, he⟩
        exact ⟨_, ⟨_, hi, rfl⟩, ht, rfl, he⟩
    by_cases hl : key.name = Setting.lineEnding.key
    · have hs : ∃ s : Setting, Setting.lineEnding.key = s.key := ⟨_, rfl⟩
      rw [hl] at hf
      simp only [hl, hne.symm, hf, hs, if_true, if_false, true_and, false_and, false_or,
        given_none_iff, given_some_iff]
      constructor
      · rintro ⟨_, ⟨e, hi, rfl⟩, ht, hc, he⟩
        exact ⟨ht, hc, he ▸ hi⟩
      · rintro ⟨ht, hc, hi⟩
        exact ⟨_, ⟨_, hi, rfl⟩, ht, hc, rfl⟩
    · have hs : ¬∃ s : Setting, key.name = s.key := by
        rintro ⟨_ | _, hs⟩
        · exact hw hs
        · exact hl hs
      simp [hw, hl, hs]

theorem positional_eq_ok_iff {items : List (Node π)} {c : BuilderConfig} :
    positional items = .ok c ↔
      Given IsWidth 4 items[0]? c.indentWidth ∧ Given IsLineEnding .lf items[1]? c.lineEnding := by
  obtain ⟨w, e⟩ := c
  match items with
  | [] => simp [positional, defaultIndentWidth, eq_comm]
  | [first] =>
    simp only [positional, map_eq_ok_iff, width_eq_ok_iff, BuilderConfig.mk.injEq,
      List.getElem?_cons_zero, List.getElem?_cons_succ, List.getElem?_nil, given_some_iff,
      given_none_iff]
    constructor
    · rintro ⟨n, hn, rfl, rfl⟩
      exact ⟨hn, rfl⟩
    · rintro ⟨hw, rfl⟩
      exact ⟨w, hw, rfl, rfl⟩
  | first :: second :: rest =>
    simp [positional, bind_eq_ok_iff, width_eq_ok_iff, lineEnding_eq_ok_iff, pure, Except.pure]

theorem inNameOrder_perm (t : Table π) : (inNameOrder t).Perm t := List.mergeSort_perm _ _

theorem settings_eq_ok_iff {node : Node π} (h : node.Distinct) {c : BuilderConfig} :
    settings node = .ok c ↔ IsSettings node c := by
  unfold settings
  split
  · next place form entries =>
    have hn := (Node.distinct_table_iff.mp h).names
    have hp := inNameOrder_perm entries
    have hs := (hp.map fun e => e.1.name).nodup_iff.mpr hn
    rw [foldlM_setting_eq_ok_iff hs, Table.Distinct.find?_perm hp hs, Table.Distinct.find?_perm hp hs]
    simp only [hp.mem_iff]
    constructor
    · rintro ⟨hk, hw, he⟩
      exact .table hk hw he
    · rintro (⟨hk, hw, he⟩ | _)
      exact ⟨hk, hw, he⟩
  · rw [positional_eq_ok_iff]
    constructor
    · rintro ⟨hw, he⟩
      exact .array hw he
    · rintro (_ | ⟨hw, he⟩)
      exact ⟨hw, he⟩
  · constructor <;> rintro ⟨⟩
  · next ht ha hd =>
    constructor
    · rintro ⟨⟩
    · rintro (_ | _)
      · exact absurd rfl (ht _ _ _)
      · exact absurd rfl (ha _ _ _)

theorem topLevel_eq_ok_iff {key : Key π} {node : Node π} (h : node.Distinct)
    {c c' : BuilderConfig} :
    topLevel c (key, node) = .ok c' ↔ key.name = builderKey ∧ IsSettings node c' := by
  by_cases hk : key.name = builderKey
  · simp [topLevel, documentKeys, hk, settings_eq_ok_iff h]
  · simp [topLevel, documentKeys, hk]

theorem foldlM_topLevel_eq_ok_iff {t : Table π} (h : t.Distinct) {c c' : BuilderConfig} :
    t.foldlM topLevel c = .ok c' ↔
      (∀ e ∈ t, e.1.name = builderKey) ∧ Given IsSettings c (t.find? builderKey) c' := by
  induction t generalizing c with
  | nil => simp [Table.find?, pure, Except.pure, eq_comm]
  | cons entry t ih =>
    obtain ⟨key, node⟩ := entry
    obtain ⟨hk, hn⟩ := List.nodup_cons.mp h.names
    obtain ⟨hd, ht⟩ := List.forall_mem_cons.mp h.nodes
    simp only [List.foldlM_cons, bind_eq_ok_iff, topLevel_eq_ok_iff hd, ih ⟨hn, ht⟩,
      List.forall_mem_cons, Table.find?]
    by_cases hb : key.name = builderKey
    · have hf : Table.find? t builderKey = none := hb ▸ Table.find?_eq_none_iff.mpr hk
      simp only [hb, hf, if_true, true_and, given_none_iff, given_some_iff]
      constructor
      · rintro ⟨_, hs, ht, rfl⟩
        exact ⟨ht, hs⟩
      · rintro ⟨ht, hs⟩
        exact ⟨_, hs, ht, rfl⟩
    · simp [hb]

theorem document_eq_ok_iff {root : Table π} (h : root.Distinct) {c : BuilderConfig} :
    document root = .ok c ↔ Describes root c := by
  have hp := inNameOrder_perm root
  have hn := (hp.map fun e => e.1.name).nodup_iff.mpr h.names
  have hs : Table.Distinct (inNameOrder root) := ⟨hn, fun e he => h.nodes e (hp.mem_iff.mp he)⟩
  rw [document, foldlM_topLevel_eq_ok_iff hs, Table.Distinct.find?_perm hp hn]
  simp only [hp.mem_iff]
  constructor
  · rintro ⟨hk, hb⟩
    exact ⟨hk, hb⟩
  · rintro ⟨hk, hb⟩
    exact ⟨hk, hb⟩

end Shape

namespace BuilderConfig

/-- A document that can be read gives settings if and only if it describes them, and then just
those. One that cannot be read is an error, whatever stands in it. -/
theorem load_iff_describes (document source : Text) :
    (∀ root, Toml.parse? document = some root → root.Distinct ∧
      ∀ c, (load document source).result = .ok c ↔ Shape.Describes root c) ∧
    (Toml.parse? document = none →
      (load document source).result = .error (.document source none)) := by
  constructor
  · intro root hr
    have hd := Toml.parse?_distinct hr
    refine ⟨hd, ?_⟩
    intro c
    rw [← Shape.document_eq_ok_iff hd]
    cases hs : Shape.document root <;> simp [load, ofDocument, hr, hs]
  · intro hn
    simp [load, ofDocument, hn]

theorem load_iff_describes_dotted :
    (∃ root, Toml.parse? "builder.line_ending.crlf=[]".toList = some root ∧
      Shape.Describes root { lineEnding := .crlf }) ∧
    Toml.parse? "builder=1\nbuilder=[2]".toList = none ∧
    (load "builder=1\nbuilder=[2]".toList []).result = .error (.document [] none) := by
  have hs : (Toml.parse? "builder.line_ending.crlf=[]".toList).isSome = true := by decide +kernel
  have hl : (load "builder.line_ending.crlf=[]".toList []).result =
      .ok { lineEnding := .crlf } := by decide +kernel
  have hn : Toml.parse? "builder=1\nbuilder=[2]".toList = none := by rfl
  obtain ⟨root, hr⟩ := Option.isSome_iff_exists.mp hs
  obtain ⟨-, hd⟩ := (load_iff_describes _ []).1 root hr
  exact ⟨⟨root, hr, (hd _).mp hl⟩, hn, (load_iff_describes _ []).2 hn⟩

end BuilderConfig

end SourceGen
