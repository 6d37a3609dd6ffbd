import SourceGen.Config.Load
import SourceGen.Proofs.Toml.Outline

/-! # What the outline of a document settles

Places show up in an error and nowhere else. So the settings of a document, or what is wrong with it,
follow from its outline. -/
namespace SourceGen

open Toml

variable {π ρ : Type}

def Fault.map (g : π → ρ) (fault : Fault π) : Fault ρ := ⟨fault.problem, g fault.place⟩

theorem mapError_eq_ok_iff {ε δ α : Type} {x : Except ε α} {f : ε → δ} {a : α} :
    x.mapError f = .ok a ↔ x = .ok a := by
  cases x <;> simp [Except.mapError]

/-- A fold goes on in the same way where each of its steps does, up to a change of the error. -/
theorem foldlM_mapError {ε δ α β γ : Type} {k : ε → δ} {h : α → β} {step : γ → α → Except ε γ}
    {step' : γ → β → Except δ γ} (hs : ∀ c a, step' c (h a) = (step c a).mapError k) (l : List α)
    (c : γ) : (l.map h).foldlM step' c = (l.foldlM step c).mapError k := by
  induction l generalizing c with
  | nil => rfl
  | cons a l ih =>
    rw [List.map_cons, List.foldlM_cons, List.foldlM_cons, hs]
    cases step c a with
    | error e => rfl
    | ok c' => exact ih c'

namespace Shape

variable (g : π → ρ)

theorem inNameOrder_map (t : Table π) : inNameOrder (t.map g) = (inNameOrder t).map g := by
  unfold inNameOrder Table.map
  exact (List.map_mergeSort (f := fun e : Key π × Node π => (e.1.map g, e.2.map g))
    fun _ _ _ _ => rfl).symm

theorem found?_map (node : Node π) : found? (node.map g) = found? node := by
  cases node with
  | scalar place value => cases value <;> simp [found?]
  | array | table => simp [found?]

theorem mismatch_map (node : Node π) (expected : Expectation) :
    mismatch (node.map g) expected = (mismatch node expected).map g := by
  rw [mismatch, found?_map, Node.place_map, mismatch]
  cases found? node <;> rfl

theorem width_map (node : Node π) : width (node.map g) = (width node).mapError (Fault.map g) := by
  have hm : Except.error (mismatch (node.map g) .width) =
      (Except.error (mismatch node .width) : Except (Fault π) Int).mapError (Fault.map g) :=
    congrArg Except.error (mismatch_map g node .width)
  cases node with
  | array | table => simpa [width] using hm
  | scalar place value =>
    cases value with
    | integer n =>
      cases n with
      | none => simpa [width] using hm
      | some n =>
        rw [Node.map_scalar] at hm ⊢
        simp only [width]
        split
        · rfl
        · split
          · rfl
          · exact hm
    | _ => simpa [width] using hm

theorem isEmptyCollection_map (node : Node π) :
    isEmptyCollection (node.map g) = isEmptyCollection node := by
  cases node with
  | scalar => simp [isEmptyCollection]
  | array place ofTables items => cases items <;> simp [isEmptyCollection]
  | table place form entries => cases entries <;> simp [isEmptyCollection, Table.map]

theorem lineEnding_map (node : Node π) :
    lineEnding (node.map g) = (lineEnding node).mapError (Fault.map g) := by
  cases node with
  | array place ofTables items => simp [lineEnding, Except.mapError, Fault.map, Node.place]
  | scalar place value =>
    cases value with
    | string t =>
      simp only [Node.map_scalar, lineEnding]
      cases LineEnding.ofName? t <;> rfl
    | _ => simp [lineEnding, Except.mapError, Fault.map, Node.place]
  | table place form entries =>
    rcases entries with _ | ⟨⟨key, content⟩, _ | ⟨_, _⟩⟩
    · simp [lineEnding, Except.mapError, Fault.map, Table.map]
    · have hk : (key.map g).name = key.name := rfl
      simp only [Node.map_table, Table.map, List.map_cons, List.map_nil, lineEnding, hk,
        isEmptyCollection_map, Node.place_map]
      cases LineEnding.ofName? key.name with
      | none => rfl
      | some e => cases isEmptyCollection content <;> rfl
    · simp [lineEnding, Table.map, Except.mapError, Fault.map]

theorem setting_map (c : BuilderConfig) (entry : Key π × Node π) :
    setting c (entry.1.map g, entry.2.map g) = (setting c entry).mapError (Fault.map g) := by
  have hk : (entry.1.map g).name = entry.1.name := rfl
  simp only [setting, hk, width_map, lineEnding_map]
  cases Setting.ofKey? entry.1.name with
  | none => rfl
  | some s =>
    cases s with
    | width => cases width entry.2 <;> rfl
    | lineEnding => cases lineEnding entry.2 <;> rfl

theorem positional_map (items : List (Node π)) :
    positional (items.map (Node.map g)) = (positional items).mapError (Fault.map g) := by
  match items with
  | [] => rfl
  | [w] =>
    simp only [List.map_cons, List.map_nil, positional, width_map]
    cases width w <;> rfl
  | w :: e :: rest =>
    simp only [List.map_cons, positional, width_map, lineEnding_map]
    cases width w with
    | error => rfl
    | ok n => cases lineEnding e <;> rfl

theorem settings_map (node : Node π) :
    settings (node.map g) = (settings node).mapError (Fault.map g) := by
  have hm : Except.error (mismatch (node.map g) .settings) =
      (Except.error (mismatch node .settings) : Except (Fault π) BuilderConfig).mapError
        (Fault.map g) :=
    congrArg Except.error (mismatch_map g node .settings)
  cases node with
  | table place form entries =>
    rw [Node.map_table, settings, inNameOrder_map]
    exact foldlM_mapError (setting_map g) _ _
  | array place ofTables items =>
    rw [Node.map_array, settings]
    exact positional_map g items
  | scalar place value =>
    cases value with
    | dateTime => simp [settings, Except.mapError, Fault.map]
    | _ => simpa [settings] using hm

theorem topLevel_map (c : BuilderConfig) (entry : Key π × Node π) :
    topLevel c (entry.1.map g, entry.2.map g) = (topLevel c entry).mapError (Fault.map g) := by
  have hk : (entry.1.map g).name = entry.1.name := rfl
  simp only [topLevel, hk, settings_map]
  split <;> rfl

/-- With other places, a document says the same, and errors have the new places. -/
theorem document_map (root : Table π) :
    document (root.map g) = (document root).mapError (Fault.map g) := by
  rw [document, inNameOrder_map]
  exact foldlM_mapError (topLevel_map g) _ _

end Shape

/-- The settings that an outline gives, or what is wrong with it. -/
def verdict (outline : Option (List (Statement Unit))) : Except (Option Problem) BuilderConfig :=
  match outline.bind build? with
  | none => .error none
  | some root => (Shape.document root).mapError fun fault => some fault.problem

theorem foldlM_step_bare (statements : List (Statement π)) (b : Building π) :
    (statements.filterMap Statement.bare?).foldlM Building.step (b.map fun _ => ()) =
      (statements.foldlM Building.step b).map (Building.map fun _ => ()) := by
  induction statements generalizing b with
  | nil => rfl
  | cons s statements ih =>
    rw [List.foldlM_cons]
    cases hs : s.bare? with
    | none =>
      obtain rfl : s = .blank := by cases s <;> first | rfl | cases hs
      exact ih b
    | some s' =>
      obtain rfl : s.map (fun _ => ()) = s' := by
        cases s <;> first | exact Option.some.inj hs | cases hs
      rw [List.filterMap_cons_some hs, List.foldlM_cons, Building.step_map]
      cases b.step s with
      | none => rfl
      | some b' => exact ih b'

theorem build?_bare (statements : List (Statement π)) :
    build? (statements.filterMap Statement.bare?) =
      (build? statements).map (Table.map fun _ => ()) := by
  have h := foldlM_step_bare statements {}
  have he : ({} : Building π).map (fun _ => ()) = {} := rfl
  rw [he] at h
  rw [build?, h, build?]
  cases statements.foldlM Building.step {} <;> rfl

namespace BuilderConfig

/-- What a document gives follows from its outline, but for the place of a problem. -/
theorem ofDocument_eq_verdict (document : Text) :
    (ofDocument document).mapError (Option.map (·.1)) =
      verdict (outline? (skipByteOrderMark document)) := by
  have hb : (outline? (skipByteOrderMark document)).bind build? =
      (parse? document).map (Table.map fun _ => ()) := by
    rw [outline?, parse?]
    cases statements? (skipByteOrderMark document) with
    | none => rfl
    | some statements => exact build?_bare statements
  rw [verdict, hb, ofDocument]
  cases parse? document with
  | none => rfl
  | some root =>
    simp only [Option.map_some, Shape.document_map]
    cases Shape.document root <;> rfl

theorem load_eq_ok_iff {document source : Text} {c : BuilderConfig} :
    (load document source).result = .ok c ↔
      verdict (outline? (skipByteOrderMark document)) = .ok c := by
  rw [← ofDocument_eq_verdict, mapError_eq_ok_iff, load]
  cases ofDocument document <;> simp

theorem load_result_cases (document source : Text) :
    (∃ c, (load document source).result = .ok c) ∨
      ∃ problem, (load document source).result = .error (.document source problem) := by
  unfold load
  split
  · exact .inl ⟨_, rfl⟩
  · exact .inr ⟨_, rfl⟩

end BuilderConfig

end SourceGen
