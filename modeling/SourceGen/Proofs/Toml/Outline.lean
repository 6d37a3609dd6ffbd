import Mathlib.Data.List.Forall2
import SourceGen.Layout.LineEnding
import SourceGen.Proofs.Toml.Continued

/-! # Outlines

The outline of a document is what its statements say, in order, without the blank lines and without any
places. A document that is put together from whole lines has the outlines of its lines one after the
other. -/
namespace SourceGen

/-- The text of which these are the lines. -/
def LineEnding.join (e : LineEnding) (lines : List Text) : Text := e.terminator.intercalate lines

namespace Toml

variable {π ρ σ : Type}

def Node.bare (node : Node π) : Node Unit := node.map fun _ => ()

/-- The statement without its places. A blank line states nothing. -/
def Statement.bare? : Statement π → Option (Statement Unit)
  | .blank => none
  | statement => some (statement.map fun _ => ())

def outline? (s : Text) : Option (List (Statement Unit)) :=
  (statements? s).map (List.filterMap Statement.bare?)

theorem KeyPath.map_map (f : π → ρ) (g : ρ → σ) (path : KeyPath π) :
    (path.map f).map g = path.map fun place => g (f place) := by
  simp [KeyPath.map, Key.map]

theorem Statement.bare?_map (g : π → ρ) (statement : Statement π) :
    (statement.map g).bare? = statement.bare? := by
  cases statement with
  | blank => rfl
  | openTable path place => simp [Statement.map, bare?, KeyPath.map_map]
  | openElement path place => simp [Statement.map, bare?, KeyPath.map_map]
  | assign a => simp [Statement.map, bare?, Assignment.map, KeyPath.map_map, Node.map_map]

/-- A repetition does not depend on the number of turns it may take, as long as there are enough. -/
theorem collectWithin_congr {α : Type} {turn : Text → Option (Turn α)}
    (ht : ∀ ⦃s t⦄, turn s = some t → t.more = true → t.rest.length < s.length) {n m : Nat} {s : Text}
    (hn : s.length < n) (hm : s.length < m) : collectWithin turn n s = collectWithin turn m s := by
  induction n generalizing m s with
  | zero => cases hn
  | succ n ih =>
    obtain ⟨m, rfl⟩ : ∃ k, m = k + 1 := ⟨m - 1, by omega⟩
    rw [collectWithin, collectWithin]
    cases hs : turn s with
    | none => rfl
    | some t =>
      dsimp only
      split
      · next hmore =>
        have hl := ht hs hmore
        rw [ih (m := m) (by omega) (by omega)]
      · rfl

theorem statement?_shorter {s rest : Text} {statement : Statement Extent} (hs : s ≠ [])
    (h : statement? s = some (statement, rest)) : rest.length < s.length := by
  have hk := (skipComment_suffix (skipBlanks s)).trans (skipBlanks_suffix s)
  obtain ⟨he, -⟩ | ⟨-, behind, hc, hr⟩ := statement?_cases h
  · unfold lineEnd? at he
    split at he
    · cases he
      exact List.length_pos_iff.mpr hs
    · refine Nat.lt_of_lt_of_le ?_ hk.length_le
      unfold lineBreak? at he
      split at he
      · next hb =>
        cases he
        simp [hb]
      · next hb =>
        cases he
        simp only [hb, List.length_cons]
        omega
      · cases he
  · have hl := (advances_content? hc).in_suffix (skipBlanks_suffix s)
    exact (hl.of_suffix (lineEnd?_suffix hr)).shorter

theorem statement?_suffix {s rest : Text} {statement : Statement Extent}
    (h : statement? s = some (statement, rest)) : rest <:+ s := by
  obtain ⟨he, -⟩ | ⟨-, behind, hc, hr⟩ := statement?_cases h
  · exact lineEnd?_suffix he
  · exact (lineEnd?_suffix hr).trans ((advances_content? hc).suffix.trans (skipBlanks_suffix s))

/-- The turn that reads one statement of a document. -/
def statementTurn : Text → Option (Turn (Statement Extent))
  | [] => some ⟨none, [], false⟩
  | s => (statement? s).map fun r => ⟨some r.1, r.2, true⟩

theorem statementTurn_of_ne_nil {s : Text} (hs : s ≠ []) :
    statementTurn s = (statement? s).map fun r => ⟨some r.1, r.2, true⟩ := by
  cases s with
  | nil => exact absurd rfl hs
  | cons c s => rfl

theorem statements?_eq (s : Text) : statements? s = (collect statementTurn s).map (·.1) := by
  unfold statements?
  dsimp only
  congr 2
  funext s
  cases s <;> rfl

theorem statementTurn_shorter {s : Text} {t : Turn (Statement Extent)}
    (ht : statementTurn s = some t) (hm : t.more = true) : t.rest.length < s.length := by
  by_cases hs : s = []
  · subst hs
    cases ht
    cases hm
  · rw [statementTurn_of_ne_nil hs] at ht
    obtain ⟨⟨statement, rest⟩, hr, rfl⟩ := Option.map_eq_some_iff.mp ht
    exact statement?_shorter hs hr

theorem statements?_of_ne_nil {s : Text} (hs : s ≠ []) :
    statements? s = (statement? s).bind fun r => (statements? r.2).map (r.1 :: ·) := by
  rw [statements?_eq, collect, collectWithin, statementTurn_of_ne_nil hs]
  cases hr : statement? s with
  | none => rfl
  | some r =>
    have hl := statement?_shorter hs hr
    have hc := collectWithin_congr (m := s.length) (fun _ _ => statementTurn_shorter)
      (Nat.lt_succ_self r.2.length) hl
    simp [statements?_eq, collect, hc, Function.comp_def]

theorem outline?_of_ne_nil {s : Text} (hs : s ≠ []) :
    outline? s = (statement? s).bind fun r =>
      (outline? r.2).map (r.1.bare?.toList ++ ·) := by
  rw [outline?, statements?_of_ne_nil hs, Option.map_bind]
  congr 1
  funext r
  rw [Function.comp_apply, Option.map_map, outline?, Option.map_map]
  congr 1
  funext statements
  cases hb : r.1.bare? <;> simp [hb]

theorem lineBreak?_terminator (e : LineEnding) (t : Text) :
    lineBreak? (e.terminator ++ t) = some t := by
  cases e <;> rfl

theorem IsLine.bare?_eq_none {statement : Statement Extent} (h : IsLine [] statement) :
    statement.bare? = none := by
  have hr := h.read
  rw [show statement? [] = some (.blank, []) from rfl] at hr
  cases hr
  rfl

theorem outline?_join (e : LineEnding) {lines : List Text} {statements : List (Statement Extent)}
    (h : List.Forall₂ IsLine lines statements) (behind : List Text) :
    outline? (e.join (lines ++ behind)) =
      (outline? (e.join behind)).map (statements.filterMap Statement.bare? ++ ·) := by
  induction h with
  | nil => simp
  | @cons line statement lines statements hl _ ih =>
    have hb : (statement :: statements).filterMap Statement.bare? =
        statement.bare?.toList ++ statements.filterMap Statement.bare? := by
      cases hs : statement.bare? <;> simp [hs]
    simp only [hb, List.append_assoc]
    rw [← Function.comp_def (statement.bare?.toList ++ ·), ← Option.map_map, ← ih, List.cons_append]
    by_cases hm : lines ++ behind = []
    · rw [hm]
      have hj : e.join [line] = line := by simp [LineEnding.join]
      have hn : outline? (e.join []) = some [] := rfl
      rw [hj, hn]
      by_cases hln : line = []
      · subst hln
        rw [hl.bare?_eq_none]
        rfl
      · rw [outline?_of_ne_nil hln, hl.read]
        rfl
    · have hj : e.join (line :: (lines ++ behind)) =
          line ++ (e.terminator ++ e.join (lines ++ behind)) := by
        rw [LineEnding.join, List.intercalate_cons_of_ne_nil hm, List.append_assoc]
        rfl
      have hne : line ++ (e.terminator ++ e.join (lines ++ behind)) ≠ [] := by
        cases e <;> simp [LineEnding.terminator]
      rw [hj, outline?_of_ne_nil hne, hl.statement?_append (lineBreak?_terminator e _)]
      simp only [Option.bind_some, Statement.bare?_map]

/-- What the line states, but for the places. -/
def stated? (line : Text) : Option (Statement Unit) := (statement? line).bind (·.1.bare?)

theorem exists_isLine_iff {line : Text} : (∃ s, IsLine line s) ↔
    (statement? line).map (·.2) = some [] ∧ line.getLast? ≠ some '\n' := by
  constructor
  · rintro ⟨s, h⟩
    exact ⟨by rw [h.read]; rfl, h.ended⟩
  · rintro ⟨h, he⟩
    obtain ⟨⟨s, rest⟩, hs, rfl⟩ := Option.map_eq_some_iff.mp h
    exact ⟨s, hs, he⟩

instance (line : Text) : Decidable (∃ s, IsLine line s) := decidable_of_iff' _ exists_isLine_iff

theorem outline?_lines (e : LineEnding) {lines : List Text} (h : ∀ line ∈ lines, ∃ s, IsLine line s)
    (behind : List Text) :
    outline? (e.join (lines ++ behind)) =
      (outline? (e.join behind)).map (lines.filterMap stated? ++ ·) := by
  have hs : ∃ statements, List.Forall₂ IsLine lines statements ∧
      statements.filterMap Statement.bare? = lines.filterMap stated? := by
    induction lines with
    | nil => exact ⟨[], .nil, rfl⟩
    | cons line lines ih =>
      obtain ⟨⟨s, hl⟩, h⟩ := List.forall_mem_cons.mp h
      obtain ⟨statements, hf, he⟩ := ih h
      have hst : stated? line = s.bare? := by rw [stated?, hl.read, Option.bind_some]
      exact ⟨s :: statements, .cons hl hf, by rw [List.filterMap_cons, List.filterMap_cons, he, hst]⟩
  obtain ⟨statements, hf, he⟩ := hs
  rw [outline?_join e hf, he]

/-- Behind a line comes the end of the text or a line break. -/
theorem join_cons (e : LineEnding) (line : Text) (lines : List Text) :
    ∃ u, (u = [] ∨ Breaks u) ∧ e.join (line :: lines) = line ++ u := by
  by_cases hl : lines = []
  · exact ⟨[], .inl rfl, by simp [LineEnding.join, hl]⟩
  · refine ⟨e.terminator ++ e.join lines, .inr ?_, ?_⟩
    · rw [Breaks, lineBreak?_terminator]
      rfl
    · rw [LineEnding.join, List.intercalate_cons_of_ne_nil hl, List.append_assoc]
      rfl

theorem IsLine.head?_ne {line : Text} {s : Statement Extent} (h : IsLine line s) :
    line.head? ≠ some '\ufeff' := by
  intro hm
  obtain ⟨rest, rfl⟩ := List.head?_eq_some_iff.mp hm
  have hr : statement? ('\ufeff' :: rest) = none := rfl
  rw [h.read] at hr
  cases hr

/-- A byte order mark is not part of the first line. -/
theorem skipByteOrderMark_join {mark : Text} (hm : mark = [] ∨ mark = ['\ufeff']) (e : LineEnding)
    {line : Text} (hl : line.head? ≠ some '\ufeff') (lines : List Text) :
    skipByteOrderMark (mark ++ e.join (line :: lines)) = e.join (line :: lines) := by
  rcases hm with rfl | rfl
  · rw [List.nil_append]
    unfold skipByteOrderMark
    split
    · next rest hr =>
      obtain ⟨u, hu, hj⟩ := join_cons e line lines
      rw [hj] at hr
      cases line with
      | nil =>
        rw [List.nil_append] at hr
        subst hr
        rcases hu with hu | hu
        · cases hu
        · cases hu
      | cons c line =>
        obtain ⟨rfl, -⟩ := List.cons.inj hr
        exact absurd rfl hl
    · rfl
  · rfl

end Toml

end SourceGen
