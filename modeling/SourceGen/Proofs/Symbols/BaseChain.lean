import Mathlib.Data.List.Chain
import SourceGen.Proofs.Symbols.Search
import SourceGen.Symbols.BaseTypes

/-! # Base chains

A walk goes from base to base until there is none, or until it comes to a type that it has met. So
it gives out the longest chain of bases without repeats, whether the chain ends or runs into a
cycle. What it has met decides where it stops, and what it asks is the chain itself. -/
namespace SourceGen

variable {α : Type} {g : TypeGraph α} {x y : α}

namespace TypeGraph

/-- Bases of `x`, the nearest first, each the base of the one before. -/
def BaseChain (g : TypeGraph α) (x : α) (ys : List α) : Prop :=
  (x :: ys).IsChain fun y z => g.base y = some z

/-- The bases of `x` lead to a type that has none, or back to a type on the way. -/
def Closes (g : TypeGraph α) (x : α) : Prop :=
  ∃ ys, g.BaseChain x ys ∧
    (g.base ((x :: ys).getLast (List.cons_ne_nil x ys)) = none ∨ ¬(x :: ys).Nodup)

theorem baseChain_nil : g.BaseChain x [] := List.isChain_singleton x

theorem baseChain_cons {ys : List α} :
    g.BaseChain x (y :: ys) ↔ g.base x = some y ∧ g.BaseChain y ys :=
  List.isChain_cons_cons

end TypeGraph

namespace BaseTypes

/-- The types that a walk has still to give out. -/
inductive Yields (g : TypeGraph α) : BaseTypes α → List α → Prop where
  | ended {vs} : Yields g ⟨none, vs⟩ []
  | met {y vs} : y ∈ vs → Yields g ⟨some y, vs⟩ []
  | given {y vs ys} : y ∉ vs → Yields g ⟨g.base y, y :: vs⟩ ys → Yields g ⟨some y, vs⟩ (y :: ys)

namespace Yields

variable {walk : BaseTypes α} {bs : List α}

/-- A walk that has come to `y`, the types met so far behind it, gives out finitely many types if
the bases of `y` end or come back. -/
theorem exists_of_chain {ys vs : List α} (hc : g.BaseChain y ys) (hv : vs.Nodup)
    (h : g.base ((y :: ys).getLast (List.cons_ne_nil y ys)) = none ∨ ¬(ys.reverse ++ vs).Nodup) :
    ∃ bs, Yields g ⟨g.base y, vs⟩ bs := by
  classical
  induction ys generalizing y vs with
  | nil =>
    rcases h with h | h
    · have hb : g.base y = none := h
      rw [hb]
      exact ⟨[], .ended⟩
    · exact absurd hv h
  | cons z ys ih =>
    obtain ⟨hz, hc⟩ := TypeGraph.baseChain_cons.mp hc
    rw [hz]
    by_cases hm : z ∈ vs
    · exact ⟨[], .met hm⟩
    · have h' : g.base ((z :: ys).getLast (List.cons_ne_nil z ys)) = none ∨
          ¬(ys.reverse ++ z :: vs).Nodup := by
        simpa using h
      obtain ⟨bs, hb⟩ := ih hc (List.nodup_cons.mpr ⟨hm, hv⟩) h'
      exact ⟨z :: bs, .given hm hb⟩

theorem chain (h : Yields g walk bs) (hw : walk.current = g.base y) : g.BaseChain y bs := by
  induction h generalizing y with
  | ended | met => exact TypeGraph.baseChain_nil
  | given _ _ ih => exact TypeGraph.baseChain_cons.mpr ⟨hw.symm, ih rfl⟩

/-- What is given out has not been met, and is given out once. -/
theorem nodup_append (h : Yields g walk bs) (hv : walk.visited.Nodup) :
    (bs.reverse ++ walk.visited).Nodup := by
  induction h with
  | ended | met => exact hv
  | given hm _ ih => simpa using ih (List.nodup_cons.mpr ⟨hm, hv⟩)

/-- A chain without repeats and without types met before is no longer. -/
theorem length_le (h : Yields g walk bs) (hw : walk.current = g.base y) {ys : List α}
    (hc : g.BaseChain y ys) (hn : (ys.reverse ++ walk.visited).Nodup) : ys.length ≤ bs.length := by
  induction h generalizing y ys with
  | ended =>
    cases ys with
    | nil => exact Nat.le_refl 0
    | cons z ys =>
      have hz := (TypeGraph.baseChain_cons.mp hc).1
      rw [← hw] at hz
      cases hz
  | met hm =>
    cases ys with
    | nil => exact Nat.le_refl 0
    | cons z ys =>
      obtain ⟨hz, -⟩ := TypeGraph.baseChain_cons.mp hc
      obtain rfl := Option.some.inj (hw.trans hz)
      have hd := List.disjoint_of_nodup_append hn
      exact absurd hm (hd (by simp))
  | given hm _ ih =>
    cases ys with
    | nil => exact Nat.zero_le _
    | cons z ys =>
      obtain ⟨hz, hc⟩ := TypeGraph.baseChain_cons.mp hc
      obtain rfl := Option.some.inj (hw.trans hz)
      exact Nat.succ_le_succ (ih rfl hc (by simpa using hn))

variable [DecidableEq α]

/-- Collecting takes one call for each type, and one more that finds nothing. -/
theorem collectWithin_eq (h : Yields g walk bs) (n : Nat) :
    walk.collectWithin g n = if bs.length + 1 ≤ n then some ⟨bs, bs.map .base⟩ else none := by
  induction h generalizing n with
  | ended => cases n <;> simp [collectWithin, next]
  | met hm => cases n <;> simp [collectWithin, next, hm]
  | given hm _ ih =>
    cases n with
    | zero => simp [collectWithin]
    | succ n =>
      rw [collectWithin]
      simp only [next, hm, if_false, ih]
      split <;> simp_all [Asked.map, Asked.after]

theorem advance_ended (vs : List α) (n : Nat) :
    advance g n ⟨none, vs⟩ = ⟨(List.replicate n none, ⟨none, vs⟩), []⟩ := by
  induction n with
  | zero => rfl
  | succ n ih => simp [advance, next, Asked.andThen, Asked.map, ih, List.replicate_succ]

/-- The first `n` calls give out the first `n` types, each with its own question, and then
nothing. -/
theorem advance_eq (h : Yields g walk bs) (n : Nat) :
    (walk.advance g n).answer.1 = (bs.take n).map some ++ List.replicate (n - bs.length) none ∧
      (walk.advance g n).questions = (bs.take n).map .base := by
  induction h generalizing n with
  | ended => simp [advance_ended]
  | met hm =>
    cases n with
    | zero => exact ⟨rfl, rfl⟩
    | succ n => simp [advance, next, hm, Asked.andThen, Asked.map, advance_ended,
        List.replicate_succ]
  | given hm _ ih =>
    cases n with
    | zero => exact ⟨by simp [advance], rfl⟩
    | succ n =>
      obtain ⟨ha, hq⟩ := ih n
      simp [advance, next, hm, Asked.andThen, Asked.map, ha, hq]

end Yields

end BaseTypes

namespace TypeGraph

variable [DecidableEq α]

/-- The base types of `x` are the longest chain of bases in which no type, `x` included, occurs
twice. The host is asked for the base of `x` when the walk begins, and by the call that gives out a
type for the base of that type. Once there is nothing more to give out, calls ask nothing. -/
theorem baseTypes_eq_longest_chain (h : g.Closes x) :
    ∃ bs, g.BaseChain x bs ∧ (x :: bs).Nodup ∧
      (∀ ys, g.BaseChain x ys → (x :: ys).Nodup → ys.length ≤ bs.length) ∧
      Settles (fun n => g.baseTypesWithin n x) ⟨bs, (x :: bs).map .base⟩ ∧
      (BaseTypes.start g x).questions = [.base x] ∧
      ∀ n, ((BaseTypes.start g x).answer.advance g n).answer.1 =
          (bs.take n).map some ++ List.replicate (n - bs.length) none ∧
        ((BaseTypes.start g x).answer.advance g n).questions = (bs.take n).map .base := by
  have reversed : ∀ ys : List α, (ys.reverse ++ [x]).Nodup ↔ (x :: ys).Nodup := by
    intro ys
    rw [← List.reverse_cons, List.nodup_reverse]
  obtain ⟨ys, hc, he⟩ := h
  rw [← reversed] at he
  obtain ⟨bs, hb⟩ := BaseTypes.Yields.exists_of_chain hc (List.nodup_singleton x) he
  refine ⟨bs, hb.chain rfl, ?_, ?_, ?_, rfl, hb.advance_eq⟩
  · exact (reversed bs).mp (hb.nodup_append (List.nodup_singleton x))
  · intro ys hy hn
    exact hb.length_le rfl hy ((reversed ys).mpr hn)
  · refine ⟨bs.length + 1, ?_⟩
    intro n
    have hn := hb.collectWithin_eq n
    simp only [baseTypesWithin, BaseTypes.start, hn]
    split <;> rfl

/-- A chain of types that runs into a ring behind its start. -/
def hook : TypeGraph Nat where
  base x := if x < 3 then some (x + 1) else some 1

theorem baseTypes_eq_longest_chain_hook :
    hook.Closes 0 ∧
      Settles (fun n => hook.baseTypesWithin n 0)
        ⟨[1, 2, 3], [.base 0, .base 1, .base 2, .base 3]⟩ := by
  have hc : hook.Closes 0 := by
    refine ⟨[1, 2, 3, 1], ?_, .inr (by decide)⟩
    simp [BaseChain, hook]
  obtain ⟨bs, -, -, -, hs, -⟩ := baseTypes_eq_longest_chain hc
  have hr : hook.baseTypesWithin 4 0 = some ⟨[1, 2, 3], [.base 0, .base 1, .base 2, .base 3]⟩ := by
    decide
  exact ⟨hc, hs.eq_of_eq_some hr ▸ hs⟩

end TypeGraph

end SourceGen
