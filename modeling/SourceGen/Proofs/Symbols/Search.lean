import Mathlib.Algebra.BigOperators.Group.Finset.Basic
import Mathlib.Data.Set.Finite.Basic
import Mathlib.Logic.Relation
import SourceGen.Symbols.TypeGraph

/-! # The search for a type

A search ends on every graph in which finitely many types can be reached, cyclic or not, and
its answer is reachability. What is left to do shrinks by one in every step: a type on the
stack counts once, a type not yet expanded counts its parents. -/
namespace SourceGen

variable {α β : Type}

/-- Too few steps give no result, and any number that is enough gives `r`. -/
def Settles (f : Nat → Option β) (r : β) : Prop :=
  ∃ bound, ∀ n, f n = if bound ≤ n then some r else none

theorem Settles.exists_eq_some {f : Nat → Option β} {r : β} (h : Settles f r) :
    ∃ n, f n = some r := by
  obtain ⟨bound, hb⟩ := h
  exact ⟨bound, by simp [hb]⟩

theorem Settles.eq_of_eq_some {f : Nat → Option β} {r q : β} (h : Settles f r) {n : Nat}
    (hq : f n = some q) : r = q := by
  obtain ⟨bound, hb⟩ := h
  have hn := hb n
  rw [hq] at hn
  split at hn
  · exact (Option.some.inj hn).symm
  · cases hn

theorem settles_of_eq_some {f : Nat → Option β} {r : β}
    (hf : ∀ {n m r}, n ≤ m → f n = some r → f m = some r) {n : Nat} (h : f n = some r) :
    Settles f r := by
  have he : ∃ n, (f n).isSome := ⟨n, by simp [h]⟩
  obtain ⟨q, hq⟩ := Option.isSome_iff_exists.mp (Nat.find_spec he)
  have hn : Nat.find he ≤ n := Nat.find_min' he (by simp [h])
  have hqr : q = r := Option.some.inj ((hf hn hq).symm.trans h)
  refine ⟨Nat.find he, fun m => ?_⟩
  split_ifs with hm
  · exact hqr ▸ hf hm hq
  · simpa using Nat.find_min he (Nat.lt_of_not_le hm)

namespace TypeGraph

def Parent (g : TypeGraph α) (x y : α) : Prop := g.base x = some y ∨ y ∈ g.interfaces x

def Reaches (g : TypeGraph α) : α → α → Prop := Relation.ReflTransGen g.Parent

theorem mem_parents_iff {g : TypeGraph α} {x y : α} : y ∈ g.parents x ↔ g.Parent x y := by
  simp [parents, Parent]

/-- A finite set that holds the start and all parents of its members holds all there is. -/
theorem finite_reaches {g : TypeGraph α} {a : α} (types : Finset α) (ha : a ∈ types)
    (hp : ∀ x ∈ types, ∀ y ∈ g.parents x, y ∈ types) : {x | g.Reaches a x}.Finite := by
  refine types.finite_toSet.subset fun x hx => ?_
  induction hx with
  | refl => exact ha
  | tail _ hy ih => exact hp _ ih _ (mem_parents_iff.mpr hy)

end TypeGraph

namespace Search

variable {g : TypeGraph α} {a target : α} {s s' : Search α}

/-- What holds of a search for `target` from `a`. Each parent of an expanded type is expanded too
or still to be looked at. -/
structure Invariant (g : TypeGraph α) (a target : α) (s : Search α) : Prop where
  origin : ∀ x ∈ s.pending, g.Reaches a x
  closed : ∀ x ∈ s.visited, ∀ y, g.Parent x y → y ∈ s.visited ∨ y ∈ s.pending
  start : a ∈ s.visited ∨ a ∈ s.pending
  missed : target ∉ s.visited
  nodup : s.visited.Nodup
  asked : s.questions = s.visited.reverse.flatMap g.expansionQuestions

theorem initial_invariant : Invariant g a target { pending := [a] } where
  origin x hx := by
    rw [List.mem_singleton.mp hx]
    exact .refl
  closed x hx := absurd hx List.not_mem_nil
  start := .inr List.mem_cons_self
  missed := List.not_mem_nil
  nodup := .nil
  asked := rfl

theorem Invariant.skip {x : α} {rest : List α} (h : Invariant g a target s)
    (hp : s.pending = x :: rest) (hv : x ∈ s.visited) :
    Invariant g a target { s with pending := rest } := by
  have keep : ∀ y, y ∈ s.visited ∨ y ∈ s.pending → y ∈ s.visited ∨ y ∈ rest := by
    intro y hy
    rw [hp, List.mem_cons] at hy
    rcases hy with hy | rfl | hy
    · exact .inl hy
    · exact .inl hv
    · exact .inr hy
  constructor
  · intro y hy
    exact h.origin y (hp ▸ List.mem_cons_of_mem x hy)
  · intro z hz y hy
    exact keep y (h.closed z hz y hy)
  · exact keep a h.start
  · exact h.missed
  · exact h.nodup
  · exact h.asked

theorem Invariant.expand {x : α} {rest : List α} (h : Invariant g a target s)
    (hp : s.pending = x :: rest) (hx : x ≠ target) (hv : x ∉ s.visited) :
    Invariant g a target ⟨g.parents x ++ rest, x :: s.visited,
      s.questions ++ g.expansionQuestions x⟩ := by
  have hr : g.Reaches a x := h.origin x (hp ▸ List.mem_cons_self)
  have keep : ∀ y, y ∈ s.visited ∨ y ∈ s.pending →
      y ∈ x :: s.visited ∨ y ∈ g.parents x ++ rest := by
    intro y hy
    rw [hp, List.mem_cons] at hy
    rcases hy with hy | rfl | hy
    · exact .inl (List.mem_cons_of_mem x hy)
    · exact .inl List.mem_cons_self
    · exact .inr (List.mem_append_right _ hy)
  constructor
  · intro y hy
    rcases List.mem_append.mp hy with hy | hy
    · exact hr.tail (TypeGraph.mem_parents_iff.mp hy)
    · exact h.origin y (hp ▸ List.mem_cons_of_mem x hy)
  · intro z hz y hy
    rcases List.mem_cons.mp hz with rfl | hz
    · exact .inr (List.mem_append_left rest (TypeGraph.mem_parents_iff.mpr hy))
    · exact keep y (h.closed z hz y hy)
  · exact keep a h.start
  · simp [hx.symm, h.missed]
  · exact List.nodup_cons.mpr ⟨hv, h.nodup⟩
  · simp [h.asked]

theorem Invariant.visited_of_reaches (h : Invariant g a target s) (hp : s.pending = []) {y : α}
    (hy : g.Reaches a y) : y ∈ s.visited := by
  induction hy with
  | refl => simpa [hp] using h.start
  | tail _ hz ih => simpa [hp] using h.closed _ ih _ hz

variable [DecidableEq α]

theorem step_eq_inl {b : Bool} (h : s.step g target = .inl b) :
    b = false ∧ s.pending = [] ∨ b = true ∧ target ∈ s.pending := by
  unfold step at h
  split at h
  · next hp => exact .inl ⟨(Sum.inl.inj h).symm, hp⟩
  · next x rest hp =>
    split_ifs at h with hx hv
    refine .inr ⟨(Sum.inl.inj h).symm, ?_⟩
    simp [hp, hx]

/-- A step that goes on takes a type other than the target from the stack, and expands it unless
that has been done. -/
theorem step_eq_inr (h : s.step g target = .inr s') :
    ∃ x rest, s.pending = x :: rest ∧ x ≠ target ∧
      (x ∈ s.visited ∧ s' = { s with pending := rest } ∨
        x ∉ s.visited ∧ s' = ⟨g.parents x ++ rest, x :: s.visited,
          s.questions ++ g.expansionQuestions x⟩) := by
  unfold step at h
  split at h
  · cases h
  · next x rest hp =>
    split_ifs at h with hx hv
    · exact ⟨x, rest, hp, hx, .inl ⟨hv, (Sum.inr.inj h).symm⟩⟩
    · exact ⟨x, rest, hp, hx, .inr ⟨hv, (Sum.inr.inj h).symm⟩⟩

theorem step_preserves_invariant (h : Invariant g a target s)
    (hs : s.step g target = .inr s') : Invariant g a target s' := by
  obtain ⟨x, rest, hp, hx, ⟨hv, rfl⟩ | ⟨hv, rfl⟩⟩ := step_eq_inr hs
  · exact h.skip hp hv
  · exact h.expand hp hx hv

theorem Invariant.answer_iff (h : Invariant g a target s) {b : Bool}
    (hb : s.step g target = .inl b) : b = true ↔ g.Reaches a target := by
  rcases step_eq_inl hb with ⟨rfl, hp⟩ | ⟨rfl, ht⟩
  · simpa using fun hr => h.missed (h.visited_of_reaches hp hr)
  · simpa using h.origin target ht

/-- The types to look at, now or after the expansion of those not yet expanded. -/
def work (g : TypeGraph α) (types : Finset α) (s : Search α) : Nat :=
  s.pending.length + ∑ x ∈ types \ s.visited.toFinset, (g.parents x).length

theorem work_step {types : Finset α} (ht : ∀ x ∈ s.pending, x ∈ types)
    (hs : s.step g target = .inr s') : s'.work g types + 1 = s.work g types := by
  obtain ⟨x, rest, hp, -, ⟨-, rfl⟩ | ⟨hv, rfl⟩⟩ := step_eq_inr hs
  · simp only [work, hp, List.length_cons]
    omega
  · have hx : x ∈ types \ s.visited.toFinset := by simp [ht x (by simp [hp]), hv]
    have hsum := Finset.add_sum_erase _ (fun x => (g.parents x).length) hx
    simp only [work, hp, List.toFinset_cons, Finset.sdiff_insert, List.length_append,
      List.length_cons]
    omega

theorem runWithin_of_le {n m : Nat} (hnm : n ≤ m) {r : Asked (Question α) Bool}
    (h : runWithin g target n s = some r) : runWithin g target m s = some r := by
  induction n generalizing m s with
  | zero => cases h
  | succ n ih =>
    obtain ⟨m, rfl⟩ : ∃ k, m = k + 1 := ⟨m - 1, by omega⟩
    rw [runWithin] at h ⊢
    cases hs : s.step g target with
    | inl b => simpa [hs] using h
    | inr s' =>
      simp only [hs] at h
      exact ih (by omega) h

/-- More steps than there is work bring a search to its end. -/
theorem exists_end {types : Finset α} (ht : ∀ x, g.Reaches a x → x ∈ types) {n : Nat}
    (h : Invariant g a target s) (hn : s.work g types < n) :
    ∃ e b, Invariant g a target e ∧ e.step g target = .inl b ∧
      runWithin g target n s = some ⟨b, e.questions⟩ := by
  induction n generalizing s with
  | zero => omega
  | succ n ih =>
    cases hs : s.step g target with
    | inl b => exact ⟨s, b, h, hs, by simp [runWithin, hs]⟩
    | inr s' =>
      have hw := work_step (fun x hx => ht x (h.origin x hx)) hs
      obtain ⟨e, b, he, hb, hr⟩ := ih (step_preserves_invariant h hs) (by omega)
      exact ⟨e, b, he, hb, by simpa [runWithin, hs] using hr⟩

end Search

namespace TypeGraph

variable [DecidableEq α] {g : TypeGraph α} {a : α}

theorem exists_search_end (h : {x | g.Reaches a x}.Finite) (target : α) :
    ∃ e b, Search.Invariant g a target e ∧ e.step g target = .inl b ∧
      Settles (fun n => g.implementsWithin n a target) ⟨b, e.questions⟩ := by
  have ht : ∀ x, g.Reaches a x → x ∈ h.toFinset := fun x hx => h.mem_toFinset.mpr hx
  have hi : Search.Invariant g a target { pending := [a] } := Search.initial_invariant
  obtain ⟨e, b, he, hb, hr⟩ := Search.exists_end ht hi (Nat.lt_succ_self _)
  exact ⟨e, b, he, hb, settles_of_eq_some (fun hnm hr => Search.runWithin_of_le hnm hr) hr⟩

/-- The search ends, and finds the target exactly if a path leads to it. -/
theorem implements_iff_reaches (h : {x | g.Reaches a x}.Finite) (target : α) :
    ∃ r, Settles (fun n => g.implementsWithin n a target) r ∧
      (r.answer = true ↔ g.Reaches a target) := by
  obtain ⟨e, b, he, hb, hs⟩ := exists_search_end h target
  exact ⟨_, hs, he.answer_iff hb⟩

/-- Three types in a ring of bases, one of which has interfaces, repeated and cyclic. -/
def ring : TypeGraph Nat where
  base x := if x < 3 then some ((x + 1) % 3) else none
  interfaces? := some fun x => if x = 1 then [4, 0, 4] else []

theorem finite_reaches_ring : {x | ring.Reaches 0 x}.Finite :=
  finite_reaches {0, 1, 2, 4} (by decide) (by decide)

theorem implements_iff_reaches_ring :
    {x | ring.Reaches 0 x}.Finite ∧ ring.Reaches 0 4 ∧
      ∃ r, Settles (fun n => ring.implementsWithin n 0 4) r ∧ r.answer = true := by
  have base : ring.Parent 0 1 := .inl rfl
  have interface : ring.Parent 1 4 := .inr (by decide)
  have path : ring.Reaches 0 4 := .tail (.single base) interface
  obtain ⟨r, hs, hr⟩ := implements_iff_reaches finite_reaches_ring 4
  exact ⟨finite_reaches_ring, path, r, hs, hr.mpr path⟩

end TypeGraph

end SourceGen
