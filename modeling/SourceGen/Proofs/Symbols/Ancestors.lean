import SourceGen.Proofs.Symbols.BaseChain

/-! # Ancestors

One type inherits from another if going from base to base leads to it, any number of times. A walk
looks only as far as the first type that it meets again: from there the bases repeat, so they lead
to nothing that the walk has not given out. -/
namespace SourceGen

variable {α : Type} {g : TypeGraph α} {x y z : α}

namespace TypeGraph

/-- The type that is a number of bases above `x`. -/
def ancestor? (g : TypeGraph α) : Nat → α → Option α
  | 0, x => some x
  | n + 1, x => (g.base x).bind (g.ancestor? n)

def Inherits (g : TypeGraph α) (x y : α) : Prop := ∃ n, g.ancestor? n x = some y

theorem Inherits.refl (g : TypeGraph α) (x : α) : g.Inherits x x := ⟨0, rfl⟩

theorem Inherits.of_base (hb : g.base x = some y) (h : g.Inherits y z) : g.Inherits x z := by
  obtain ⟨n, hn⟩ := h
  exact ⟨n + 1, by simpa [ancestor?, hb] using hn⟩

/-- What is closed under bases holds all ancestors of its members. -/
theorem Inherits.mem_of_closed {types : Set α} (h : g.Inherits x z) (hx : x ∈ types)
    (hc : ∀ y ∈ types, ∀ w, g.base y = some w → w ∈ types) : z ∈ types := by
  obtain ⟨n, hn⟩ := h
  induction n generalizing x with
  | zero =>
    obtain rfl := Option.some.inj hn
    exact hx
  | succ n ih =>
    obtain ⟨y, hy, hn⟩ := Option.bind_eq_some_iff.mp hn
    exact ih (hc x hx y hy) hn

theorem BaseChain.inherits {ys : List α} (h : g.BaseChain x ys) (hz : z ∈ x :: ys) :
    g.Inherits x z := by
  induction ys generalizing x with
  | nil =>
    obtain rfl := List.mem_singleton.mp hz
    exact .refl g z
  | cons y ys ih =>
    obtain ⟨hy, h⟩ := baseChain_cons.mp h
    rcases List.mem_cons.mp hz with rfl | hz
    · exact .refl g z
    · exact .of_base hy (ih h hz)

/-- Bases can be followed any number of times, unless they end. -/
theorem exists_baseChain_length (g : TypeGraph α) (x : α) (n : Nat) :
    ∃ ys, g.BaseChain x ys ∧
      (g.base ((x :: ys).getLast (List.cons_ne_nil x ys)) = none ∨ ys.length = n) := by
  induction n generalizing x with
  | zero => exact ⟨[], baseChain_nil, .inr rfl⟩
  | succ n ih =>
    cases hb : g.base x with
    | none => exact ⟨[], baseChain_nil, .inl hb⟩
    | some y =>
      obtain ⟨ys, hc, he⟩ := ih y
      refine ⟨y :: ys, baseChain_cons.mpr ⟨hb, hc⟩, ?_⟩
      simpa using he

theorem closes_of_finite (h : {y | g.Inherits x y}.Finite) : g.Closes x := by
  classical
  obtain ⟨ys, hc, he⟩ := g.exists_baseChain_length x h.toFinset.card
  refine ⟨ys, hc, he.imp_right fun hl hn => ?_⟩
  -- a chain of so many types repeats one of them
  have hs : (x :: ys).toFinset ⊆ h.toFinset := by
    intro z hz
    exact h.mem_toFinset.mpr (hc.inherits (List.mem_toFinset.mp hz))
  have hcard := Finset.card_le_card hs
  rw [List.toFinset_card_of_nodup hn, List.length_cons] at hcard
  omega

end TypeGraph

namespace BaseTypes.Yields

variable {walk : BaseTypes α} {bs : List α}

/-- The base of a type that has been given out is given out as well, or was met before. -/
theorem base_mem (h : Yields g walk bs) (hw : walk.current = g.base y) (hz : z ∈ y :: bs) {w : α}
    (hb : g.base z = some w) : w ∈ bs ∨ w ∈ walk.visited := by
  induction h generalizing y with
  | ended =>
    obtain rfl := List.mem_singleton.mp hz
    rw [← hw] at hb
    cases hb
  | met hm =>
    obtain rfl := List.mem_singleton.mp hz
    obtain rfl := Option.some.inj (hw.trans hb)
    exact .inr hm
  | given _ _ ih =>
    rcases List.mem_cons.mp hz with rfl | hz
    · obtain rfl := Option.some.inj (hw.trans hb)
      exact .inl List.mem_cons_self
    · rcases ih rfl hz with hw | hw
      · exact .inl (List.mem_cons_of_mem _ hw)
      · rcases List.mem_cons.mp hw with rfl | hw
        · exact .inl List.mem_cons_self
        · exact .inr hw

/-- Looking for a type asks for the bases of all types up to it. -/
theorem containsWithin_eq [DecidableEq α] (h : Yields g walk bs) (target : α) (n : Nat) :
    walk.containsWithin g target n =
      if bs.idxOf target + 1 ≤ n then
        some ⟨decide (target ∈ bs), (bs.take (bs.idxOf target + 1)).map .base⟩
      else none := by
  induction h generalizing n with
  | ended => cases n <;> simp [containsWithin, next]
  | met hm => cases n <;> simp [containsWithin, next, hm]
  | @given y vs ys hm _ ih =>
    cases n with
    | zero => simp [containsWithin]
    | succ n =>
      rw [containsWithin]
      simp only [next, hm, if_false, ih]
      by_cases hy : y = target
      · simp [hy]
      · have hi : (y :: ys).idxOf target = ys.idxOf target + 1 := List.idxOf_cons_ne ys hy
        have ht : target ≠ y := Ne.symm hy
        simp only [hy, hi, if_false]
        split <;> simp_all [Asked.after]

theorem exists_of_closes (h : g.Closes x) : ∃ bs, Yields g ⟨g.base x, [x]⟩ bs := by
  obtain ⟨ys, hc, he⟩ := h
  rw [← List.nodup_reverse, List.reverse_cons] at he
  exact exists_of_chain hc (List.nodup_singleton x) he

theorem nodup_cons (h : Yields g ⟨g.base x, [x]⟩ bs) : (x :: bs).Nodup := by
  rw [← List.nodup_reverse, List.reverse_cons]
  exact h.nodup_append (List.nodup_singleton x)

theorem length_le_of_nodup_cons (h : Yields g ⟨g.base x, [x]⟩ bs) {ys : List α}
    (hc : g.BaseChain x ys) (hn : (x :: ys).Nodup) : ys.length ≤ bs.length := by
  rw [← List.nodup_reverse, List.reverse_cons] at hn
  exact h.length_le rfl hc hn

theorem mem_cons_iff_inherits (h : Yields g ⟨g.base x, [x]⟩ bs) : z ∈ x :: bs ↔ g.Inherits x z := by
  constructor
  · exact (h.chain rfl).inherits
  · intro hz
    have hx : x ∈ {y | y ∈ x :: bs} := List.mem_cons_self
    refine hz.mem_of_closed hx ?_
    intro y hy w hb
    rcases h.base_mem rfl hy hb with hw | hw
    · exact List.mem_cons_of_mem x hw
    · exact List.mem_singleton.mp hw ▸ List.mem_cons_self

theorem inheritsWithin_eq [DecidableEq α] (h : Yields g ⟨g.base x, [x]⟩ bs) (hxy : x ≠ y) (n : Nat) :
    g.inheritsWithin n x y =
      if bs.idxOf y + 1 ≤ n then
        some ⟨decide (y ∈ bs), (x :: bs.take (bs.idxOf y + 1)).map .base⟩
      else none := by
  have hn := h.containsWithin_eq y n
  simp only [TypeGraph.inheritsWithin, start, hxy, if_false, hn]
  split <;> rfl

end BaseTypes.Yields

namespace TypeGraph

variable [DecidableEq α]

/-- If finitely many types are above `a`, the query finds out whether `b` is `a` or above it. The
host is asked for the bases of `a` and of the types on its chain, the longest one without repeats,
as far as `b` or else to its end. For `a` itself nothing is asked, and interfaces never are. -/
theorem inherits_asks_along_chain {a : α} (h : {x | g.Inherits a x}.Finite) (b : α) :
    ∃ bs r, g.BaseChain a bs ∧ (a :: bs).Nodup ∧
      (∀ ys, g.BaseChain a ys → (a :: ys).Nodup → ys.length ≤ bs.length) ∧
      Settles (fun n => g.inheritsWithin n a b) r ∧
      (r.answer = true ↔ g.Inherits a b) ∧
      r.questions = (if a = b then [] else (a :: bs.take (bs.idxOf b + 1)).map .base) ∧
      r.questions.Nodup ∧ ∀ x, .interfaces x ∉ r.questions := by
  obtain ⟨bs, hb⟩ := BaseTypes.Yields.exists_of_closes (closes_of_finite h)
  have hn : (a :: bs).Nodup := hb.nodup_cons
  have hr : b ∈ a :: bs ↔ g.Inherits a b := hb.mem_cons_iff_inherits
  have longest : ∀ ys, g.BaseChain a ys → (a :: ys).Nodup → ys.length ≤ bs.length :=
    fun _ hc hn => hb.length_le_of_nodup_cons hc hn
  by_cases hab : a = b
  · refine ⟨bs, ⟨true, []⟩, hb.chain rfl, hn, longest, ⟨0, ?_⟩, ?_, by simp [hab], .nil, by simp⟩
    · intro n
      simp [inheritsWithin, hab]
    · simpa [hab] using hr
  · refine ⟨bs, _, hb.chain rfl, hn, longest, ⟨_, hb.inheritsWithin_eq hab⟩, ?_, ?_, ?_, ?_⟩
    · have hba : b ≠ a := Ne.symm hab
      simpa [hba] using hr
    · rw [if_neg hab]
    · have hs : (a :: bs.take (bs.idxOf b + 1)).Sublist (a :: bs) :=
        (List.take_sublist _ bs).cons_cons a
      exact (hn.sublist hs).map fun _ _ => Question.base.inj
    · intro x hx
      obtain ⟨y, -, hy⟩ := List.mem_map.mp hx
      cases hy

theorem finite_inherits_hook : {x | hook.Inherits 0 x}.Finite := by
  refine (Finset.finite_toSet {0, 1, 2, 3}).subset fun x hx => ?_
  refine hx.mem_of_closed (by simp) ?_
  decide

theorem inherits_asks_along_chain_hook :
    {x | hook.Inherits 0 x}.Finite ∧ hook.Inherits 0 2 ∧ ¬hook.Inherits 0 7 ∧
      Settles (fun n => hook.inheritsWithin n 0 2) ⟨true, [.base 0, .base 1, .base 2]⟩ ∧
      Settles (fun n => hook.inheritsWithin n 0 7)
        ⟨false, [.base 0, .base 1, .base 2, .base 3]⟩ := by
  obtain ⟨-, r, -, -, -, hs, hr, -⟩ := inherits_asks_along_chain finite_inherits_hook 2
  obtain ⟨-, q, -, -, -, ht, hq, -⟩ := inherits_asks_along_chain finite_inherits_hook 7
  have found : hook.inheritsWithin 3 0 2 = some ⟨true, [.base 0, .base 1, .base 2]⟩ := by decide
  have missed : hook.inheritsWithin 4 0 7 =
      some ⟨false, [.base 0, .base 1, .base 2, .base 3]⟩ := by decide
  obtain rfl := hs.eq_of_eq_some found
  obtain rfl := ht.eq_of_eq_some missed
  exact ⟨finite_inherits_hook, hr.mp rfl, by simpa using hq, hs, ht⟩

end TypeGraph

end SourceGen
