import Mathlib.Algebra.BigOperators.Group.List.Basic
import Mathlib.Algebra.Ring.Int.Defs
import Mathlib.Order.Bounds.Basic
import SourceGen.Proofs.Builder.Depth

/-! # Steps of depth

Calls that move the depth by one level add up as long as the depth stays above zero. At zero it
stops, and what was asked for below is forgotten. So the depth does not follow from the number of
calls of either kind: it is the sum of the last calls, from the place where that sum is largest. -/
namespace SourceGen

/-- A call that moves the depth by one level. -/
inductive DepthStep where
  | deeper
  | shallower
  deriving DecidableEq

namespace DepthStep

def action : DepthStep → Action
  | deeper => .indent
  | shallower => .unindent

def shift : DepthStep → Int
  | deeper => 1
  | shallower => -1

/-- What the calls add up to where nothing stops them. -/
def total (steps : List DepthStep) : Int := (steps.map shift).sum

/-- The depth after a call. -/
def depthFrom (depth : Nat) (s : DepthStep) : Nat := s.action.depthFrom depth

/-- The sums that end with the last call: of all calls from the depth at the start, and of the last
calls, however many, from zero. -/
def sums (depth : Nat) (steps : List DepthStep) : Set Int :=
  insert (depth + total steps) (total '' {behind | behind <:+ steps})

@[simp] theorem total_nil : total [] = 0 := rfl

@[simp] theorem total_concat (steps : List DepthStep) (s : DepthStep) :
    total (steps ++ [s]) = total steps + s.shift := by
  simp [total]

/-- One call adds its shift, and the depth stops at zero. -/
theorem depthFrom_eq_max (depth : Nat) (s : DepthStep) :
    (s.depthFrom depth : Int) = max (depth + s.shift) 0 := by
  cases s with
  | deeper =>
    change ((depth + 1 : Nat) : Int) = max ((depth : Int) + 1) 0
    omega
  | shallower =>
    change ((depth - 1 : Nat) : Int) = max ((depth : Int) + -1) 0
    omega

/-- One more call adds its shift to every sum, and there is one more sum, that of no call. -/
theorem mem_sums_concat (depth : Nat) (steps : List DepthStep) (s : DepthStep) (n : Int) :
    n ∈ sums depth (steps ++ [s]) ↔ n = 0 ∨ ∃ m ∈ sums depth steps, n = m + s.shift := by
  constructor
  · rintro (rfl | ⟨behind, hb, rfl⟩)
    · right
      refine ⟨depth + total steps, Set.mem_insert _ _, ?_⟩
      rw [total_concat]
      omega
    · rcases List.suffix_concat_iff.mp hb with rfl | ⟨front, rfl, hf⟩
      · exact .inl rfl
      · exact .inr ⟨total front, Set.mem_insert_of_mem _ ⟨front, hf, rfl⟩, total_concat _ _⟩
  · rintro (rfl | ⟨m, hm, rfl⟩)
    · exact Set.mem_insert_of_mem _ ⟨[], List.nil_suffix, rfl⟩
    · rcases hm with rfl | ⟨behind, hb, rfl⟩
      · left
        rw [total_concat]
        omega
      · right
        have hs : behind ++ [s] <:+ steps ++ [s] := List.suffix_concat_iff.mpr (.inr ⟨_, rfl, hb⟩)
        exact ⟨behind ++ [s], hs, total_concat _ _⟩

/-- By induction on the last call: the largest sum moves with it, unless it falls below zero. -/
theorem isGreatest_foldl_depthFrom (depth : Nat) (steps : List DepthStep) :
    IsGreatest (sums depth steps) (steps.foldl depthFrom depth : Nat) := by
  induction steps using List.reverseRecOn with
  | nil =>
    constructor
    · exact Set.mem_insert_iff.mpr (.inl (by simp))
    · rintro n (rfl | ⟨behind, hb, rfl⟩)
      · simp
      · rw [List.suffix_nil.mp hb]
        exact Int.natCast_nonneg depth
  | append_singleton steps s ih =>
    obtain ⟨hm, hu⟩ := ih
    rw [List.foldl_concat, depthFrom_eq_max]
    constructor
    · rw [mem_sums_concat]
      rcases le_total 0 ((steps.foldl depthFrom depth : Nat) + s.shift) with hs | hs
      · exact .inr ⟨_, hm, max_eq_left hs⟩
      · exact .inl (max_eq_right hs)
    · intro n hn
      rcases (mem_sums_concat depth steps s n).mp hn with rfl | ⟨m, hm', rfl⟩
      · exact le_max_right _ _
      · exact (Int.add_le_add_right (hu hm') _).trans (le_max_left _ _)

end DepthStep

def Program.ofDepthSteps (steps : List DepthStep) : Program :=
  ofList (steps.map fun s => .act s.action)

theorem DepthStep.apply_action (s : DepthStep) (b : TextBuilder) :
    s.action.apply b = b.atDepth (s.depthFrom b.depth) := by
  cases s <;> rfl

theorem Program.run_ofDepthSteps (steps : List DepthStep) (b : TextBuilder) :
    ((ofDepthSteps steps).run b).state = b.atDepth (steps.foldl DepthStep.depthFrom b.depth) := by
  rw [run_state]
  induction steps generalizing b with
  | nil => rfl
  | cons s steps ih =>
    calc
      (ofDepthSteps (s :: steps)).script.play b
        = (ofDepthSteps steps).script.play (s.action.apply b) := rfl
      _ = (s.action.apply b).atDepth (steps.foldl DepthStep.depthFrom (s.action.apply b).depth) :=
          ih _
      _ = b.atDepth ((s :: steps).foldl DepthStep.depthFrom b.depth) := by
          rw [s.apply_action]
          rfl

/-- After calls that move the depth by one level each, the depth is the largest of these sums: what
they all add up to from the depth at the start, and what the last of them, however many, add up to
from zero. Nothing else has changed. -/
theorem depth_is_largest_sum (b : TextBuilder) (steps : List DepthStep) :
    let after := ((Program.ofDepthSteps steps).run b).state
    IsGreatest (insert ((b.depth : Int) + DepthStep.total steps)
      (DepthStep.total '' {behind | behind <:+ steps})) (after.depth : Int) ∧
    (0 : Int) ≤ after.depth ∧ after.text = b.text ∧ after.indent = b.indent ∧
    after.lineEnding = b.lineEnding := by
  intro after
  have ha : after = b.atDepth (steps.foldl DepthStep.depthFrom b.depth) :=
    Program.run_ofDepthSteps steps b
  have hg := DepthStep.isGreatest_foldl_depthFrom b.depth steps
  rw [ha]
  exact ⟨hg, Int.natCast_nonneg _, rfl, rfl, rfl⟩

/-- The order of the calls counts, and not only how many there are of each kind. -/
example :
    let b : TextBuilder := {}
    ((Program.ofDepthSteps [.deeper, .shallower, .shallower]).run b).state.depth = 0 ∧
    ((Program.ofDepthSteps [.shallower, .shallower, .deeper]).run b).state.depth = 1 := by
  decide

end SourceGen
