import Mathlib.Data.List.Induction
import Mathlib.Data.List.Infix
import SourceGen.Stack

/-! # The discipline of stacks

What was pushed comes back when as much has been popped as was pushed behind it, an empty slot like
any other. A pop of an empty slot answers as a pop of an empty stack does, so this is told by what is
left on the stack, and not by single answers. -/
namespace SourceGen.SlotStack

variable {α : Type}

/-- The stack that a run leaves. -/
def after (s : SlotStack α) (steps : List (Step α)) : SlotStack α :=
  steps.foldl (fun s e => (s.step e).2) s

theorem after_concat (s : SlotStack α) (steps : List (Step α)) (e : Step α) :
    s.after (steps ++ [e]) = ((s.after steps).step e).2 :=
  List.foldl_concat ..

theorem run_append (s : SlotStack α) (steps more : List (Step α)) :
    s.run (steps ++ more) = s.run steps ++ (s.after steps).run more := by
  induction steps generalizing s with
  | nil => rfl
  | cons e steps ih => exact congrArg (s.step e :: ·) (ih _)

def Step.isPush : Step α → Bool
  | .push _ => true
  | _ => false

def Step.isPop : Step α → Bool
  | .pop => true
  | _ => false

def pushes (steps : List (Step α)) : Nat := steps.countP Step.isPush

def pops (steps : List (Step α)) : Nat := steps.countP Step.isPop

/-- As many pops as pushes, and on the way never more pops than pushes. -/
structure Balanced (steps : List (Step α)) : Prop where
  covered : ∀ front, front <+: steps → pops front ≤ pushes front
  even : pushes steps = pops steps

@[simp] theorem pushes_concat (steps : List (Step α)) (e : Step α) :
    pushes (steps ++ [e]) = pushes steps + e.isPush.toNat := by
  cases h : e.isPush <;> simp [pushes, h]

@[simp] theorem pops_concat (steps : List (Step α)) (e : Step α) :
    pops (steps ++ [e]) = pops steps + e.isPop.toNat := by
  cases h : e.isPop <;> simp [pops, h]

/-- The stack has the slots of `base`, and `height` slots on top of them. -/
def Above (base : SlotStack α) (height : Nat) (s : SlotStack α) : Prop :=
  ∃ top : List (Option α), s.slots = base.slots ++ top ∧ top.length = height

theorem above_zero_iff {base s : SlotStack α} : Above base 0 s ↔ s = base := by
  constructor
  · rintro ⟨top, hs, ht⟩
    rw [List.eq_nil_of_length_eq_zero ht, List.append_nil] at hs
    cases s
    cases base
    exact congrArg SlotStack.mk hs
  · rintro rfl
    exact ⟨[], (List.append_nil _).symm, rfl⟩

/-- A step takes no slot of the base as long as there are others on top of it to pop. -/
theorem Above.step {base s : SlotStack α} {height : Nat} (h : Above base height s) (e : Step α)
    (hp : e.isPop.toNat ≤ height) :
    Above base (height + e.isPush.toNat - e.isPop.toNat) (s.step e).2 := by
  obtain ⟨top, hs, rfl⟩ := h
  cases e with
  | push slot =>
    refine ⟨top ++ [slot], ?_, List.length_append⟩
    change s.slots ++ [slot] = _
    rw [hs, List.append_assoc]
  | peek => exact ⟨top, hs, rfl⟩
  | pop =>
    have ht : top ≠ [] := List.ne_nil_of_length_pos hp
    refine ⟨top.dropLast, ?_, List.length_dropLast⟩
    change s.slots.dropLast = _
    rw [hs, List.dropLast_append_of_ne_nil ht]

/-- By induction on the last step: the height counts the pushes that are not popped yet. -/
theorem above_after (base : SlotStack α) (steps : List (Step α))
    (hc : ∀ front, front <+: steps → pops front ≤ pushes front) :
    Above base (pushes steps - pops steps) (base.after steps) := by
  induction steps using List.reverseRecOn with
  | nil => exact above_zero_iff.mpr rfl
  | append_singleton steps e ih =>
    have ih := ih fun front hf => hc front (hf.trans (List.prefix_append _ _))
    have hfront := hc steps (List.prefix_append _ _)
    have hall := hc _ (List.prefix_refl _)
    rw [pushes_concat, pops_concat] at hall
    have hone : e.isPush.toNat = 0 ∨ e.isPop.toNat = 0 := by
      cases e <;> simp [Step.isPush, Step.isPop]
    have hs := ih.step e (by omega)
    rw [after_concat, pushes_concat, pops_concat]
    convert hs using 1
    omega

theorem Balanced.after_eq {steps : List (Step α)} (h : Balanced steps) (s : SlotStack α) :
    s.after steps = s := by
  have ha := above_after s steps h.covered
  rwa [h.even, Nat.sub_self, above_zero_iff] at ha

theorem run_pops_of_empty (n : Nat) :
    ({} : SlotStack α).run (List.replicate n .pop) = List.replicate n (none, {}) := by
  induction n with
  | zero => rfl
  | succ n ih => exact congrArg ((none, {}) :: ·) ih

/-- By induction on the top slot. -/
theorem run_pops (slots : List (Option α)) :
    ((⟨slots⟩ : SlotStack α).run (List.replicate slots.length .pop)).map Prod.fst = slots.reverse ∧
    (⟨slots⟩ : SlotStack α).after (List.replicate slots.length .pop) = {} := by
  induction slots using List.reverseRecOn with
  | nil => exact ⟨rfl, rfl⟩
  | append_singleton slots slot ih =>
    obtain ⟨hr, ha⟩ := ih
    have hp : (⟨slots ++ [slot]⟩ : SlotStack α).step .pop = (slot, ⟨slots⟩) :=
      pop_push slot ⟨slots⟩
    rw [List.length_append, List.length_singleton, List.replicate_succ]
    constructor
    · rw [run, List.map_cons, hp, hr, List.reverse_concat]
    · rw [after, List.foldl_cons, hp]
      exact ha

/-- A slot comes back when balanced steps have passed, and the stack is as it was before the push. On
the way, a peek shows what a pop would take. A stack gives all its slots from the top down, one for a
pop; after that it stays empty. -/
theorem slots_come_back (s : SlotStack α) :
    (∀ (slot : Option α) (steps : List (Step α)), Balanced steps →
      (s.run (.push slot :: steps ++ [.pop])).getLast? = some (slot, s)) ∧
    (∀ before behind : List (Step α), s.run (before ++ .peek :: behind) =
      s.run before ++ ((s.after before).pop.1, s.after before) :: (s.after before).run behind) ∧
    (s.run (List.replicate s.slots.length .pop)).map Prod.fst = s.slots.reverse ∧
    (s.after (List.replicate s.slots.length .pop)).slots = [] ∧
    ∀ n, s.run (List.replicate (s.slots.length + n) .pop) =
      s.run (List.replicate s.slots.length .pop) ++ List.replicate n (none, ({} : SlotStack α)) := by
  obtain ⟨hr, ha⟩ := run_pops s.slots
  refine ⟨?_, ?_, hr, congrArg slots ha, ?_⟩
  · intro slot steps hb
    have hl : (s.push slot).run (steps ++ [.pop]) = (s.push slot).run steps ++ [(slot, s)] := by
      rw [run_append, hb.after_eq, run, step, pop_push, run]
    change ((none, s.push slot) :: (s.push slot).run (steps ++ [.pop])).getLast? = some (slot, s)
    rw [hl, ← List.cons_append, List.getLast?_concat]
  · intro before behind
    exact run_append s before (.peek :: behind)
  · intro n
    rw [← List.replicate_append_replicate, run_append, ha, run_pops_of_empty]

theorem slots_come_back_nested :
    ∃ (s : SlotStack Nat) (steps : List (Step Nat)), s.slots = [some 1, none] ∧
      steps = [.push (some 2), .peek, .push none, .pop, .peek, .pop] ∧ Balanced steps ∧
      (s.run (.push none :: steps ++ [.pop])).getLast? = some (none, s) := by
  have hb : Balanced ([.push (some 2), .peek, .push none, .pop, .peek, .pop] : List (Step Nat)) := by
    constructor
    · intro front hf
      have hc : ∀ front ∈ List.inits
          ([.push (some 2), .peek, .push none, .pop, .peek, .pop] : List (Step Nat)),
          pops front ≤ pushes front := by decide
      exact hc front ((List.mem_inits _ _).mpr hf)
    · rfl
  exact ⟨⟨[some 1, none]⟩, _, rfl, rfl, hb, (slots_come_back _).1 none _ hb⟩

end SourceGen.SlotStack
