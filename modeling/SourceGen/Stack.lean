/-!
# Stacks with empty slots

A slot holds a value or is empty. Taking the top slot gives `none` both for an empty
stack and for an empty slot, and an empty slot is taken away all the same.
-/
namespace SourceGen

/-- The slots from the bottom to the top. -/
structure SlotStack (α : Type) where
  slots : List (Option α) := []
  deriving DecidableEq

namespace SlotStack

variable {α : Type}

def push (slot : Option α) (s : SlotStack α) : SlotStack α := ⟨s.slots ++ [slot]⟩

def peek (s : SlotStack α) : Option α := s.slots.getLast?.join

def pop (s : SlotStack α) : Option α × SlotStack α :=
  (s.slots.getLast?.join, ⟨s.slots.dropLast⟩)

inductive Step (α : Type) where
  | push (slot : Option α)
  | pop
  | peek

def step (s : SlotStack α) : Step α → Option α × SlotStack α
  | .push slot => (none, s.push slot)
  | .pop => s.pop
  | .peek => (s.peek, s)

def run (s : SlotStack α) : List (Step α) → List (Option α × SlotStack α)
  | [] => []
  | e :: es => s.step e :: (s.step e).2.run es

@[simp] theorem pop_push (slot : Option α) (s : SlotStack α) : (s.push slot).pop = (slot, s) := by
  cases slot <;> simp [push, pop]

end SlotStack

end SourceGen
