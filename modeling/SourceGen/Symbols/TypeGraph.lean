import SourceGen.Symbols.Asked

/-!
# Type graphs

A host knows the base type and the interfaces of each of its types. The search for a type
among all that one type implements keeps a stack of types to look at and the types it has
expanded, so that cycles do no harm.
-/
namespace SourceGen

structure TypeGraph (α : Type) where
  base : α → Option α
  /-- `none` when the host leaves the interfaces at their default, an empty list. -/
  interfaces? : Option (α → List α) := none

inductive Question (α : Type) where
  | base (x : α)
  | interfaces (x : α)
  deriving DecidableEq

namespace TypeGraph

variable {α : Type}

def interfaces (g : TypeGraph α) (x : α) : List α :=
  match g.interfaces? with
  | none => []
  | some declared => declared x

/-- Asking for interfaces reaches the host only if it answers for itself. -/
def interfaceQuestions (g : TypeGraph α) (x : α) : List (Question α) :=
  match g.interfaces? with
  | none => []
  | some _ => [.interfaces x]

def askInterfaces (g : TypeGraph α) (x : α) : Asked (Question α) (List α) :=
  ⟨g.interfaces x, g.interfaceQuestions x⟩

/-- The types one step away: the base, then the interfaces in declared order. -/
def parents (g : TypeGraph α) (x : α) : List α := (g.base x).toList ++ g.interfaces x

/-- What is asked when a type is expanded. -/
def expansionQuestions (g : TypeGraph α) (x : α) : List (Question α) :=
  g.interfaceQuestions x ++ [.base x]

end TypeGraph

/-- A search under way: the types to look at, the next one first, and those expanded. -/
structure Search (α : Type) where
  pending : List α
  visited : List α := []
  questions : List (Question α) := []

namespace Search

variable {α : Type} [DecidableEq α]

/-- Looks at the next type: the answer, or the search after it. -/
def step (g : TypeGraph α) (target : α) (s : Search α) : Bool ⊕ Search α :=
  match s.pending with
  | [] => .inl false
  | x :: rest =>
    if x = target then .inl true
    else if x ∈ s.visited then .inr { s with pending := rest }
    else .inr
      { pending := g.parents x ++ rest
        visited := x :: s.visited
        questions := s.questions ++ g.expansionQuestions x }

/-- The answer and the questions of a search that ends within a number of steps. -/
def runWithin (g : TypeGraph α) (target : α) : Nat → Search α → Option (Asked (Question α) Bool)
  | 0, _ => none
  | n + 1, s =>
    match s.step g target with
    | .inl answer => some ⟨answer, s.questions⟩
    | .inr s' => runWithin g target n s'

end Search

/-- Whether `target` is `x` or can be reached from it through bases and interfaces, if a
search of so many steps can tell. -/
def TypeGraph.implementsWithin {α : Type} [DecidableEq α] (g : TypeGraph α) (n : Nat)
    (x target : α) : Option (Asked (Question α) Bool) :=
  Search.runWithin g target n { pending := [x] }

end SourceGen
