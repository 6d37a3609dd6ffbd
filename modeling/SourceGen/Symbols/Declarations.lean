import SourceGen.Symbols.BaseTypes

/-!
# Declared type graphs

A finite list of declarations makes a type graph in which every search ends, so its
queries need no bound from the caller.
-/
namespace SourceGen

/-- Base and interface declarations. The first one for a type counts. Without an interface
list the host leaves all interfaces at their default. -/
structure Declarations (α : Type) where
  bases : List (α × α) := []
  interfaces? : Option (List (α × List α)) := none

namespace Declarations

variable {α : Type} [DecidableEq α]

def graph (d : Declarations α) : TypeGraph α where
  base x := d.bases.lookup x
  interfaces? := d.interfaces?.map fun declared x => (declared.lookup x).getD []

/-- The number of types named as a base or an interface, repeats counted. -/
def edgeCount (d : Declarations α) : Nat :=
  d.bases.length + ((d.interfaces?.getD []).flatMap (·.2)).length

/-- Each edge puts at most one type on the stack of a search, which ends on an empty one. -/
def bound (d : Declarations α) : Nat := d.edgeCount + 2

def inheritsFrom? (d : Declarations α) (x target : α) : Option (Asked (Question α) Bool) :=
  d.graph.inheritsWithin d.bound x target

def implements? (d : Declarations α) (x target : α) : Option (Asked (Question α) Bool) :=
  d.graph.implementsWithin d.bound x target

def baseTypes? (d : Declarations α) (x : α) : Option (Asked (Question α) (List α)) :=
  d.graph.baseTypesWithin d.bound x

def remaining? (d : Declarations α) (walk : BaseTypes α) : Option (Asked (Question α) (List α)) :=
  walk.collectWithin d.graph d.bound

end Declarations

end SourceGen
