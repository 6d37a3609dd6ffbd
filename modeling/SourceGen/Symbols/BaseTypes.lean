import SourceGen.Symbols.TypeGraph

/-!
# Base chains

A walk gives out the bases of a type, nearest first, and ends before the first type that
it has met already. The host is asked for the base of the start when the walk begins, and
for the base of each type just before that type is given out.
-/
namespace SourceGen

/-- A walk: the type to give out next, and those met so far. -/
structure BaseTypes (α : Type) where
  current : Option α
  visited : List α
  deriving DecidableEq

namespace BaseTypes

variable {α : Type} [DecidableEq α]

def start (g : TypeGraph α) (x : α) : Asked (Question α) (BaseTypes α) :=
  ⟨⟨g.base x, [x]⟩, [.base x]⟩

/-- The next type. After the end every call gives `none` and asks nothing. -/
def next (g : TypeGraph α) (walk : BaseTypes α) :
    Asked (Question α) (Option α × BaseTypes α) :=
  match walk.current with
  | none => ⟨(none, walk), []⟩
  | some y =>
    if y ∈ walk.visited then ⟨(none, { walk with current := none }), []⟩
    else ⟨(some y, ⟨g.base y, y :: walk.visited⟩), [.base y]⟩

/-- The results of `n` calls of `next`, and where they leave the walk. -/
def advance (g : TypeGraph α) : Nat → BaseTypes α →
    Asked (Question α) (List (Option α) × BaseTypes α)
  | 0, walk => ⟨([], walk), []⟩
  | n + 1, walk =>
    (walk.next g).andThen fun (y, after) => (advance g n after).map fun (ys, last) => (y :: ys, last)

/-- All types still to come, if the walk ends within `n` calls. -/
def collectWithin (g : TypeGraph α) : Nat → BaseTypes α → Option (Asked (Question α) (List α))
  | 0, _ => none
  | n + 1, walk =>
    match (walk.next g).answer with
    | (none, _) => some ⟨[], (walk.next g).questions⟩
    | (some y, after) =>
      (collectWithin g n after).map fun r => (r.map (y :: ·)).after (walk.next g).questions

/-- Whether `target` is still to come, if `n` calls can tell. Asks no further than `target`. -/
def containsWithin (g : TypeGraph α) (target : α) : Nat → BaseTypes α →
    Option (Asked (Question α) Bool)
  | 0, _ => none
  | n + 1, walk =>
    match (walk.next g).answer with
    | (none, _) => some ⟨false, (walk.next g).questions⟩
    | (some y, after) =>
      if y = target then some ⟨true, (walk.next g).questions⟩
      else (containsWithin g target n after).map (·.after (walk.next g).questions)

end BaseTypes

namespace TypeGraph

variable {α : Type} [DecidableEq α]

/-- The base chain of a type, if it ends within `n` calls. -/
def baseTypesWithin (g : TypeGraph α) (n : Nat) (x : α) : Option (Asked (Question α) (List α)) :=
  ((BaseTypes.start g x).answer.collectWithin g n).map (·.after (BaseTypes.start g x).questions)

/-- Whether `target` is `x` or on its base chain, if `n` calls can tell. -/
def inheritsWithin (g : TypeGraph α) (n : Nat) (x target : α) : Option (Asked (Question α) Bool) :=
  if x = target then some ⟨true, []⟩
  else ((BaseTypes.start g x).answer.containsWithin g target n).map
    (·.after (BaseTypes.start g x).questions)

end TypeGraph

end SourceGen
