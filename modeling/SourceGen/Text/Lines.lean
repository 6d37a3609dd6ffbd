import SourceGen.Text

/-!
# Physical lines

A line ends at a line feed, at a carriage return, or at both together in this order,
which is one break. Every stretch between breaks is a line, so the empty text has one
line and a final break is followed by an empty line.
-/
namespace SourceGen

open Text

def bodyLines : Text → List Text
  | [] => [[]]
  | '\r' :: '\n' :: rest => [] :: bodyLines rest
  | c :: rest =>
    if isBreak c then [] :: bodyLines rest
    else match bodyLines rest with
      | [] => [[c]]
      | line :: more => (c :: line) :: more

/-- The first line, and the text behind its break when it has one. -/
def splitLine : Text → Text × Option Text
  | [] => ([], none)
  | '\r' :: '\n' :: rest => ([], some rest)
  | c :: rest =>
    if isBreak c then ([], some rest)
    else ((splitLine rest).map (c :: ·) id)

/-- A walk over the lines of a text: what is still to be split, or `none` at the end. -/
structure LineCursor where
  rest : Option Text
  deriving DecidableEq

namespace LineCursor

def start (t : Text) : LineCursor := ⟨some t⟩

/-- The next line. Past the end every call gives `none`. -/
def next (cursor : LineCursor) : Option Text × LineCursor :=
  match cursor.rest with
  | none => (none, cursor)
  | some t => (some (splitLine t).1, ⟨(splitLine t).2⟩)

/-- The results of `n` calls of `next`, and where they leave the walk. -/
def advance : Nat → LineCursor → List (Option Text) × LineCursor
  | 0, cursor => ([], cursor)
  | n + 1, cursor =>
    let (line, after) := cursor.next
    (advance n after).map (line :: ·) id

def remaining (cursor : LineCursor) : List Text :=
  match cursor.rest with
  | none => []
  | some t => bodyLines t

end LineCursor

theorem bodyLines_ne_nil (t : Text) : bodyLines t ≠ [] := by
  fun_cases bodyLines t <;> simp_all

/-- The lines of a text are its first line and the lines behind that line's break. -/
theorem bodyLines_eq_splitLine (t : Text) :
    bodyLines t = (splitLine t).1 :: LineCursor.remaining ⟨(splitLine t).2⟩ := by
  fun_induction splitLine t with
  | case1 => simp [bodyLines, LineCursor.remaining]
  | case2 rest => simp [bodyLines, LineCursor.remaining]
  | case3 c rest hc h => simp [bodyLines, LineCursor.remaining, h]
  | case4 c rest hc h ih => simp [bodyLines, h, ih]

end SourceGen
