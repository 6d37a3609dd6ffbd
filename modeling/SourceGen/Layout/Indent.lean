import SourceGen.Text

/-!
# Indentation

A level of indentation is a positive number of spaces. The margin of a depth is that
many spaces per level, counted in a 64-bit word that saturates.
-/
namespace SourceGen

/-- Width used where none, or none that is positive, is asked for. -/
def defaultIndentWidth : Nat := 4

def columnLimit : Nat := UInt64.size - 1

structure Indent where
  width : Nat
  width_pos : 0 < width
  deriving DecidableEq

namespace Indent

def standard : Indent := ⟨defaultIndentWidth, by decide⟩

/-- The given number of spaces per level; zero asks for the standard width. -/
def spaces (width : Nat) : Indent :=
  if h : 0 < width then ⟨width, h⟩ else standard

def columns (indent : Indent) (depth : Nat) : Nat := min (indent.width * depth) columnLimit

def margin (indent : Indent) (depth : Nat) : Text := List.replicate (indent.columns depth) ' '

theorem width_spaces (width : Nat) :
    (spaces width).width = if width = 0 then defaultIndentWidth else width := by
  cases width with
  | zero => rfl
  | succ n => simp [spaces]

@[simp] theorem length_margin (indent : Indent) (depth : Nat) :
    (indent.margin depth).length = indent.columns depth := by
  simp [margin]

theorem columns_eq_of_le {indent : Indent} {depth : Nat}
    (h : indent.width * depth ≤ columnLimit) : indent.columns depth = indent.width * depth :=
  Nat.min_eq_left h

end Indent

end SourceGen
