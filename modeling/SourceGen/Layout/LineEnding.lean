import SourceGen.Text

/-!
# Line endings

The terminator is chosen by the caller and never follows the platform.
-/
namespace SourceGen

inductive LineEnding where
  | lf
  | crlf
  deriving DecidableEq

namespace LineEnding

def terminator : LineEnding → Text
  | lf => ['\n']
  | crlf => ['\r', '\n']

theorem getLast?_terminator (e : LineEnding) : e.terminator.getLast? = some '\n' := by
  cases e <;> rfl

/-- The word for the line ending in settings and in log records. -/
def name : LineEnding → Text
  | lf => ['l', 'f']
  | crlf => ['c', 'r', 'l', 'f']

def all : List LineEnding := [lf, crlf]

def ofName? (t : Text) : Option LineEnding := all.find? (·.name == t)

theorem ofName?_name (e : LineEnding) : ofName? e.name = some e := by
  cases e <;> decide

theorem ofName?_eq_some {t : Text} {e : LineEnding} (h : ofName? t = some e) : t = e.name := by
  unfold ofName? at h
  have h := List.find?_some h
  exact (beq_iff_eq.mp h).symm

end LineEnding

end SourceGen
