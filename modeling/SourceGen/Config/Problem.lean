import SourceGen.Layout.LineEnding
import SourceGen.Number.Shortest
import SourceGen.Text.Quoted
import SourceGen.Toml.Node

/-!
# Problems with settings

What can be wrong with a well-formed settings document, and the words for it.
-/
namespace SourceGen

inductive Found where
  | integer (n : Int)
  | float (x : Binary64)
  | boolean (b : Bool)
  | string (t : Text)
  | sequence
  | map
  deriving DecidableEq

/-- What a place in the document calls for. -/
inductive Expectation where
  | width
  | settings
  deriving DecidableEq

/-- What is wrong with a value or a key. A number is unreadable if it has no value or no machine
format holds it. A line ending is a string or a table; the table has one key, and nothing stands under
that key. -/
inductive Problem where
  | unknownField (name : Text) (fields : List Text)
  | unknownLineEnding (name : Text)
  | wrongType (found : Found) (expected : Expectation)
  | widthTooLarge (n : Int)
  | unreadableNumber
  | noLineEnding
  | lineEndingKeys
  | lineEndingContent
  deriving DecidableEq

/-- A problem with the place of the key or the value that has it. -/
structure Fault (π : Type) where
  problem : Problem
  place : π
  deriving DecidableEq

def fitsSigned (bits : Nat) (n : Int) : Bool :=
  -(Nat.pow 2 (bits - 1) : Int) ≤ n && n < (Nat.pow 2 (bits - 1) : Int)

def fitsUnsigned (bits : Nat) (n : Int) : Bool := 0 ≤ n && n < (Nat.pow 2 bits : Int)

def ticked (t : Text) : Text := '\x60' :: t ++ ['\x60']

def alternatives (names : List Text) : Text := " or ".toList.intercalate (names.map ticked)

/-- An integer beyond 64 bits is named with the width that holds it. -/
def integerWidthNote (n : Int) : Text :=
  if fitsSigned 64 n || fitsUnsigned 64 n then []
  else if fitsSigned 128 n then " as i128".toList
  else " as u128".toList

def Found.describe : Found → Text
  | integer n => "integer ".toList ++ ticked (Text.ofInt n) ++ integerWidthNote n
  | float x => "floating point ".toList ++ ticked x.text
  | boolean b => "boolean ".toList ++ ticked (if b then "true".toList else "false".toList)
  | string t => "string ".toList ++ Text.quoted t
  | sequence => "sequence".toList
  | map => "map".toList

def Expectation.describe : Expectation → Text
  | width => "i64".toList
  | settings => "struct BuilderConfig".toList

/-- The words for a problem. Where there are none, its place is all that is told of it. -/
def Problem.detail? : Problem → Option Text
  | unknownField name fields =>
    some ("unknown field ".toList ++ ticked name ++ ", expected ".toList ++ alternatives fields)
  | unknownLineEnding name =>
    some ("unknown variant ".toList ++ ticked name ++ ", expected ".toList ++
      alternatives (LineEnding.all.map LineEnding.name))
  | wrongType found expected =>
    some ("invalid type: ".toList ++ found.describe ++ ", expected ".toList ++ expected.describe)
  | widthTooLarge n =>
    some ("invalid value: ".toList ++ (Found.integer n).describe ++ ", expected ".toList ++
      Expectation.width.describe)
  | unreadableNumber | noLineEnding | lineEndingKeys | lineEndingContent => none

end SourceGen
