import SourceGen.Layout.Indent
import SourceGen.Layout.LineEnding
import SourceGen.Text.Lines

/-!
# Text builders

A builder holds the text written so far, the depth of indentation, and the settings that
later writing uses. Raw appends write the margin only where a line starts; line appends
always write it. No operation fails: the depth stops at zero.
-/
namespace SourceGen

structure TextBuilder where
  text : Text := []
  depth : Nat := 0
  indent : Indent := Indent.standard
  lineEnding : LineEnding := LineEnding.lf
  deriving DecidableEq

/-- Whether `next`, written behind `before`, begins a line. A line feed behind a carriage
return completes their common break, so it begins none. -/
def opensLine (before : Text) (next : Char) : Bool :=
  match before.getLast? with
  | none => true
  | some '\n' => true
  | some '\r' => next != '\n'
  | some _ => false

namespace TextBuilder

def withIndent (indent : Indent) : TextBuilder := { indent := indent }

def withWidth (width : Nat) : TextBuilder := withIndent (.spaces width)

def withLineEnding (b : TextBuilder) (e : LineEnding) : TextBuilder := { b with lineEnding := e }

/-- The spaces in front of a line at the present depth. -/
def margin (b : TextBuilder) : Text := b.indent.margin b.depth

def marginBefore (b : TextBuilder) (next : Char) : Text :=
  if opensLine b.text next then b.margin else []

def write (b : TextBuilder) (t : Text) : TextBuilder := { b with text := b.text ++ t }

theorem write_nil (b : TextBuilder) : b.write [] = b := by
  simp [write]

theorem write_write (b : TextBuilder) (s t : Text) : (b.write s).write t = b.write (s ++ t) := by
  simp [write]

/-- Writes the text as it is. Breaks inside it are not followed by a margin. -/
def append (b : TextBuilder) : Text → TextBuilder
  | [] => b
  | c :: t => b.write (b.marginBefore c ++ c :: t)

def appendChar (b : TextBuilder) (c : Char) : TextBuilder := b.write (b.marginBefore c ++ [c])

/-- Appends pieces one after the other, as a formatted write does. -/
def appendPieces (b : TextBuilder) (pieces : List Text) : TextBuilder := pieces.foldl append b

def appendBlankLine (b : TextBuilder) : TextBuilder := b.write b.lineEnding.terminator

def appendLine (b : TextBuilder) (t : Text) : TextBuilder :=
  b.write (b.margin ++ t ++ b.lineEnding.terminator)

/-- Every physical line of the text as a line of its own. -/
def appendBody (b : TextBuilder) (t : Text) : TextBuilder := (bodyLines t).foldl appendLine b

def deeper (b : TextBuilder) : TextBuilder := { b with depth := b.depth + 1 }

def shallower (b : TextBuilder) : TextBuilder := { b with depth := b.depth - 1 }

def atDepth (b : TextBuilder) (depth : Nat) : TextBuilder := { b with depth := depth }

def indentWith (b : TextBuilder) (f : TextBuilder → TextBuilder) : TextBuilder :=
  (f b.deeper).atDepth b.depth

def unindentWith (b : TextBuilder) (f : TextBuilder → TextBuilder) : TextBuilder :=
  (f b.shallower).atDepth b.depth

def appendLineIndented (b : TextBuilder) (t : Text) : TextBuilder := b.indentWith (·.appendLine t)

def appendBodyIndented (b : TextBuilder) (t : Text) : TextBuilder := b.indentWith (·.appendBody t)

def unindentLine (b : TextBuilder) (t : Text) : TextBuilder := b.unindentWith (·.appendLine t)

/-- Forgets the text and the depth and keeps the settings. -/
def clear (b : TextBuilder) : TextBuilder := { b with text := [], depth := 0 }

def flush (b : TextBuilder) : Text × TextBuilder := (b.text, b.clear)

def isEmpty (b : TextBuilder) : Bool := b.text.isEmpty

def forEach {α : Type} (b : TextBuilder) (items : List α)
    (f : TextBuilder → α → TextBuilder) : TextBuilder := items.foldl f b

def appendLines (b : TextBuilder) (items : List Text) : TextBuilder := b.forEach items appendLine

def appendLinesIndented (b : TextBuilder) (items : List Text) : TextBuilder :=
  b.forEach items appendLineIndented

def appendBodies (b : TextBuilder) (items : List Text) : TextBuilder := b.forEach items appendBody

def appendLinesBy (b : TextBuilder) (items : List Text) (format : Text → Text) : TextBuilder :=
  b.forEach items fun b item => b.appendLine (format item)

def appendLinesIndentedBy (b : TextBuilder) (items : List Text) (format : Text → Text) :
    TextBuilder := b.forEach items fun b item => b.appendLineIndented (format item)

def appendBodiesBy (b : TextBuilder) (items : List Text) (format : Text → Text) : TextBuilder :=
  b.forEach items fun b item => b.appendBody (format item)

end TextBuilder

end SourceGen
