import SourceGen.Text

/-!
# Placeholders

The body of a loop is written once, with a placeholder where the item goes.
-/
namespace SourceGen

namespace Placeholder

def mark : Text := "\x7bitem\x7d".toList

/-- Copies a text, with the item wherever the placeholder stands, after leaving out the
first characters. -/
def fillBehind (item : Text) : Nat → Text → Text
  | _, [] => []
  | n + 1, _ :: rest => fillBehind item n rest
  | 0, c :: rest =>
    if mark.isPrefixOf (c :: rest) then item ++ fillBehind item (mark.length - 1) rest
    else c :: fillBehind item 0 rest

/-- Puts the item wherever the placeholder stands. What is put in is not searched again. -/
def fill (item t : Text) : Text := fillBehind item 0 t

end Placeholder

end SourceGen
