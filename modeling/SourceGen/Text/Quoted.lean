import SourceGen.Text
import SourceGen.Text.Visible

/-!
# Quoted text

Text in double quotes, in which every character shows: quotes and backslashes are escaped,
and so are the characters that would not be seen.
-/
namespace SourceGen.Text

def escapedCode (c : Char) : Text :=
  ['\\', 'u', '\x7b'] ++ Nat.toDigits 16 c.toNat ++ ['\x7d']

def quotedChar (c : Char) : Text :=
  if c = '\x00' then ['\\', '0']
  else if c = '\t' then ['\\', 't']
  else if c = '\r' then ['\\', 'r']
  else if c = '\n' then ['\\', 'n']
  else if c = '"' then ['\\', '"']
  else if c = '\\' then ['\\', '\\']
  else if isVisible c then [c]
  else escapedCode c

def quoted (t : Text) : Text := '"' :: t.flatMap quotedChar ++ ['"']

end SourceGen.Text
