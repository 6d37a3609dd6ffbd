import SourceGen.Number.Binary64
import SourceGen.Toml.Quotes

/-!
# Numbers

Integers in four bases and decimal floating-point numbers. Single underscores may stand
between digits. Some words count as integers for their form alone: the mark of a base
without digits behind it, and a decimal numeral with other characters behind its first
underscore. Their value is missing, which shows only where it is needed.
-/
namespace SourceGen.Toml

def isDigitOf (base : Nat) (c : Char) : Bool := (digit? base c).isSome

/-- A numeral without its underscores, each of which must have digits of the base on both
sides. The flag says that a digit stands in front. -/
def joined? (base : Nat) (behindDigit : Bool) : Text → Option Text
  | [] => some []
  | c :: rest =>
    if c = '_' then
      if behindDigit && rest.head?.any (isDigitOf base) then joined? base false rest else none
    else (joined? base (isDigitOf base c) rest).map (c :: ·)

def digits? (base : Nat) (s : Text) : Option (List Nat) := s.mapM (digit? base)

def numeral (base : Nat) (digits : List Nat) : Nat := digits.foldl (fun n d => base * n + d) 0

/-- One decimal digit or more, underscores between them left out. -/
def decimalDigits? (s : Text) : Option (List Nat) :=
  ((joined? 10 false s).bind (digits? 10)).filter (!·.isEmpty)

/-- A decimal numeral can begin as the text does: with a digit, which is no zero if more
digits follow. -/
def beginsDecimal (s : Text) : Bool :=
  match s with
  | '0' :: c :: _ => !(c.isDigit || c == '_')
  | c :: _ => c.isDigit
  | [] => false

def splitSign : Text → Bool × Text
  | '-' :: rest => (true, rest)
  | '+' :: rest => (false, rest)
  | s => (false, s)

def signed (negative : Bool) (n : Nat) : Int := if negative then -n else n

/-- An integer behind the mark of a base. Without digits it has no value. -/
def basedInteger? (base : Nat) (s : Text) : Option (Option Int) :=
  ((joined? base false s).bind (digits? base)).map fun ds =>
    if ds.isEmpty then none else some (numeral base ds)

/-- What may follow the first digits of a decimal integer: nothing, or an underscore and
characters that make it no date and no float. -/
def isIntegerTail : Text → Bool
  | [] => true
  | c :: rest => c == '_' && rest.all fun d => d != ' ' && d != '.' && d != 'e' && d != 'E'

/-- A decimal integer. It has a value if it consists of digits. An underscore may stand
between letters that are digits in a larger base. -/
def decimalInteger? (negative : Bool) (s : Text) : Option (Option Int) :=
  if beginsDecimal s && isIntegerTail (s.dropWhile Char.isDigit) then
    (joined? 16 false s).map fun t => (digits? 10 t).map fun ds => signed negative (numeral 10 ds)
  else none

/-- An integer. Numerals with the mark of a base have no sign. The inner `none` stands for a
missing value. -/
def integer? : Text → Option (Option Int)
  | '0' :: 'x' :: rest => basedInteger? 16 rest
  | '0' :: 'o' :: rest => basedInteger? 8 rest
  | '0' :: 'b' :: rest => basedInteger? 2 rest
  | s => decimalInteger? (splitSign s).1 (splitSign s).2

def fraction? : Text → Option (List Nat)
  | [] => some []
  | '.' :: rest => decimalDigits? rest
  | _ => none

def exponent? : Text → Option Int
  | [] => some 0
  | _ :: rest => (decimalDigits? (splitSign rest).2).map fun ds =>
      signed (splitSign rest).1 (numeral 10 ds)

/-- A decimal with a fraction, an exponent or both. The inner `none` stands for a number
beyond the largest of the format. -/
def decimal? (negative : Bool) (s : Text) : Option (Option Binary64) :=
  let (mantissa, power) := s.span fun c => c != 'e' && c != 'E'
  let (whole, fraction) := mantissa.span (· != '.')
  if (fraction.isEmpty && power.isEmpty) || !beginsDecimal whole then none
  else
    match decimalDigits? whole, fraction? fraction, exponent? power with
    | some ws, some fs, some e =>
      some (Binary64.ofDecimal? negative (numeral 10 (ws ++ fs)) (e - fs.length))
    | _, _, _ => none

def float? (s : Text) : Option (Option Binary64) := decimal? (splitSign s).1 (splitSign s).2

end SourceGen.Toml
