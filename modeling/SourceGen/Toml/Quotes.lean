import SourceGen.Toml.Scan

/-!
# Quoted strings

Four forms: in double quotes with escapes or in single quotes without, on one line or, in
three quotes, on several. The end of a string is found first; what stands between the
quotes is decoded afterwards.
-/
namespace SourceGen.Toml

def digit? (base : Nat) (c : Char) : Option Nat :=
  let value :=
    if '0' ≤ c && c ≤ '9' then some (c.toNat - '0'.toNat)
    else if 'a' ≤ c && c ≤ 'f' then some (c.toNat - 'a'.toNat + 10)
    else if 'A' ≤ c && c ≤ 'F' then some (c.toNat - 'A'.toNat + 10)
    else none
  value.filter (· < base)

/-- The character with a code, unless the code is out of range or half of a pair. -/
def char? (code : Nat) : Option Char :=
  if code < 0xd800 || (0xdfff < code && code < 0x110000) then some (Char.ofNat code) else none

def escaped? : Char → Option Char
  | 'b' => some '\x08'
  | 't' => some '\t'
  | 'n' => some '\n'
  | 'f' => some '\x0c'
  | 'r' => some '\r'
  | 'e' => some '\x1b'
  | '"' => some '"'
  | '\\' => some '\\'
  | _ => none

/-- The number of digits of an escape that gives a code. -/
def codeLength? : Char → Option Nat
  | 'x' => some 2
  | 'u' => some 4
  | 'U' => some 8
  | _ => none

/-- What the characters before have begun: nothing, an escape, a code of which some digits
are left, or a fold, which is a backslash that ends a line and takes the blank stretch
behind it along. -/
inductive Escape where
  | none
  | begun
  | code (left value : Nat)
  | fold (broken : Bool)
  deriving DecidableEq

/-- A character that stands for itself, given whether the string may have several lines and
what follows. -/
def standsForItself (long : Bool) (c : Char) (rest : Text) : Bool :=
  isTextChar c || (long && (c == '\n' || (c == '\r' && rest.head? == some '\n')))

def unescape (long : Bool) : Escape → Text → Option Text
  | .none, [] | .fold true, [] => some []
  | .begun, [] | .code _ _, [] | .fold false, [] => Option.none
  | .code left value, c :: rest =>
    match digit? 16 c with
    | Option.none => Option.none
    | some d =>
      if left ≤ 1 then
        match char? (16 * value + d) with
        | Option.none => Option.none
        | some c => (unescape long .none rest).map (c :: ·)
      else unescape long (.code (left - 1) (16 * value + d)) rest
  | .begun, c :: rest =>
    match codeLength? c, escaped? c with
    | some n, _ => unescape long (.code n 0) rest
    | Option.none, some c => (unescape long .none rest).map (c :: ·)
    | Option.none, Option.none =>
      if long && c == '\n' then unescape long (.fold true) rest
      else if long && (isBlank c || (c == '\r' && rest.head? == some '\n')) then
        unescape long (.fold false) rest
      else Option.none
  | .fold false, c :: rest =>
    if c == '\n' then unescape long (.fold true) rest
    else if isBlank c || (c == '\r' && rest.head? == some '\n') then
      unescape long (.fold false) rest
    else Option.none
  | state, c :: rest =>
    if state == .fold true && (isBlank c || c == '\n' || (c == '\r' && rest.head? == some '\n')) then
      unescape long (.fold true) rest
    else if c == '\\' then unescape long .begun rest
    else if standsForItself long c rest then (unescape long .none rest).map (c :: ·)
    else Option.none

def literal? (long : Bool) : Text → Option Text
  | [] => some []
  | c :: rest =>
    if standsForItself long c rest then (literal? long rest).map (c :: ·) else none

/-- The line break right behind three opening quotes does not count. -/
def dropFirstBreak (s : Text) : Text := (lineBreak? s).getD s

/-- What stands before the closing quote, and what follows it. With `escapes`, a backslash
keeps the next character from closing. -/
def untilQuote (quote : Char) (escapes : Bool) : Text → Option (Text × Text)
  | [] => none
  | c :: rest =>
    if c = quote then some ([], rest)
    else if escapes && c == '\\' then
      match rest with
      | [] => none
      | d :: rest => (untilQuote quote escapes rest).map fun (body, rest) => (c :: d :: body, rest)
    else (untilQuote quote escapes rest).map fun (body, rest) => (c :: body, rest)

/-- The same for three closing quotes, before which up to two more belong to the string. -/
def untilThreeQuotes (quote : Char) (escapes : Bool) : Text → Option (Text × Text)
  | [] => none
  | c :: rest =>
    let quotes := ((c :: rest).takeWhile (· == quote)).take 5
    if 3 ≤ quotes.length then some (quotes.drop 3, (c :: rest).drop quotes.length)
    else if escapes && c == '\\' then
      match rest with
      | [] => none
      | d :: rest =>
        (untilThreeQuotes quote escapes rest).map fun (body, rest) => (c :: d :: body, rest)
    else (untilThreeQuotes quote escapes rest).map fun (body, rest) => (c :: body, rest)

def shortString? : Text → Option (Text × Text)
  | '"' :: rest =>
    match untilQuote '"' true rest with
    | none => none
    | some (body, rest) => (unescape false .none body).map (·, rest)
  | '\'' :: rest =>
    match untilQuote '\'' false rest with
    | none => none
    | some (body, rest) => (literal? false body).map (·, rest)
  | _ => none

def string? : Text → Option (Text × Text)
  | '"' :: '"' :: '"' :: rest =>
    match untilThreeQuotes '"' true rest with
    | none => none
    | some (body, rest) => (unescape true .none (dropFirstBreak body)).map (·, rest)
  | '\'' :: '\'' :: '\'' :: rest =>
    match untilThreeQuotes '\'' false rest with
    | none => none
    | some (body, rest) => (literal? true (dropFirstBreak body)).map (·, rest)
  | s => shortString? s

end SourceGen.Toml
