import SourceGen.Toml.Quotes

/-!
# Dates and times

Calendar dates, times of day, and both together with or without an offset. Only their
form and range matter here; no value is computed.
-/
namespace SourceGen.Toml

/-- A number of exactly so many digits, and what follows it. -/
def fixedDigits? : Nat → Nat → Text → Option (Nat × Text)
  | 0, value, s => some (value, s)
  | _ + 1, _, [] => none
  | n + 1, value, c :: rest =>
    match digit? 10 c with
    | none => none
    | some d => fixedDigits? n (10 * value + d) rest

def twoDigits? (s : Text) : Option (Nat × Text) := fixedDigits? 2 0 s

def separator? (c : Char) : Text → Option Text
  | d :: rest => if d = c then some rest else none
  | [] => none

def isLeapYear (year : Nat) : Bool := year % 4 == 0 && (year % 100 != 0 || year % 400 == 0)

def daysInMonth (year : Nat) : Nat → Nat
  | 2 => if isLeapYear year then 29 else 28
  | 4 | 6 | 9 | 11 => 30
  | _ => 31

def date? (s : Text) : Option Text := do
  let (year, s) ← fixedDigits? 4 0 s
  let s ← separator? '-' s
  let (month, s) ← twoDigits? s
  let s ← separator? '-' s
  let (day, s) ← twoDigits? s
  if 1 ≤ month && month ≤ 12 && 1 ≤ day && day ≤ daysInMonth year month then some s else none

/-- What follows a fraction of a second, which may be absent. -/
def secondFraction? : Text → Option Text
  | '.' :: rest =>
    let digits := rest.takeWhile Char.isDigit
    if digits.isEmpty then none else some (rest.drop digits.length)
  | s => some s

/-- What follows the seconds, which may be absent. The sixtieth is a leap second. -/
def seconds? : Text → Option Text
  | ':' :: rest =>
    match twoDigits? rest with
    | none => none
    | some (second, rest) => if second ≤ 60 then secondFraction? rest else none
  | s => some s

def time? (s : Text) : Option Text := do
  let (hour, s) ← twoDigits? s
  let s ← separator? ':' s
  let (minute, s) ← twoDigits? s
  if hour ≤ 23 && minute ≤ 59 then seconds? s else none

def isOffset : Text → Bool
  | [] => true
  | [c] => c == 'Z' || c == 'z'
  | c :: rest =>
    (c == '+' || c == '-') &&
      match do
        let (hour, s) ← twoDigits? rest
        let s ← separator? ':' s
        let (minute, s) ← twoDigits? s
        return (hour, minute, s) with
      | some (hour, minute, []) => hour ≤ 23 && minute ≤ 59
      | _ => false

def isDateTime (s : Text) : Bool :=
  match date? s with
  | none => time? s == some []
  | some [] => true
  | some (c :: rest) =>
    (c == 'T' || c == 't' || c == ' ') &&
      match time? rest with
      | none => false
      | some rest => isOffset rest

end SourceGen.Toml
