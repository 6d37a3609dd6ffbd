/-!
# Binary floating point

The 64-bit format: a significand of 53 bits times a power of two. A decimal is read as the
nearest value of the format, a tie as the one with the even significand.
-/
namespace SourceGen

/-- `finite` stands for `significand * 2 ^ exponent` with its sign, where the significand has
53 bits or the exponent is the least one. -/
inductive Binary64 where
  | finite (negative : Bool) (significand : Nat) (exponent : Int)
  | infinity (negative : Bool)
  | nan
  deriving DecidableEq

namespace Binary64

def significandBits : Nat := 53

def leastExponent : Int := -1074

def greatestExponent : Int := 971

/-- The integer nearest to a quotient, of two equally near ones the even one. -/
def roundHalfEven (num den : Nat) : Nat :=
  let q := num / den
  let r := num % den
  if 2 * r < den then q
  else if den < 2 * r then q + 1
  else if q % 2 = 0 then q else q + 1

/-- The quotient in units of `2 ^ exponent`, as a quotient. -/
def scaled (num den : Nat) (exponent : Int) : Nat × Nat :=
  (num <<< (-exponent).toNat, den <<< exponent.toNat)

/-- The significand and the exponent nearest to a positive quotient, however large. -/
def nearest (num den : Nat) : Nat × Int :=
  let low := max leastExponent ((num.log2 : Int) - den.log2 - significandBits)
  let (n, d) := scaled num den low
  let exponent := if Nat.pow 2 significandBits ≤ n / d then low + 1 else low
  let (n, d) := scaled num den exponent
  let significand := roundHalfEven n d
  if significand = Nat.pow 2 significandBits then (Nat.pow 2 (significandBits - 1), exponent + 1)
  else (significand, exponent)

/-- The value nearest to `digits * 10 ^ power`, or `none` beyond the largest finite one. Far
outside the range of the format the power of ten is not computed. -/
def ofDecimal? (negative : Bool) (digits : Nat) (power : Int) : Option Binary64 :=
  let top := ((Nat.toDigits 10 digits).length : Int) + power
  if digits = 0 ∨ top < -330 then some (.finite negative 0 leastExponent)
  else if 310 < top then none
  else
    let (significand, exponent) := nearest (digits * Nat.pow 10 power.toNat) (Nat.pow 10 (-power).toNat)
    if greatestExponent < exponent then none else some (.finite negative significand exponent)

end Binary64

end SourceGen
