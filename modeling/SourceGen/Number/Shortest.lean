import SourceGen.Number.Binary64
import SourceGen.Text

/-!
# Shortest decimals

The decimal with the fewest digits among those that read back as a given value, and of
these the one nearest to the value. It is written without an exponent.
-/
namespace SourceGen.Binary64

/-- The reals that read back as a value, in quarters of its last place: the value, the ends
of the interval, and whether the ends belong to it. -/
structure Neighbourhood where
  value : Nat
  lower : Nat
  upper : Nat
  closed : Bool

/-- Below a power of two the values lie twice as close. -/
def neighbourhood (significand : Nat) (exponent : Int) : Neighbourhood where
  value := 4 * significand
  lower :=
    if significand = Nat.pow 2 (significandBits - 1) ∧ leastExponent < exponent then 4 * significand - 1
    else 4 * significand - 2
  upper := 4 * significand + 2
  closed := significand % 2 = 0

def powerRatio (base : Nat) (power : Int) : Nat × Nat :=
  (base.pow power.toNat, base.pow (-power).toNat)

/-- The number of digits of a positive quotient before the point, negative for zeros behind
it. Every positive value of the format times `10 ^ 400` has a digit before the point. -/
def magnitude (num den : Nat) : Int :=
  ((Nat.toDigits 10 (num * Nat.pow 10 400 / den)).length : Int) - 400

/-- The neighbour of the value on the grid of multiples of `10 ^ power` that reads back as
the value. If both do it is the nearer one, and at the same distance the one above. -/
def onGrid? (n : Neighbourhood) (exponent power : Int) : Option (Nat × Int) :=
  let (un, ud) := powerRatio 2 (exponent - 2)
  let (gn, gd) := powerRatio 10 power
  let unit := un * gd
  let grid := gn * ud
  let below := n.value * unit / grid
  let reads (c : Nat) : Bool :=
    if n.closed then n.lower * unit ≤ c * grid && c * grid ≤ n.upper * unit
    else n.lower * unit < c * grid && c * grid < n.upper * unit
  let nearBelow : Bool := 2 * n.value * unit < (2 * below + 1) * grid
  if reads below && (nearBelow || !reads (below + 1)) then some (below, power)
  else if reads (below + 1) then some (below + 1, power)
  else none

def shortest (significand : Nat) (exponent : Int) : Nat × Int :=
  let n := neighbourhood significand exponent
  let (un, ud) := powerRatio 2 (exponent - 2)
  let size := magnitude (n.value * un) ud
  ((List.range 17).findSome? fun (places : Nat) =>
    onGrid? n exponent (size - (places : Int) - 1)).getD (0, 0)

/-- Digits without zeros at the end, and the power of ten that goes with them. -/
def trimZeros : Nat → Nat × Int → Nat × Int
  | 0, x => x
  | fuel + 1, (digits, power) =>
    if digits ≠ 0 ∧ digits % 10 = 0 then trimZeros fuel (digits / 10, power + 1)
    else (digits, power)

/-- A decimal without an exponent, with at least one digit on each side of the point. -/
def positional (digits : Nat) (power : Int) : Text :=
  let ds := Text.ofNat digits ++ List.replicate power.toNat '0'
  let places := (-power).toNat
  let padded := List.replicate (places + 1 - ds.length) '0' ++ ds
  let whole := padded.take (padded.length - places)
  let fraction := padded.drop (padded.length - places)
  whole ++ '.' :: (if fraction = [] then ['0'] else fraction)

def text : Binary64 → Text
  | finite negative significand exponent =>
    let (digits, power) :=
      if significand = 0 then (0, 0) else trimZeros 20 (shortest significand exponent)
    (if negative then ['-'] else []) ++ positional digits power
  | infinity negative => (if negative then ['-'] else []) ++ "inf".toList
  | nan => "NaN".toList

end SourceGen.Binary64
