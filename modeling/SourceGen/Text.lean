/-!
# Text

Generated source is a list of characters. Lengths that leave the library are counted
in UTF-8 bytes.
-/
namespace SourceGen

abbrev Text := List Char

namespace Text

def byteLength : Text → Nat
  | [] => 0
  | c :: t => c.utf8Size + byteLength t

def isBreak (c : Char) : Bool := c == '\n' || c == '\r'

def BreakFree (t : Text) : Prop := ∀ c ∈ t, isBreak c = false

instance (t : Text) : Decidable (BreakFree t) := List.decidableBAll (isBreak · = false) t

def ofNat (n : Nat) : Text := Nat.toDigits 10 n

/-- Decimal digits after a minus sign where one is needed. -/
def ofInt : Int → Text
  | .ofNat n => ofNat n
  | .negSucc n => '-' :: ofNat (n + 1)

@[simp] theorem byteLength_nil : byteLength [] = 0 := rfl

@[simp] theorem byteLength_cons (c : Char) (t : Text) :
    byteLength (c :: t) = c.utf8Size + byteLength t := rfl

@[simp] theorem byteLength_append (s t : Text) :
    byteLength (s ++ t) = byteLength s + byteLength t := by
  induction s with
  | nil => simp
  | cons c s ih => simp [ih, Nat.add_assoc]

end Text

end SourceGen
