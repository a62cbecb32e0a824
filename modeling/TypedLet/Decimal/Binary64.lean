/-
The exact value of a binary64 number. A finite number is m * 2^q for a natural m
and an integer q; its sign is kept apart. Conversion to a 64-bit integer drops
the fraction and stops at the bounds.
-/
namespace TypedLet.Decimal

/-- The magnitude `significand * 2 ^ exponent`. The flag says that the number
    below is only half as far away as the number above. -/
structure Binary where
  significand : Nat
  exponent : Int
  closeBelow : Bool
deriving DecidableEq, Repr

inductive Class where
  | finite (negative : Bool) (magnitude : Binary)
  | infinite (negative : Bool)
  | notANumber
deriving DecidableEq, Repr

def classify (x : Float) : Class :=
  let bits : Nat := x.toBits.toNat
  let negative : Bool := bits / Nat.pow 2 63 = 1
  let biased : Nat := bits / Nat.pow 2 52 % Nat.pow 2 11
  let fraction : Nat := bits % Nat.pow 2 52
  if biased = 2047 then
    if fraction = 0 then .infinite negative else .notANumber
  else if biased = 0 then .finite negative ⟨fraction, -1074, false⟩
  else .finite negative ⟨Nat.pow 2 52 + fraction, biased - 1075, fraction = 0 && biased ≠ 1⟩

namespace Binary

def isIntegral (b : Binary) : Bool :=
  0 ≤ b.exponent || b.significand % Nat.pow 2 (-b.exponent).toNat = 0

/-- The magnitude without its fraction. -/
def truncated (b : Binary) : Nat :=
  if 0 ≤ b.exponent then b.significand * Nat.pow 2 b.exponent.toNat
  else b.significand / Nat.pow 2 (-b.exponent).toNat

end Binary

def signed (negative : Bool) (n : Nat) : Int := if negative then -n else n

/-- Toward zero, stopping at the 64-bit bounds; no number gives zero. -/
def toInt64 (x : Float) : Int64 :=
  match classify x with
  | .notANumber => 0
  | .infinite negative => if negative then Int64.minValue else Int64.maxValue
  | .finite negative b =>
    let n := signed negative b.truncated
    if n ≥ Int64.maxValue.toInt then Int64.maxValue
    else if n ≤ Int64.minValue.toInt then Int64.minValue
    else Int64.ofInt n

end TypedLet.Decimal
