import TypedLet.Decimal.Binary64

/-
The shortest decimal that reads back. The numbers that round to m * 2^q form an
interval, whose ends belong to it when m is even. On the grid of the multiples
of 10^k the value has a neighbour below and one above; the coarsest grid on
which one of them lies in the interval gives the digits. Of two that do, the
nearer is taken, and of two equally near the even one.
-/
namespace TypedLet.Decimal

/-- The number `digits * 10 ^ exponent`. -/
structure Scientific where
  digits : Nat
  exponent : Int
deriving DecidableEq, Repr

/-- An interval around a value, all three over one denominator. -/
structure Interval where
  low : Nat
  value : Nat
  high : Nat
  denominator : Nat
  closed : Bool

def Interval.holds (i : Interval) (n : Nat) : Bool :=
  if i.closed then i.low ≤ n && n ≤ i.high else i.low < n && n < i.high

/-- In quarters of the unit of the last place. -/
def Binary.interval (b : Binary) : Interval :=
  let scale := Nat.pow 2 b.exponent.toNat
  { low := (4 * b.significand - if b.closeBelow then 1 else 2) * scale
    value := 4 * b.significand * scale
    high := (4 * b.significand + 2) * scale
    denominator := 4 * Nat.pow 2 (-b.exponent).toNat
    closed := b.significand % 2 = 0 }

/-- The neighbour on the grid of the multiples of `10 ^ k` that reads back. -/
def Interval.onGrid (i : Interval) (k : Int) : Option Nat :=
  let step := i.denominator * Nat.pow 10 k.toNat
  let scale := Nat.pow 10 (-k).toNat
  let i := { i with low := i.low * scale, value := i.value * scale, high := i.high * scale }
  let below := i.value / step
  let above := below + 1
  let gapBelow := i.value - below * step
  let gapAbove := above * step - i.value
  match i.holds (below * step), i.holds (above * step) with
  | true, false => some below
  | false, true => some above
  | true, true =>
    if gapBelow < gapAbove then some below
    else if gapAbove < gapBelow then some above
    else if below % 2 = 0 then some below else some above
  | false, false => none

/-- The first hit on the grids `top`, `top - 1`, and so on. -/
def Interval.coarsest (i : Interval) (top : Int) : Nat → Option Scientific
  | 0 => none
  | tries + 1 =>
    match i.onGrid top with
    | some digits => some ⟨digits, top⟩
    | none => i.coarsest (top - 1) tries

/-- Every positive binary64 number has a decimal of seventeen digits that reads
    back, so the grids from `10 ^ 309` to `10 ^ -343` hold one. -/
def Binary.shortest (b : Binary) : Scientific :=
  let top : Int := if b.exponent < 0 then 16 else 309
  (b.interval.coarsest top 653).getD ⟨0, 0⟩

end TypedLet.Decimal
