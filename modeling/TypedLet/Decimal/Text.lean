import TypedLet.Decimal.Shortest

/-
The text of a float. An integral number is written with all its digits, any
other with the fewest that read back: with a point down to exponent -4, and
below that as `d.ddde-XX`.
-/
namespace TypedLet.Decimal

/-- At least two digits. -/
def exponentText (n : Nat) : String :=
  if n < 10 then "0" ++ toString n else toString n

/-- The text of a number whose exponent is negative. -/
def Scientific.text (d : Scientific) : String :=
  let digits := (toString d.digits).toList
  let fraction := (-d.exponent).toNat
  let leading := (digits.length : Int) - 1 + d.exponent
  if leading < -4 then
    let rest := digits.drop 1
    String.ofList (digits.take 1 ++ (if rest.isEmpty then [] else '.' :: rest))
      ++ "e-" ++ exponentText (-leading).toNat
  else
    let padded := List.replicate (fraction + 1 - digits.length) '0' ++ digits
    let whole := padded.length - fraction
    String.ofList (padded.take whole ++ '.' :: padded.drop whole)

def signText (negative : Bool) : String := if negative then "-" else ""

/-- The text of a float as a string; the mark is put behind an integral number. -/
def textWith (mark : String) (x : Float) : String :=
  match classify x with
  | .notANumber => "NaN"
  | .infinite negative => signText negative ++ "inf"
  | .finite negative b =>
    if b.isIntegral then toString (signed negative b.truncated) ++ mark
    else signText negative ++ b.shortest.text

/-- The text that a cast to Str gives. -/
def text (x : Float) : String := textWith "" x

/-- The text that is printed: an integral number ends in a point, to tell it
    from an integer. -/
def display (x : Float) : String := textWith "." x

end TypedLet.Decimal
