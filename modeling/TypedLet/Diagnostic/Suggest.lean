import TypedLet.Text.EditDistance
import TypedLet.Text.Lowercase

/-
Names that were perhaps meant. A name is close when few edits lead to it,
capitals apart; the closest come first, and equally close ones in the order of
their code points.
-/
namespace TypedLet.Suggest

structure Limits where
  distance : Int
  count : Int

def Limits.standard : Limits := ⟨2, 3⟩

def distance (s t : String) : Nat :=
  Text.EditDistance.distance (Text.Lowercase.text s) (Text.Lowercase.text t)

/-- The candidate and its distance, unless it is the name itself or too far. Texts
    whose lengths are too far apart are not compared. -/
def score (limits : Limits) (name candidate : String) : Option (Nat × String) :=
  if candidate = name || ((candidate.length : Int) - name.length).natAbs > limits.distance then none
  else
    let d := distance name candidate
    if d ≤ limits.distance then some (d, candidate) else none

def before (a b : Nat × String) : Bool :=
  a.1 < b.1 || (a.1 = b.1 && a.2 ≤ b.2)

/-- The first `count` items; a negative count leaves out as many at the end. -/
def firstFew (count : Int) (names : List String) : List String :=
  if 0 ≤ count then names.take count.toNat
  else names.take (names.length - (-count).toNat)

def similar (limits : Limits) (name : String) (candidates : List String) : List String :=
  let scored := (candidates.filterMap (score limits name)).mergeSort before
  firstFew limits.count (scored.map (·.2))

end TypedLet.Suggest
