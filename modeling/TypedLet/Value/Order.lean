import TypedLet.Value.Basic

/-
The order of values. Two scalars of one kind compare, arrays and tuples compare
item by item with a proper start below what it starts, and all else, a float
that is no number included, has no order.
-/
namespace TypedLet.Value

def order (less greater equal : Bool) : Option Ordering :=
  if less then some .lt
  else if greater then some .gt
  else if equal then some .eq
  else none

mutual
def compare : Value → Value → Option Ordering
  | int m, int n => order (m < n) (n < m) (m = n)
  | float x, float y => order (x < y) (y < x) (x == y)
  | bool a, bool b => order (!a && b) (a && !b) (a = b)
  | str s, str t => order (s < t) (t < s) (s = t)
  | array _ vs, array _ ws | tuple _ vs, tuple _ ws => compareAll vs ws
  | _, _ => none
def compareAll : List Value → List Value → Option Ordering
  | [], [] => some .eq
  | [], _ :: _ => some .lt
  | _ :: _, [] => some .gt
  | v :: vs, w :: ws =>
    match v.compare w with
    | some .eq => compareAll vs ws
    | decided => decided
end

end TypedLet.Value
