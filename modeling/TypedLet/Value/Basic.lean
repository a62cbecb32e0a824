import TypedLet.Decimal.Text
import TypedLet.Ty.Basic

/-
Values. Integers are 64-bit words and wrap. Arrays and tuples carry their
element types, so an empty array still knows its own; nothing here asks that
the contents agree with them.
-/
namespace TypedLet

inductive Value where
  | void
  | int (n : Int64)
  | float (x : Float)
  | bool (b : Bool)
  | str (s : String)
  | array (element : Ty) (items : List Value)
  | tuple (types : List Ty) (items : List Value)
deriving Inhabited

namespace Value

def type : Value → Ty
  | void => .void
  | int _ => .integer
  | float _ => .float
  | bool _ => .bool
  | str _ => .str
  | array element _ => .array element
  | tuple types _ => .tuple types

/-- A tuple that records the types its items have. -/
def tupleOf (items : List Value) : Value := tuple (items.map type) items

def boolText (b : Bool) : String := if b then "true" else "false"

mutual
def display : Value → String
  | void => "nil"
  | int n => toString n.toInt
  | float x => Decimal.display x
  | bool b => boolText b
  | str s => s
  | array _ items => "[" ++ Text.joined ", " (displayAll items) ++ "]"
  | tuple _ items => "\x7b" ++ Text.joined ", " (displayAll items) ++ "\x7d"
def displayAll : List Value → List String
  | [] => []
  | v :: vs => v.display :: displayAll vs
end

mutual
/-- Structural equality. Recorded types count, and floats compare as numbers. Which object a
    value is does not count: a NaN is unequal even to itself, in an array as well, where a
    comparison that asks first for the same object would find it equal. -/
def same : Value → Value → Bool
  | void, void => true
  | int m, int n => m = n
  | float x, float y => x == y
  | bool a, bool b => a = b
  | str s, str t => s = t
  | array s vs, array t ws => s = t && sameAll vs ws
  | tuple ss vs, tuple ts ws => ss = ts && sameAll vs ws
  | _, _ => false
def sameAll : List Value → List Value → Bool
  | [], [] => true
  | v :: vs, w :: ws => v.same w && sameAll vs ws
  | _, _ => false
end

end Value
end TypedLet
