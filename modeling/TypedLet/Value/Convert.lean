import TypedLet.Fault
import TypedLet.Value.Basic

/-
What values do as conditions, and how they convert. A conversion that the casts
allow succeeds; one that reaches a value it cannot convert is a fault. An array
or a tuple that records the wanted types already is left as it is.
-/
namespace TypedLet.Value

/-- Whether the value counts as true. -/
def truth : Value → Except Fault Bool
  | int n => .ok (n ≠ 0)
  | float x => .ok (x != 0)
  | bool b => .ok b
  | array _ items => .ok !items.isEmpty
  | v => .error (.condition v.type)

def ofInt (n : Int) : Value := int (Int64.ofInt n)

mutual
def convert : Value → Ty → Except Fault Value
  | _, .void => .ok void
  | int n, .integer => .ok (int n)
  | int n, .float => .ok (float (Float.ofInt n.toInt))
  | int n, .bool => .ok (bool (n ≠ 0))
  | int n, .str => .ok (str (toString n.toInt))
  | float x, .integer => .ok (int (Decimal.toInt64 x))
  | float x, .float => .ok (float x)
  | float x, .bool => .ok (bool (x != 0))
  | float x, .str => .ok (str (Decimal.text x))
  | bool b, .bool => .ok (bool b)
  | bool b, .str => .ok (str (boolText b))
  | str s, .str => .ok (str s)
  | array element items, .array target =>
    if target = element then .ok (array element items)
    else (convertAll items target).map (array target)
  | tuple types items, .tuple targets =>
    if targets = types then .ok (tuple types items)
    else if targets.length ≠ items.length then .error (.conversion (.tuple types) (.tuple targets))
    else (convertEach items targets).map (tuple targets)
  | tuple _ items, .array target => (convertAll items target).map (array target)
  | v, target => .error (.conversion v.type target)
/-- All items to one type. -/
def convertAll : List Value → Ty → Except Fault (List Value)
  | [], _ => .ok []
  | v :: vs, target =>
    match v.convert target with
    | .ok w => (convertAll vs target).map (w :: ·)
    | .error fault => .error fault
/-- Each item to the type at its place. -/
def convertEach : List Value → List Ty → Except Fault (List Value)
  | v :: vs, target :: targets =>
    match v.convert target with
    | .ok w => (convertEach vs targets).map (w :: ·)
    | .error fault => .error fault
  | _, _ => .ok []
end

end TypedLet.Value
