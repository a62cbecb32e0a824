import TypedLet.Error
import TypedLet.Value.Convert
import TypedLet.Value.Order

/-
What the operators compute. Integers wrap at 64 bits; their division goes
toward zero. Floats follow IEEE 754, and two of them are equal by `=` when they
lie within the machine epsilon of each other, while `<>` compares structure.
-/
namespace TypedLet

def wrongTypes (name : String) (args : List Value) : Error :=
  .internal (.argumentTypes name (args.map (·.type))) none

/-- The distance from 1 to the next float, `2 ^ -52`. -/
def epsilon : Float := Float.ofBits 0x3CB0000000000000

def Value.equal : Value → Value → Bool
  | .float x, .float y => (x - y).abs < epsilon
  | v, w => v.same w

namespace BinaryOp

def apply (op : BinaryOp) (v w : Value) : Except Error Value :=
  match op, v, w with
  | add, .int m, .int n => .ok (.int (m + n))
  | add, .float x, .float y => .ok (.float (x + y))
  | add, .str s, .str t => .ok (.str (s ++ t))
  | sub, .int m, .int n => .ok (.int (m - n))
  | sub, .float x, .float y => .ok (.float (x - y))
  | mul, .int m, .int n => .ok (.int (m * n))
  | mul, .float x, .float y => .ok (.float (x * y))
  | div, .int m, .int n => if n = 0 then .error .divisionByZero else .ok (.int (m / n))
  | div, .float x, .float y => .ok (.float (x / y))
  | lt, v, w => .ok (.bool (v.compare w = some .lt))
  | le, v, w => .ok (.bool (v.compare w = some .lt || v.compare w = some .eq))
  | gt, v, w => .ok (.bool (v.compare w = some .gt))
  | ge, v, w => .ok (.bool (v.compare w = some .gt || v.compare w = some .eq))
  | eq, v, w => .ok (.bool (v.equal w))
  | ne, v, w => .ok (.bool !(v.same w))
  | op, v, w => .error (wrongTypes op.symbol [v, w])

end BinaryOp

namespace UnaryOp

/-- The name under which a unary operator is called. -/
def name (op : UnaryOp) : String := "un" ++ op.symbol

def apply (op : UnaryOp) (v : Value) : Except Error Value :=
  match op, v with
  | plus, .int n => .ok (.int n)
  | plus, .float x => .ok (.float x)
  | minus, .int n => .ok (.int (-n))
  | minus, .float x => .ok (.float (-x))
  | op, v => .error (wrongTypes op.name [v])

end UnaryOp
end TypedLet
