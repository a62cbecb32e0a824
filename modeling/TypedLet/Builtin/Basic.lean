import TypedLet.Builtin.Operator

/-
The builtins: the operators and the two printers, their signatures and their
calls. A signature is tried in order, and the first that the argument types fit
gives the result. The six comparisons ask moreover that both sides have one and
the same type.
-/
namespace TypedLet

inductive Builtin where
  | binary (op : BinaryOp)
  | unary (op : UnaryOp)
  | print
  | println
deriving DecidableEq, Repr

structure Signature where
  params : List TypePattern
  result : Ty

def Signature.accepts (s : Signature) (types : List Ty) : Bool :=
  Ty.eachFits TypePattern.standardTable types s.params

namespace Builtin

def name : Builtin → String
  | binary op => op.symbol
  | unary op => op.name
  | print => "print"
  | println => "println"

/-- All of them, in the order in which they are listed. -/
def all : List Builtin :=
  [binary .add, binary .sub, binary .mul, binary .div, binary .lt, binary .le, binary .gt,
   binary .ge, binary .eq, binary .ne, unary .plus, unary .minus, print, println]

def names : List String := all.map name

def find? (name : String) : Option Builtin := all.find? (·.name = name)

def arity : Builtin → Nat
  | binary _ => 2
  | unary _ | print | println => 1

/-- A signature whose parameters and result are of one type. -/
def closedOn (arity : Nat) (t : Ty) : Signature := ⟨List.replicate arity (.exactly t), t⟩

def signatures : Builtin → List Signature
  | binary .add => [closedOn 2 .integer, closedOn 2 .float, closedOn 2 .str]
  | binary .sub | binary .mul | binary .div => [closedOn 2 .integer, closedOn 2 .float]
  | binary _ => [⟨[.named "Comparable", .named "Comparable"], .bool⟩]
  | unary _ => [closedOn 1 .integer, closedOn 1 .float]
  | print | println => [⟨[.any], .void⟩]

/-- Whether all arguments must share one type. -/
def sameTypes : Builtin → Bool
  | binary .lt | binary .le | binary .gt | binary .ge | binary .eq | binary .ne => true
  | _ => false

def allEqual : List Ty → Bool
  | [] => true
  | t :: ts => ts.all (· = t)

/-- The result type for arguments of the given types, if some signature accepts
    them. -/
def resultFor (b : Builtin) (types : List Ty) : Option Ty :=
  if b.sameTypes && !allEqual types then none
  else (b.signatures.find? (·.accepts types)).map (·.result)

/-- The result of a call and what it prints. -/
def call (b : Builtin) (args : List Value) : Except Error (Value × String) :=
  match b, args with
  | binary op, [v, w] => (op.apply v w).map (·, "")
  | unary op, [v] => (op.apply v).map (·, "")
  | print, [v] => .ok (.void, v.display)
  | println, [v] => .ok (.void, v.display ++ "\n")
  | b, args => .error (.internal (.argumentCount b.name b.arity args.length) none)

/-- The call of a builtin by its name. -/
def callNamed (name : String) (args : List Value) : Except Error (Value × String) :=
  match find? name with
  | some b => b.call args
  | none => .error (.internal (.noSuchBuiltin name) none)

end Builtin
end TypedLet
