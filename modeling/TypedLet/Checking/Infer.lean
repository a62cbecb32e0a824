import TypedLet.Environment.Action
import TypedLet.Pattern.Shape
import TypedLet.Ty.Cast

/-
The type of an expression, or the first error in it. Parts are visited in the
order in which they are written. A let checks and declares its variables one by
one, then declares all its functions, then checks their bodies, so functions see
each other and a variable never sees itself. Types must agree exactly; nothing
is widened.
-/
namespace TypedLet

/-- An action of the checker: each variable carries its type. -/
abbrev Check := Action Ty

def reject (cause : TypeError) (span : Option Span) : Check α := Action.fail (.typing cause span)

namespace Expr

def requireCondition (type : Ty) (span : Option Span) : Check Unit :=
  if type.isCondition then pure () else reject (.conversion type .bool) span

def requireInteger (type : Ty) (span : Option Span) : Check Unit :=
  if type = .integer then pure ()
  else reject (.mismatch (.exactly .integer) type none) span

/-- The type of an assignment of a value of the given type. -/
def inferAssign (name : String) (nameSpan : Option Span) (got : Ty) (valueSpan : Option Span) :
    Check Ty := do
  let binding ← Action.inspect (·.lookupVar name nameSpan)
  if binding.info = got then pure got
  else reject (.mismatch (.exactly binding.info) got (some binding.decl)) valueSpan

def inferBuiltin (b : Builtin) (types : List Ty) (span : Option Span) : Check Ty :=
  match b.resultFor types with
  | some result => pure result
  | none => reject (.noSuchSignature b.name types) span

/-- A function of the program wins over a builtin of the same name. -/
def inferCall (name : String) (types : List Ty) (span : Option Span) : Check Ty := do
  match ← Action.inspect (fun scopes => .ok (scopes.findFn name)) with
  | some f =>
    match f.resultFor types with
    | some result => pure result
    | none => reject (.noSuchSignature name types) span
  | none =>
    match Builtin.find? name with
    | some b => inferBuiltin b types span
    | none => Action.inspect fun scopes =>
        .error (.typing (.undefinedFunction name scopes.visibleFns) span)

/-- Every item must have the element type. -/
def requireItems (element : Ty) (origin : ElementOrigin) (originSpan : Option Span) :
    Nat → List Expr → List Ty → Check Unit
  | index, e :: es, t :: ts =>
    if t = element then requireItems element origin originSpan (index + 1) es ts
    else reject (.itemMismatch element t index origin originSpan) e.span
  | _, _, _ => pure ()

def declareFns : List FnDecl → Check Unit
  | [] => pure ()
  | f :: fs => do
    Action.update (Scopes.declareFn f)
    declareFns fs

def declareArgs : List ArgDecl → Check Unit
  | [] => pure ()
  | a :: as => do
    Action.update (Scopes.declareVar (.arg a) a.type)
    declareArgs as

/-- The type of expressions in a row is that of the last one. -/
def rowType (types : List Ty) : Ty := types.getLast?.getD .void

mutual

def infer : Expr → Check Ty
  | literal v _ => pure v.type
  | var name span => do
    let binding ← Action.inspect (·.lookupVar name span)
    pure binding.info
  | group body _ => do
    let types ← inferAll body
    pure (rowType types)
  | letIn vars fns body _ => Action.inScope do
    checkVars vars
    declareFns fns
    checkFns fns
    let types ← inferAll body
    pure (rowType types)
  | assign name value nameSpan _ => do
    let got ← value.infer
    inferAssign name nameSpan got value.span
  | matchWith pattern value _ => do
    Action.inspect fun _ => pattern.requirePattern
    match pattern with
    | var name nameSpan =>
      let got ← value.infer
      let _ ← inferAssign name nameSpan got value.span
      pure .bool
    | pattern =>
      let expected ← pattern.infer
      let got ← value.infer
      if expected = got then pure .bool
      else reject (.mismatch (.exactly expected) got none) value.span
  | call name args span => do
    let types ← inferAll args
    inferCall name types span
  | ifElse cond whenTrue whenFalse _ => do
    requireCondition (← cond.infer) cond.span
    let trueType ← whenTrue.infer
    let falseType ← whenFalse.infer
    if trueType = falseType then pure trueType
    else reject (.armMismatch trueType falseType whenTrue.span) whenFalse.span
  | whileDo cond body _ => do
    requireCondition (← cond.infer) cond.span
    let _ ← body.infer
    pure .void
  | forTo ⟨name, start, declSpan⟩ goal body _ => do
    Action.inScope do
      requireInteger (← start.infer) start.span
      requireInteger (← goal.infer) goal.span
      Action.update (Scopes.declareVar (.var ⟨name, start, declSpan⟩) .integer)
      let _ ← body.infer
    pure .void
  | binary left op right span => do
    let leftType ← left.infer
    let rightType ← right.infer
    inferBuiltin (.binary op) [leftType, rightType] span
  | unary op operand span => do
    let type ← operand.infer
    inferBuiltin (.unary op) [type] span
  | cast operand target _ => do
    let source ← operand.infer
    if source.castsTo target then pure target
    else reject (.conversion source target) operand.span
  | array items (some element) elementSpan _ => do
    let types ← inferAll items
    requireItems element .declared elementSpan 0 items types
    pure (.array element)
  | array items none _ span => do
    let types ← inferAll items
    match items, types with
    | first :: _, element :: _ =>
      requireItems element .firstItem first.span 0 items types
      pure (.array element)
    | _, _ => reject .untypedEmptyArray span
  | tuple items _ => do
    let types ← inferAll items
    pure (.tuple types)

def inferAll : List Expr → Check (List Ty)
  | [] => pure []
  | e :: es => do
    let type ← e.infer
    let types ← inferAll es
    pure (type :: types)

/-- Checks and declares one after another. -/
def checkVars : List VarDecl → Check Unit
  | [] => pure ()
  | ⟨name, value, span⟩ :: rest => do
    let type ← value.infer
    if type = .void then reject (.voidVariable name) value.span
    else
      Action.update (Scopes.declareVar (.var ⟨name, value, span⟩) type)
      checkVars rest

/-- The body of a function has exactly the declared result type, under a scope
    that holds the arguments. -/
def checkFn : FnDecl → Check Ty
  | ⟨name, args, result, body, span⟩ => do
    Action.inScope do
      declareArgs args
      let got ← body.infer
      if got = result then pure ()
      else
        reject (.mismatch (.exactly result) got (some (.fn ⟨name, args, result, body, span⟩)))
          body.span
    pure result

def checkFns : List FnDecl → Check Unit
  | [] => pure ()
  | f :: fs => do
    let _ ← checkFn f
    checkFns fs

end

end Expr

namespace Tree

def infer : Tree → Check Ty
  | expr e => e.infer
  | block body => do
    let types ← Expr.inferAll body
    pure (Expr.rowType types)

/-- The type of a whole program. -/
def check (t : Tree) : Except Error Ty := (t.infer []).1

end Tree
end TypedLet
