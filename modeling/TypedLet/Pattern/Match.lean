import TypedLet.Environment.Action
import TypedLet.Pattern.Shape

/-
Matching a value against a pattern. A variable takes the value over, a literal
asks for an equal value, and an array or a tuple asks for the same number of
items and matches them from left to right, up to the first that does not match.
What was assigned by then stays assigned; undoing it is left to the caller.
-/
namespace TypedLet
namespace Expr

def assignValue (name : String) (v : Value) : Action Value Unit :=
  Action.update fun scopes => scopes.assign name v

mutual
def matchValue : Expr → Value → Action Value Bool
  | var name _, v => do
    assignValue name v
    pure true
  | literal w _, v => pure (w.same v)
  | array parts _ _ span, v =>
    match v with
    | .array _ items =>
      if parts.length = items.length then matchItems parts items else pure false
    | v => Action.fail (.internal (.arrayPattern v.type) span)
  | tuple parts span, v =>
    match v with
    | .tuple _ items =>
      if parts.length = items.length then matchItems parts items else pure false
    | v => Action.fail (.internal (.tuplePattern v.type) span)
  | e, _ => Action.fail e.forbiddenError
def matchItems : List Expr → List Value → Action Value Bool
  | p :: ps, v :: vs => do
    if ← p.matchValue v then matchItems ps vs else pure false
  | _, _ => pure true
end

end Expr
end TypedLet
