import TypedLet.Checking.Infer
import TypedLet.Evaluation.Run
import TypedLet.Workspace.Command

/-
The two uses of a workspace. Where variables carry types, its tasks are checks
and no value can be assigned; where they carry values, its tasks are runs of
programs, matches and calls.
-/
namespace TypedLet
namespace Workspace

inductive TypeTask where
  | check (tree : Tree)
  | checkFn (decl : FnDecl)

/-- Variables carry types, and trees are checked. -/
def typePass : Pass Ty TypeTask Ty where
  assign name _ := fun scopes =>
    match scopes.findVar name with
    | some _ => (.error (.internal (.assignedOutsideEvaluation name) none), scopes)
    | none => (.error (.internal (.nothingToAssign name) none), scopes)
  perform task scopes :=
    let (answer, after) := match task with
      | .check tree => tree.infer scopes
      | .checkFn decl => Expr.checkFn decl scopes
    some ⟨answer, "", after, []⟩

inductive ValueTask where
  | eval (tree : Tree)
  | tryMatch (pattern : Expr) (v : Value)
  | matchOnly (pattern : Expr) (v : Value)
  | call (decl : FnDecl) (args : List Value) (depth : Int)

inductive ValueResult where
  | value (v : Value)
  | matched (yes : Bool)

def ValueTask.run (fuel : Nat) : ValueTask → Eval ValueResult
  | eval tree => do
    let v ← tree.eval fuel
    pure (.value v)
  | tryMatch pattern v => do
    let yes ← Eval.tryMatch pattern v
    pure (.matched yes)
  | matchOnly pattern v => do
    let yes ← Eval.onScopes (pattern.matchValue v)
    pure (.matched yes)
  | call decl args depth => do
    let v ← Eval.callFn (Expr.eval fuel) decl args depth
    pure (.value v)

/-- Variables carry values, and trees are evaluated. -/
def valuePass (fuel : Nat) : Pass Value ValueTask ValueResult where
  assign name v := Expr.assignValue name v
  perform task scopes :=
    match task.run fuel (Machine.start scopes) with
    | .done result m => some ⟨.ok result, m.output, m.scopes, m.abandoned⟩
    | .failed e m => some ⟨.error e, m.output, m.scopes, m.abandoned⟩
    | .outOfFuel => none

end Workspace
end TypedLet
