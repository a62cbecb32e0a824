import TypedLet.Checking.Infer
import TypedLet.Diagnostic.OfError

/-
The diagnostic of a program. Only type errors are diagnosed; a pattern that may
not stand as one is an error of whoever built the tree, and stays an error.
-/
namespace TypedLet

/-- The diagnostic of the first type error, if there is one. -/
def Tree.diagnose (t : Tree) : Except Error (Option Diagnostic) :=
  match t.check with
  | .ok _ => .ok none
  | .error (.typing cause span) => .ok (some (cause.diagnostic [] span))
  | .error e => .error e

end TypedLet
