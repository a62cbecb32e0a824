import TypedLet.Error

/-
Which expressions may stand as a pattern: variables, literals, and arrays and
tuples of patterns.
-/
namespace TypedLet

namespace Expr

mutual
/-- The first part that may not stand in a pattern. -/
def forbidden? : Expr → Option Expr
  | var .. | literal .. => none
  | array items _ _ _ | tuple items _ => anyForbidden? items
  | e => some e
def anyForbidden? : List Expr → Option Expr
  | [] => none
  | e :: es =>
    match e.forbidden? with
    | some part => some part
    | none => anyForbidden? es
end

/-- The complaint about a part that may not stand in a pattern. -/
def forbiddenError (part : Expr) : Error := .internal (.forbiddenPattern part.form) part.span

def requirePattern (e : Expr) : Except Error Unit :=
  match e.forbidden? with
  | some part => .error part.forbiddenError
  | none => .ok ()

end Expr
end TypedLet
