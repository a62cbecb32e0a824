import TypedLet.Ty.Basic

/-
The explicit casts and the conditions. Every type casts to Void. Numbers cast
to every scalar, Bool to Bool and Str, Str to itself; an array casts element by
element, and a tuple casts to a tuple of its length or decays to an array when
each of its elements casts to the element type.
-/
namespace TypedLet.Ty

/-- Whether a value of the type may be tested. -/
def isCondition : Ty → Bool
  | integer | float | bool | array _ => true
  | void | str | tuple _ => false

mutual
def castsTo : Ty → Ty → Bool
  | _, void => true
  | integer, d | float, d => d = integer || d = float || d = bool || d = str
  | bool, d => d = bool || d = str
  | str, d => d = str
  | array s, array d => s.castsTo d
  | tuple ss, array d => allCastTo ss d
  | tuple ss, tuple ds => eachCastsTo ss ds
  | _, _ => false
def allCastTo : List Ty → Ty → Bool
  | [], _ => true
  | s :: ss, d => s.castsTo d && allCastTo ss d
def eachCastsTo : List Ty → List Ty → Bool
  | [], [] => true
  | s :: ss, d :: ds => s.castsTo d && eachCastsTo ss ds
  | _, _ => false
end

end TypedLet.Ty
