import TypedLet.Expr
import TypedLet.Fault
import TypedLet.Ty.Pattern

/-
Errors. A type error is the program's fault and carries all that a diagnostic
shows; an internal error is a broken invariant; the division of an integer by
zero is the one error that a checked program can end in.
-/
namespace TypedLet

/-- Where the element type of an array literal comes from. -/
inductive ElementOrigin where
  | declared
  | firstItem
deriving DecidableEq, Repr

def ElementOrigin.text : ElementOrigin → String
  | declared => "explicit"
  | firstItem => "first element"

inductive TypeError where
  | conversion (source target : Ty)
  | alreadyDeclared (name : String) (first : Declaration)
  | noSuchSignature (name : String) (args : List Ty)
  | unboundVariable (name : String) (visible : List String)
  | undefinedFunction (name : String) (visible : List String)
  | mismatch (expected : TypePattern) (got : Ty) (binding : Option Declaration)
  | voidVariable (name : String)
  | armMismatch (whenTrue whenFalse : Ty) (trueSpan : Option Span)
  | untypedEmptyArray
  | itemMismatch (expected got : Ty) (index : Int) (origin : ElementOrigin)
      (originSpan : Option Span)

def TypeError.message : TypeError → String
  | conversion source target =>
    "Unnatural conversion from " ++ source.display ++ " to " ++ target.display
  | alreadyDeclared name _ => "`" ++ name ++ "` was already declared"
  | noSuchSignature name args =>
    "No such signature: " ++ name ++ "(" ++ Ty.displayList args ++ ")"
  | unboundVariable name _ => "Unbounded variable: " ++ name
  | undefinedFunction name _ => "Undefined function: " ++ name
  | mismatch expected got _ =>
    "Mismatched types: expected `" ++ expected.display ++ "`, got `" ++ got.display ++ "`"
  | voidVariable name => "Variable `" ++ name ++ "` cannot be declared with a Void value"
  | armMismatch whenTrue whenFalse _ =>
    "If arms have incompatible types: true branch `" ++ whenTrue.display
      ++ "`, false branch `" ++ whenFalse.display ++ "`"
  | untypedEmptyArray => "Cannot infer the type of an empty array"
  | itemMismatch expected got index origin _ =>
    "Array element " ++ toString index ++ " has type `" ++ got.display ++ "`, expected `"
      ++ expected.display ++ "` (from the " ++ origin.text ++ ")"

inductive Error where
  | typing (cause : TypeError) (span : Option Span)
  | internal (cause : Fault) (span : Option Span)
  | general (text : String) (span : Option Span)
  | divisionByZero

namespace Error

def message : Error → String
  | typing cause _ => cause.message
  | internal cause _ => cause.message
  | general text _ => text
  | divisionByZero => "division by zero"

def span : Error → Option Span
  | typing _ s | internal _ s | general _ s => s
  | divisionByZero => none

def isTypeError : Error → Bool
  | typing .. => true
  | _ => false

/-- The message behind its span. -/
def display (e : Error) : String := Span.label e.span e.message

end Error
end TypedLet
