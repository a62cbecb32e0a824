import TypedLet.Ty.Basic

/-
Broken invariants: what goes wrong when a tree is evaluated that was never
checked, or when an environment is used out of order. A checked program never
meets one.
-/
namespace TypedLet

inductive Fault where
  | noScopeToLeave
  | noScopeToDeclareIn
  | snapshotDepth (saved live : Nat)
  | frameDepth (depth : Int) (scopes : Nat)
  | nothingToAssign (name : String)
  | assignedOutsideEvaluation (name : String)
  | unboundAtRuntime (name : String)
  | noSuchBuiltin (name : String)
  | argumentCount (name : String) (expected got : Nat)
  | argumentTypes (name : String) (types : List Ty)
  | conversion (source target : Ty)
  | condition (type : Ty)
  | emptyArray
  | forbiddenPattern (form : String)
  | arrayPattern (type : Ty)
  | tuplePattern (type : Ty)
  | other (message : String)

def Fault.message : Fault → String
  | noScopeToLeave => "Tried to leave a scope when not in a scope"
  | noScopeToDeclareIn => "Trying to declare out of scope"
  | snapshotDepth saved live =>
    "Snapshot depth " ++ toString saved ++ " does not match current depth " ++ toString live
  | frameDepth depth scopes =>
    "Invalid defining depth " ++ toString depth ++ " for a stack of "
      ++ toString scopes ++ " scopes"
  | nothingToAssign name => "Could not find variable " ++ name ++ " in current scope"
  | assignedOutsideEvaluation name => "Cannot assign a value to `" ++ name ++ "` outside evaluation"
  | unboundAtRuntime name => "Unbounded variable at runtime: " ++ name
  | noSuchBuiltin name => "No such builtin: " ++ name
  | argumentCount name expected got =>
    "Wrong number of arguments in `" ++ name ++ "`: expected " ++ toString expected
      ++ ", got " ++ toString got
  | argumentTypes name types =>
    "Wrong type of arguments in `" ++ name ++ "`: " ++ Ty.displayList types
  | conversion source target =>
    "Unnatural conversion at runtime: " ++ source.display ++ " to " ++ target.display
  | condition type => "Invalid value truthy-checked: " ++ type.display
  | emptyArray => "Untyped empty array at runtime"
  | forbiddenPattern form => "Forbidden pattern: " ++ form
  | arrayPattern type => "Wrong pattern: array against " ++ type.display
  | tuplePattern type => "Wrong pattern: tuple against " ++ type.display
  | other message => message

end TypedLet
