import TypedLet.Environment.Basic

/-
Actions on the scopes. An action reads and changes them and gives a result or an
error; the scopes come back in either case, so what an error leaves behind can
be spoken of.
-/
namespace TypedLet

def Action (ι α : Type) := Scopes ι → Except Error α × Scopes ι

namespace Action

def pure (a : α) : Action ι α := fun scopes => (.ok a, scopes)

def bind (x : Action ι α) (f : α → Action ι β) : Action ι β := fun scopes =>
  match x scopes with
  | (.ok a, after) => f a after
  | (.error e, after) => (.error e, after)

instance : Monad (Action ι) where
  pure := pure
  bind := bind

def fail (e : Error) : Action ι α := fun scopes => (.error e, scopes)

/-- Looks at the scopes and leaves them alone. -/
def inspect (f : Scopes ι → Except Error α) : Action ι α := fun scopes => (f scopes, scopes)

/-- Changes the scopes, or fails and leaves them alone. -/
def update (f : Scopes ι → Except Error (Scopes ι)) : Action ι Unit := fun scopes =>
  match f scopes with
  | .ok after => (.ok (), after)
  | .error e => (.error e, scopes)

/-- Runs under a new scope, which is left again however the action ends. -/
def inScope (x : Action ι α) : Action ι α := fun scopes =>
  match x (Scope.empty :: scopes) with
  | (result, after) =>
    match after.leave with
    | .ok outer => (result, outer)
    | .error e => (.error e, after)

end Action
end TypedLet
