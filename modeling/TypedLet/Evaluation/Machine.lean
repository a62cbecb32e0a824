import TypedLet.Pattern.Match

/-
The machine that programs run on, and its actions. A machine holds the scopes
and the text printed so far. A run ends in one of three ways: with a result,
with an error, or with nothing because its fuel is spent; only the last one says
nothing about the program.

The machine also keeps the scopes that matches gave up. A match that fails puts
the contents of all scopes back, and puts them into new tables; the tables it
had worked on keep what it assigned. Nothing a program does can see those again,
but whoever kept such a table can. Of each scope the first table given up is
kept, innermost scope first.
-/
namespace TypedLet

structure Machine where
  scopes : Scopes Value
  output : String
  abandoned : Scopes Value

def Machine.start (scopes : Scopes Value) : Machine := ⟨scopes, "", []⟩

inductive Outcome (α : Type) where
  | done (result : α) (after : Machine)
  | failed (error : Error) (after : Machine)
  | outOfFuel

def Eval (α : Type) := Machine → Outcome α

namespace Eval

def pure (a : α) : Eval α := .done a

def bind (x : Eval α) (f : α → Eval β) : Eval β := fun m =>
  match x m with
  | .done a after => f a after
  | .failed e after => .failed e after
  | .outOfFuel => .outOfFuel

instance : Monad Eval where
  pure := pure
  bind := bind

def outOfFuel : Eval α := fun _ => .outOfFuel

def ofExcept : Except Error α → Eval α
  | .ok a => .done a
  | .error e => .failed e

def fail (cause : Fault) (span : Option Span) : Eval α := .failed (.internal cause span)

def ofFault (x : Except Fault α) : Eval α :=
  match x with
  | .ok a => .done a
  | .error fault => fail fault none

/-- Runs an action on the scopes. -/
def onScopes (x : Action Value α) : Eval α := fun m =>
  match x m.scopes with
  | (.ok a, scopes) => .done a { m with scopes }
  | (.error e, scopes) => .failed e { m with scopes }

def print (text : String) : Eval Unit := fun m =>
  .done () { m with output := m.output ++ text }

/-- Changes the machine at the end, however that comes. -/
def closing (x : Eval α) (f : Machine → Except Error Machine) : Eval α := fun m =>
  match x m with
  | .done a after =>
    match f after with
    | .ok m => .done a m
    | .error e => .failed e after
  | .failed e after =>
    match f after with
    | .ok m => .failed e m
    | .error e => .failed e after
  | .outOfFuel => .outOfFuel

/-- Runs under a new scope, which is left again however the run ends. -/
def inScope (x : Eval α) : Eval α := fun m =>
  closing x (fun after => after.scopes.leave.map fun scopes => { after with scopes })
    { m with scopes := Scope.empty :: m.scopes }

/-- Runs on the `depth` outermost scopes and a new one. The scopes above them
    are set aside and come back at the end, while what happened to the outermost
    ones stays. -/
def inFrame (depth : Int) (x : Eval α) : Eval α := fun m =>
  match m.scopes.checkFrame depth with
  | .error e => .failed e m
  | .ok d =>
    closing x (fun after => .ok { after with
        scopes := m.scopes.innermost d ++ after.scopes.outermost d
        abandoned := after.abandoned.outermost (max d m.abandoned.length) })
      { m with scopes := Scope.empty :: m.scopes.outermost d }

/-- Repeats the body while the condition holds, at most `fuel` times. -/
def loop (cond : Eval Bool) (body : Eval Unit) : Nat → Eval Unit
  | 0, _ => .outOfFuel
  | fuel + 1, m =>
    match cond m with
    | .done true m =>
      match body m with
      | .done _ m => loop cond body fuel m
      | .failed e m => .failed e m
      | .outOfFuel => .outOfFuel
    | .done false m => .done () m
    | .failed e m => .failed e m
    | .outOfFuel => .outOfFuel

end Eval
end TypedLet
