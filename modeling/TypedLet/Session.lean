import TypedLet.Checking.Diagnose
import TypedLet.Evaluation.Run

/-
A session. A tree is checked against no declarations at all and, if it is
accepted, evaluated against the scopes of the session, which last from one tree
to the next.
-/
namespace TypedLet

structure Session where
  scopes : Scopes Value

namespace Session

def start : Session := ⟨[]⟩

/-- How a step ends: what it answers, what it printed, and the session after it. -/
structure Ending (α : Type) where
  answer : Except Error α
  output : String
  after : Session

/-- A step that prints nothing and leaves the session alone. -/
def silent (s : Session) (answer : Except Error α) : Ending α := ⟨answer, "", s⟩

def check (s : Session) (tree : Tree) : Ending Ty := s.silent tree.check

def diagnose (s : Session) (tree : Tree) : Ending (Option Diagnostic) :=
  s.silent tree.diagnose

/-- Evaluates without a check. There is no ending when the fuel is spent. -/
def evaluate (fuel : Nat) (s : Session) (tree : Tree) : Option (Ending Value) :=
  match tree.eval fuel (Machine.start s.scopes) with
  | .done v m => some ⟨.ok v, m.output, ⟨m.scopes⟩⟩
  | .failed e m => some ⟨.error e, m.output, ⟨m.scopes⟩⟩
  | .outOfFuel => none

/-- Checks, and evaluates what is accepted. -/
def run (fuel : Nat) (s : Session) (tree : Tree) : Option (Ending Value) :=
  match tree.check with
  | .ok _ => s.evaluate fuel tree
  | .error e => some (s.silent (.error e))

/-- Changes the scopes, or fails and leaves them alone. -/
def change (s : Session) (f : Scopes Value → Except Error (Scopes Value)) : Ending Unit :=
  match f s.scopes with
  | .ok scopes => ⟨.ok (), "", ⟨scopes⟩⟩
  | .error e => s.silent (.error e)

def reset (_ : Session) : Ending Unit := ⟨.ok (), "", start⟩

def enter (s : Session) : Ending Unit := s.change fun scopes => .ok (Scope.empty :: scopes)

def leave (s : Session) : Ending Unit := s.change Scopes.leave

def declare (s : Session) (decl : Declaration) (v : Value) : Ending Unit :=
  s.change (Scopes.declareVar decl v)

def declareFn (s : Session) (f : FnDecl) : Ending Unit := s.change (Scopes.declareFn f)

end Session
end TypedLet
