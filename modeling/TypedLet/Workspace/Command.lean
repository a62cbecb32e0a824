import TypedLet.Workspace.Basic

/-
Commands on a workspace and their replies. Scopes and frames hold commands of
their own; the first of these that fails ends the list, and the scope or the
frame is left all the same and reports the failure. What a program may do with
the scopes, to be checked or to be evaluated, depends on what variables carry,
and is given as a task.
-/
namespace TypedLet

namespace Workspace

inductive Command (ι τ : Type) where
  | enter
  | leave
  | declare (decl : Declaration) (info : ι)
  | declareFn (decl : FnDecl)
  | assign (name : String) (v : Value)
  | snapshot (id : String)
  | restore (id : String)
  | find (name : String)
  | lookup (name : String) (span : Option Span)
  | findFn (name : String)
  | lookupFn (name : String) (span : Option Span)
  | resolveFn (name : String)
  | names
  | builtin (name : String) (args : List Value)
  | perform (task : τ)
  | scope (body : List (Command ι τ))
  | frame (depth : Int) (body : List (Command ι τ))

inductive Reply (ι ρ : Type) where
  | done
  | binding (found : Option (Binding ι))
  | function (found : Option FnDecl)
  | resolved (found : Option (FnDecl × Nat))
  | names (vars fns : List String)
  | value (v : Value)
  | performed (result : ρ)
  | nested (replies : List (Reply ι ρ)) (inside : Scopes ι) (failure : Option Error)

/-- What a task does to the scopes. -/
structure Effect (ι ρ : Type) where
  answer : Except Error ρ
  output : String
  scopes : Scopes ι
  abandoned : Scopes ι

/-- What depends on the things that variables carry. A task has no effect to show
    when its fuel is spent. -/
structure Pass (ι τ ρ : Type) where
  assign : String → Value → Action ι Unit
  perform : τ → Scopes ι → Option (Effect ι ρ)

/-- What a command answers, what it prints, and the workspace after it. -/
structure Ran (ι α : Type) where
  answer : Except Error α
  output : String
  after : Workspace ι

/-- The replies of the commands that succeeded, and the failure of the next. -/
structure Listing (ι ρ : Type) where
  replies : List (Reply ι ρ)
  failure : Option Error
  output : String
  after : Workspace ι

variable {ι τ ρ : Type}

def quiet (w : Workspace ι) (answer : Except Error α) : Ran ι α := ⟨answer, "", w⟩

def changed (w : Workspace ι) : Except Error (Workspace ι) → Ran ι (Reply ι ρ)
  | .ok after => ⟨.ok .done, "", after⟩
  | .error e => w.quiet (.error e)

def acted (w : Workspace ι) (x : Action ι Unit) : Ran ι (Reply ι ρ) :=
  match w.act x with
  | (answer, after) => ⟨answer.map fun _ => .done, "", after⟩

/-- Leaves the scope that the commands ran in. A failure to leave it hides the
    failure of a command. -/
def closeScope (l : Listing ι ρ) : Ran ι (Reply ι ρ) :=
  match l.after.leave with
  | .ok outer => ⟨.ok (.nested l.replies l.after.scopes l.failure), l.output, outer⟩
  | .error e => ⟨.ok (.nested l.replies l.after.scopes (some e)), l.output, l.after⟩

mutual
def run (pass : Pass ι τ ρ) (w : Workspace ι) :
    Command ι τ → Option (Ran ι (Reply ι ρ))
  | .enter => some (w.changed (.ok w.enter))
  | .leave => some (w.changed w.leave)
  | .declare decl info => some (w.acted (Action.update (Scopes.declareVar decl info)))
  | .declareFn decl => some (w.acted (Action.update (Scopes.declareFn decl)))
  | .assign name v => some (w.acted (pass.assign name v))
  | .snapshot id => some (w.changed (.ok (w.snapshot id)))
  | .restore id => some (w.changed (w.restore id))
  | .find name => some (w.quiet (.ok (.binding (w.scopes.findVar name))))
  | .lookup name span =>
    some (w.quiet ((w.scopes.lookupVar name span).map fun b => .binding (some b)))
  | .findFn name => some (w.quiet (.ok (.function (w.scopes.findFn name))))
  | .lookupFn name span =>
    some (w.quiet ((w.scopes.lookupFn name span).map fun f => .function (some f)))
  | .resolveFn name => some (w.quiet (.ok (.resolved (w.scopes.resolveFn name))))
  | .names => some (w.quiet (.ok (.names w.scopes.visibleVars w.scopes.visibleFns)))
  | .builtin name args =>
    match Builtin.callNamed name args with
    | .ok (v, text) => some ⟨.ok (.value v), text, w⟩
    | .error e => some (w.quiet (.error e))
  | .perform task =>
    (pass.perform task w.scopes).map fun e =>
      ⟨e.answer.map .performed, e.output,
        w.resume e.scopes (e.abandoned.outermost w.depth)⟩
  | .scope body => (runAll pass w.enter body).map closeScope
  | .frame depth body =>
    match w.enterFrame depth with
    | .ok inner =>
      (runAll pass inner body).map fun l =>
        ⟨.ok (.nested l.replies l.after.scopes l.failure), l.output,
          w.leaveFrame l.after depth.toNat⟩
    | .error e => some (w.quiet (.ok (.nested [] [] (some e))))
/-- Runs commands up to the first that fails. -/
def runAll (pass : Pass ι τ ρ) (w : Workspace ι) :
    List (Command ι τ) → Option (Listing ι ρ)
  | [] => some ⟨[], none, "", w⟩
  | c :: cs =>
    (run pass w c).bind fun r =>
      match r.answer with
      | .error e => some ⟨[], some e, r.output, r.after⟩
      | .ok reply =>
        (runAll pass r.after cs).map fun l =>
          { l with replies := reply :: l.replies, output := r.output ++ l.output }
end

end Workspace
end TypedLet
