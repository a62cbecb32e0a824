import TypedLet.Evaluation.Machine

/-
The value of an expression. Parts are evaluated in the order in which they are
written, and a call evaluates its arguments before it looks for the function.
A function body runs on the scopes that were there when it was declared, under a
new one for the arguments, whatever its caller has declared since. A match that
fails undoes its assignments; one that meets an error does not.

Fuel bounds the depth of the evaluation and the rounds of each loop. More fuel
changes no finished run.
-/
namespace TypedLet

namespace Eval

/-- Adds tables of scopes of which none is kept yet. -/
def giveUp (abandoned tables : Scopes Value) : Scopes Value :=
  tables.innermost abandoned.length ++ abandoned

/-- Matches, and undoes a match that fails. -/
def tryMatch (pattern : Expr) (v : Value) : Eval Bool := fun m =>
  match pattern.matchValue v m.scopes with
  | (.ok true, scopes) => .done true { m with scopes }
  | (.ok false, scopes) => .done false { m with abandoned := giveUp m.abandoned scopes }
  | (.error e, scopes) => .failed e { m with scopes }

/-- The value of a variable. -/
def read (name : String) (span : Option Span) : Eval Value := fun m =>
  match m.scopes.findVar name with
  | some b => .done b.info m
  | none => .failed (.internal (.unboundAtRuntime name) span) m

def assign (name : String) (v : Value) : Eval Unit := onScopes (Expr.assignValue name v)

def declare (decl : Declaration) (v : Value) : Eval Unit :=
  onScopes (Action.update (Scopes.declareVar decl v))

def declareFns : List FnDecl → Eval Unit
  | [] => pure ()
  | f :: fs => do
    onScopes (Action.update (Scopes.declareFn f))
    declareFns fs

def declareArgs : List ArgDecl → List Value → Eval Unit
  | a :: as, v :: vs => do
    declare (.arg a) v
    declareArgs as vs
  | _, _ => pure ()

def test (v : Value) : Eval Bool := ofFault v.truth

def callBuiltin (name : String) (args : List Value) : Eval Value := do
  let (v, text) ← ofExcept (Builtin.callNamed name args)
  print text
  pure v

/-- Evaluates one after another. -/
def all (eval : Expr → Eval Value) : List Expr → Eval (List Value)
  | [] => pure []
  | e :: es => do
    let v ← eval e
    let vs ← all eval es
    pure (v :: vs)

/-- The value of expressions in a row is that of the last one. -/
def row (eval : Expr → Eval Value) (body : List Expr) : Eval Value := do
  let vs ← all eval body
  pure (vs.getLast?.getD .void)

/-- Evaluates and declares one after another. -/
def declareVars (eval : Expr → Eval Value) : List VarDecl → Eval Unit
  | [] => pure ()
  | d :: ds => do
    let v ← eval d.value
    declare (.var d) v
    declareVars eval ds

def callFn (eval : Expr → Eval Value) (f : FnDecl) (args : List Value) (depth : Int) :
    Eval Value :=
  if args.length = f.args.length then
    inFrame depth do
      declareArgs f.args args
      eval f.body
  else fail (.argumentCount f.name f.args.length args.length) none

/-- A function of the program wins over a builtin of the same name. -/
def call (eval : Expr → Eval Value) (name : String) (args : List Value) : Eval Value := fun m =>
  match m.scopes.resolveFn name with
  | some (f, depth) => callFn eval f args depth m
  | none => callBuiltin name args m

/-- Whether the variable of a for loop is still below the goal. -/
def below (loop : VarDecl) (goal : Value) : Eval Bool := do
  let v ← read loop.name loop.span
  let less ← ofExcept (BinaryOp.lt.apply v goal)
  test less

/-- Adds one to the variable of a for loop. -/
def advance (loop : VarDecl) : Eval Unit := do
  let v ← read loop.name loop.span
  let next ← ofExcept (BinaryOp.add.apply v (.int 1))
  assign loop.name next

end Eval

namespace Expr

def eval : Nat → Expr → Eval Value
  | 0, _ => Eval.outOfFuel
  | fuel + 1, e =>
    match e with
    | literal v _ => pure v
    | var name span => Eval.read name span
    | group body _ => Eval.row (eval fuel) body
    | letIn vars fns body _ => Eval.inScope do
      Eval.declareVars (eval fuel) vars
      Eval.declareFns fns
      Eval.row (eval fuel) body
    | assign name value _ _ => do
      let v ← eval fuel value
      Eval.assign name v
      pure v
    | matchWith pattern value _ => do
      let v ← eval fuel value
      let matched ← Eval.tryMatch pattern v
      pure (.bool matched)
    | call name args _ => do
      let vs ← Eval.all (eval fuel) args
      Eval.call (eval fuel) name vs
    | ifElse cond whenTrue whenFalse _ => do
      let v ← eval fuel cond
      if ← Eval.test v then eval fuel whenTrue else eval fuel whenFalse
    | whileDo cond body _ => do
      Eval.loop
        (do
          let v ← eval fuel cond
          Eval.test v)
        (do
          let _ ← eval fuel body)
        fuel
      pure .void
    | forTo loop goal body _ => do
      Eval.inScope do
        let start ← eval fuel loop.value
        let bound ← eval fuel goal
        Eval.declare (.var loop) start
        Eval.loop (Eval.below loop bound)
          (do
            let _ ← eval fuel body
            Eval.advance loop)
          fuel
      pure .void
    | binary left op right _ => do
      let v ← eval fuel left
      let w ← eval fuel right
      Eval.ofExcept (op.apply v w)
    | unary op operand _ => do
      let v ← eval fuel operand
      Eval.ofExcept (op.apply v)
    | cast operand target _ => do
      let v ← eval fuel operand
      Eval.ofFault (v.convert target)
    | array items element _ span => do
      let vs ← Eval.all (eval fuel) items
      match element, vs with
      | some t, vs => pure (.array t vs)
      | none, v :: vs => pure (.array v.type (v :: vs))
      | none, [] => Eval.fail .emptyArray span
    | tuple items _ => do
      let vs ← Eval.all (eval fuel) items
      pure (.tupleOf vs)

end Expr

/-- The value of a whole program. -/
def Tree.eval (fuel : Nat) : Tree → Eval Value
  | expr e => e.eval fuel
  | block body => Eval.row (Expr.eval fuel) body

end TypedLet
