import TypedLet.Proofs.Evaluation.Holds
import TypedLet.Proofs.Resolution.Checking

/-
The evaluator with a record of its lookups. It looks names up by locating them and notes
what it has located. The value it reads is that of the variable located, an assignment and
a pattern write to the scope located, and a call runs the function located, so the record
says what the run has used. It is kept however a run ends, also when its fuel is spent, and
so what is said of the record is said of every part of a run. Forgetting the record gives
back the evaluator.

A call runs the body of a function at the place where the function stands, under the
openers of the scopes that the frame keeps and under the function itself.
-/
namespace TypedLet

def Traced (α : Type) := Machine → Outcome α × List Visit

namespace Traced

def erase (x : Traced α) : Eval α := fun m => (x m).1

def visits (x : Traced α) (m : Machine) : List Visit := (x m).2

def lift (x : Eval α) : Traced α := fun m => (x m, [])

/-- Looks something up, notes what is found and hands it on. -/
def look (place : Place) (seek : Scopes Value → β) (found : β → Found) : Traced β := fun m =>
  (.done (seek m.scopes) m, [⟨place, found (seek m.scopes)⟩])

def onScopes (x : Watched Value α) : Traced α := fun m =>
  match x m.scopes with
  | ((.ok a, scopes), seen) => (.done a { m with scopes }, seen)
  | ((.error e, scopes), seen) => (.failed e { m with scopes }, seen)

def undoing (x : Watched Value Bool) : Traced Bool := fun m =>
  match x m.scopes with
  | ((.ok true, scopes), seen) => (.done true { m with scopes }, seen)
  | ((.ok false, scopes), seen) =>
    (.done false { m with abandoned := Eval.giveUp m.abandoned scopes }, seen)
  | ((.error e, scopes), seen) => (.failed e { m with scopes }, seen)

protected def pure (a : α) : Traced α := lift (Eval.pure a)

protected def bind (x : Traced α) (f : α → Traced β) : Traced β := fun m =>
  match x m with
  | (.done a after, seen) => ((f a).erase after, seen ++ (f a).visits after)
  | (.failed e after, seen) => (.failed e after, seen)
  | (.outOfFuel, seen) => (.outOfFuel, seen)

instance : Monad Traced where
  pure := Traced.pure
  bind := Traced.bind

def inScope (x : Traced α) : Traced α := fun m =>
  (Eval.inScope x.erase m, x.visits { m with scopes := Scope.empty :: m.scopes })

def inFrame (depth : Nat) (x : Traced α) : Traced α := fun m =>
  (Eval.inFrame depth x.erase m,
    match m.scopes.checkFrame depth with
    | .ok d => x.visits { m with scopes := Scope.empty :: m.scopes.outermost d }
    | .error _ => [])

def loopVisits (cond : Traced Bool) (body : Traced Unit) : Nat → Machine → List Visit
  | 0, _ => []
  | fuel + 1, m =>
    cond.visits m ++
      match cond.erase m with
      | .done true middle =>
        body.visits middle ++
          match body.erase middle with
          | .done _ after => loopVisits cond body fuel after
          | _ => []
      | _ => []

def loop (cond : Traced Bool) (body : Traced Unit) (fuel : Nat) : Traced Unit := fun m =>
  (Eval.loop cond.erase body.erase fuel m, loopVisits cond body fuel m)

@[simp] theorem erase_lift (x : Eval α) : (lift x).erase = x := rfl

@[simp] theorem erase_pure (a : α) : (Pure.pure a : Traced α).erase = Pure.pure a := rfl

@[simp] theorem erase_inScope (x : Traced α) : (inScope x).erase = Eval.inScope x.erase := rfl

@[simp] theorem erase_inFrame (depth : Nat) (x : Traced α) :
    (inFrame depth x).erase = Eval.inFrame depth x.erase := rfl

@[simp] theorem erase_loop (cond : Traced Bool) (body : Traced Unit) (fuel : Nat) :
    (loop cond body fuel).erase = Eval.loop cond.erase body.erase fuel := rfl

@[simp] theorem erase_bind (x : Traced α) (f : α → Traced β) :
    (x >>= f).erase = x.erase >>= fun a => (f a).erase := by
  funext m
  change (Traced.bind x f m).1 = Eval.bind x.erase (fun a => (f a).erase) m
  unfold Traced.bind Eval.bind erase
  cases x m with
  | mk run seen => cases run <;> rfl

theorem erase_look_bind (place : Place) (seek : Scopes Value → β) (found : β → Found)
    (f : β → Traced γ) :
    (look place seek found >>= f).erase = fun m => (f (seek m.scopes)).erase m := by
  funext m
  rw [erase_bind]
  rfl

theorem erase_onScopes (x : Watched Value α) : (onScopes x).erase = Eval.onScopes x.erase := by
  funext m
  unfold erase onScopes Eval.onScopes Watched.erase
  rcases x m.scopes with ⟨⟨_ | _, _⟩, _⟩ <;> rfl

theorem visits_onScopes (x : Watched Value α) (m : Machine) :
    (onScopes x).visits m = x.visits m.scopes := by
  unfold visits onScopes Watched.visits
  rcases x m.scopes with ⟨⟨_ | _, _⟩, _⟩ <;> rfl

theorem erase_undoing {p : Expr} {v : Value} {x : Watched Value Bool}
    (same : x.erase = p.matchValue v) : (undoing x).erase = Eval.tryMatch p v := by
  funext m
  unfold erase undoing Eval.tryMatch
  rw [← same, Watched.erase]
  rcases x m.scopes with ⟨⟨_ | _ | _, _⟩, _⟩ <;> rfl

theorem visits_undoing (x : Watched Value Bool) (m : Machine) :
    (undoing x).visits m = x.visits m.scopes := by
  unfold visits undoing Watched.visits
  rcases x m.scopes with ⟨⟨_ | _ | _, _⟩, _⟩ <;> rfl

theorem visits_bind (x : Traced α) (f : α → Traced β) (m : Machine) :
    (x >>= f).visits m = x.visits m ++
      match x.erase m with
      | .done a after => (f a).visits after
      | _ => [] := by
  change (Traced.bind x f m).2 = _
  unfold Traced.bind visits erase
  cases x m with
  | mk run seen => cases run <;> simp

theorem loop_succ (cond : Traced Bool) (body : Traced Unit) (fuel : Nat) :
    loop cond body (fuel + 1) =
      cond >>= fun b => if b then body >>= fun _ => loop cond body fuel else Pure.pure () := by
  funext m
  apply Prod.ext
  · change Eval.loop cond.erase body.erase (fuel + 1) m = erase _ m
    rw [Eval.loop_succ, erase_bind]
    refine congrFun (congrArg (cond.erase >>= ·) (funext fun b => ?_)) m
    cases b with
    | true => exact (erase_bind body fun _ => loop cond body fuel).symm
    | false => rfl
  · change loopVisits cond body (fuel + 1) m = visits _ m
    rw [loopVisits, visits_bind]
    cases cond.erase m with
    | done b middle =>
      cases b with
      | true =>
        dsimp only
        rw [if_pos rfl, visits_bind]
        cases body.erase middle <;> rfl
      | false => rfl
    | failed e after => rfl
    | outOfFuel => rfl

end Traced

namespace Expr

open Watched (lift lookVar)
open Scopes

def writeTo (name : String) (v : Value) : Option (Spot (Binding Value)) → Action Value Unit
  | some spot => fun scopes => (.ok (), scopes.put spot.index name v)
  | none => Action.fail (.internal (.nothingToAssign name) none)

def watchWrite (openers : List Place) (place : Place) (name : String) (v : Value) :
    Watched Value Unit := do
  let spot ← lookVar openers place name
  lift (writeTo name v spot)

mutual
def watchMatch (openers : List Place) (place : Place) : Expr → Value → Watched Value Bool
  | var name _, v => do
    watchWrite openers place name v
    pure true
  | literal w _, v => pure (w.same v)
  | array parts _ _ span, v =>
    match v with
    | .array _ items =>
      if parts.length = items.length then watchItems openers place 0 parts items else pure false
    | v => lift (Action.fail (.internal (.arrayPattern v.type) span))
  | tuple parts span, v =>
    match v with
    | .tuple _ items =>
      if parts.length = items.length then watchItems openers place 0 parts items else pure false
    | v => lift (Action.fail (.internal (.tuplePattern v.type) span))
  | e, _ => lift (Action.fail e.forbiddenError)
def watchItems (openers : List Place) (place : Place) (index : Nat) :
    List Expr → List Value → Watched Value Bool
  | p :: ps, v :: vs => do
    let matched ← watchMatch openers (index :: place) p v
    if matched then watchItems openers place (index + 1) ps vs else pure false
  | _, _ => pure true
end

/-- An assignment writes where it looks. -/
theorem erase_watchWrite (openers : List Place) (place : Place) (name : String) (v : Value) :
    (watchWrite openers place name v).erase = assignValue name v := by
  funext scopes
  change writeTo name v (scopes.locateVar name) scopes = _
  rw [assignValue, Action.update, Scopes.assign, assign?_eq_locate]
  cases scopes.locateVar name <;> rfl

mutual
theorem erase_watchMatch : ∀ (p : Expr) (v : Value) (openers : List Place) (place : Place),
    (watchMatch openers place p v).erase = p.matchValue v
  | var name span, v, openers, place => by
    rw [watchMatch, matchValue, Watched.erase_bind, erase_watchWrite]
    rfl
  | literal w span, v, openers, place => rfl
  | array parts _ _ span, v, openers, place => by
    cases v with
    | array element items =>
      rw [watchMatch, matchValue]
      split
      · exact erase_watchItems parts items openers place 0
      · rfl
    | _ => rfl
  | tuple parts span, v, openers, place => by
    cases v with
    | tuple types items =>
      rw [watchMatch, matchValue]
      split
      · exact erase_watchItems parts items openers place 0
      · rfl
    | _ => rfl
  | group .., _, _, _ | letIn .., _, _, _ | assign .., _, _, _ | matchWith .., _, _, _
  | call .., _, _, _ | ifElse .., _, _, _ | whileDo .., _, _, _ | forTo .., _, _, _
  | binary .., _, _, _ | unary .., _, _, _ | cast .., _, _, _ => rfl
theorem erase_watchItems : ∀ (ps : List Expr) (vs : List Value) (openers : List Place)
    (place : Place) (index : Nat),
      (watchItems openers place index ps vs).erase = matchItems ps vs
  | [], vs, openers, place, index => by cases vs <;> rfl
  | p :: ps, [], openers, place, index => rfl
  | p :: ps, v :: vs, openers, place, index => by
    rw [watchItems, matchItems, Watched.erase_bind, erase_watchMatch p]
    congr 1
    funext matched
    cases matched with
    | true => exact erase_watchItems ps vs openers place (index + 1)
    | false => rfl
end

end Expr

namespace Traced

open Scopes

section Parts

variable (eval : List Place → Place → Expr → Traced Value) (openers : List Place)

def valueOf (name : String) (span : Option Span) : Option (Spot (Binding Value)) → Eval Value
  | some spot => pure spot.item.info
  | none => Eval.fail (.unboundAtRuntime name) span

def read (place : Place) (name : String) (span : Option Span) : Traced Value := do
  let spot ← look place (locateVar name) (Found.ofVar openers)
  lift (valueOf name span spot)

def tryMatch (place : Place) (pattern : Expr) (v : Value) : Traced Bool :=
  undoing (pattern.watchMatch openers place v)

def assign (place : Place) (name : String) (v : Value) : Traced Unit :=
  onScopes (Expr.watchWrite openers place name v)

def all (place : Place) (index : Nat) : List Expr → Traced (List Value)
  | [] => pure []
  | e :: es => do
    let v ← eval openers (index :: place) e
    let vs ← all place (index + 1) es
    pure (v :: vs)

def row (place : Place) (body : List Expr) : Traced Value := do
  let vs ← all eval openers place 0 body
  pure (vs.getLast?.getD .void)

def declareVars (place : Place) (index : Nat) : List VarDecl → Traced Unit
  | [] => pure ()
  | d :: ds => do
    let v ← eval openers (0 :: index :: place) d.value
    lift (Eval.declare (.var d) v)
    declareVars place (index + 1) ds

def callFn (place : Place) (f : FnDecl) (args : List Value) (depth : Nat) : Traced Value :=
  if args.length = f.args.length then
    inFrame depth do
      lift (Eval.declareArgs f.args args)
      eval (openers.take depth ++ [place]) (1 :: place) f.body
  else lift (Eval.fail (.argumentCount f.name f.args.length args.length) none)

def callCallee (name : String) (args : List Value) : Callee → Traced Value
  | .fn spot => callFn eval openers (spot.node openers 1) spot.item args (spot.index + 1)
  | .builtin b => lift do
    let (v, text) ← Eval.ofExcept (b.call args)
    Eval.print text
    pure v
  | .unknown => lift (Eval.ofExcept (.error (.internal (.noSuchBuiltin name) none)))

def call (place : Place) (name : String) (args : List Value) : Traced Value := do
  let callee ← look place (callee name) (Found.ofCallee openers)
  callCallee eval openers name args callee

end Parts

/-- What is read is the value of the variable located. -/
theorem erase_read (openers : List Place) (place : Place) (name : String) (span : Option Span) :
    (read openers place name span).erase = Eval.read name span := by
  funext m
  change valueOf name span (m.scopes.locateVar name) m = _
  rw [Eval.read, findVar_eq_locate]
  cases m.scopes.locateVar name <;> rfl

theorem erase_assign (openers : List Place) (place : Place) (name : String) (v : Value) :
    (assign openers place name v).erase = Eval.assign name v := by
  rw [assign, erase_onScopes, Expr.erase_watchWrite, Eval.assign]

theorem erase_tryMatch (openers : List Place) (place : Place) (pattern : Expr) (v : Value) :
    (tryMatch openers place pattern v).erase = Eval.tryMatch pattern v :=
  erase_undoing (Expr.erase_watchMatch pattern v openers place)

section Parts

variable {eval : List Place → Place → Expr → Traced Value} {plain : Expr → Eval Value}
  (same : ∀ openers place e, (eval openers place e).erase = plain e) (openers : List Place)
include same

theorem erase_all (place : Place) (es : List Expr) :
    ∀ index, (all eval openers place index es).erase = Eval.all plain es := by
  induction es with
  | nil => intro index; rfl
  | cons e es ih =>
    intro index
    simp only [all, Eval.all, erase_bind, erase_pure, same, ih]
    rfl

theorem erase_row (place : Place) (body : List Expr) :
    (row eval openers place body).erase = Eval.row plain body := by
  simp only [row, Eval.row, erase_bind, erase_pure, erase_all same]
  rfl

theorem erase_declareVars (place : Place) (vars : List VarDecl) :
    ∀ index, (declareVars eval openers place index vars).erase = Eval.declareVars plain vars := by
  induction vars with
  | nil => intro index; rfl
  | cons d ds ih =>
    intro index
    simp only [declareVars, Eval.declareVars, erase_bind, erase_lift, same, ih]

theorem erase_callFn (place : Place) (f : FnDecl) (args : List Value) (depth : Nat) :
    (callFn eval openers place f args depth).erase = Eval.callFn plain f args depth := by
  unfold callFn Eval.callFn
  split
  · simp only [erase_inFrame, erase_bind, erase_lift, same]
  · rfl

theorem erase_call (place : Place) (name : String) (args : List Value) :
    (call eval openers place name args).erase = Eval.call plain name args := by
  funext m
  change (callCallee eval openers name args (m.scopes.callee name)).erase m = _
  rw [Eval.call, resolveFn_eq_locate, callee]
  cases m.scopes.locateFn name with
  | some spot => exact congrFun (erase_callFn same openers _ spot.item args (spot.index + 1)) m
  | none =>
    change _ = Eval.callBuiltin name args m
    rw [Eval.callBuiltin, Builtin.callNamed]
    cases Builtin.find? name <;> rfl

end Parts

end Traced

namespace Expr

open Traced (lift)

def trace : Nat → List Place → Place → Expr → Traced Value
  | 0, _, _, _ => lift Eval.outOfFuel
  | fuel + 1, openers, place, e =>
    match e with
    | literal v _ => pure v
    | var name span => Traced.read openers place name span
    | group body _ => Traced.row (trace fuel) openers place body
    | letIn vars fns body _ => Traced.inScope do
      Traced.declareVars (trace fuel) (openers ++ [place]) (0 :: place) 0 vars
      lift (Eval.declareFns fns)
      Traced.row (trace fuel) (openers ++ [place]) (2 :: place) body
    | assign name value _ _ => do
      let v ← trace fuel openers (0 :: place) value
      Traced.assign openers place name v
      pure v
    | matchWith pattern value _ => do
      let v ← trace fuel openers (1 :: place) value
      let matched ← Traced.tryMatch openers (0 :: place) pattern v
      pure (.bool matched)
    | call name args _ => do
      let vs ← Traced.all (trace fuel) openers place 0 args
      Traced.call (trace fuel) openers place name vs
    | ifElse cond whenTrue whenFalse _ => do
      let v ← trace fuel openers (0 :: place) cond
      let b ← lift (Eval.test v)
      if b then trace fuel openers (1 :: place) whenTrue
      else trace fuel openers (2 :: place) whenFalse
    | whileDo cond body _ => do
      Traced.loop
        (do
          let v ← trace fuel openers (0 :: place) cond
          lift (Eval.test v))
        (do
          let _ ← trace fuel openers (1 :: place) body)
        fuel
      pure .void
    | forTo loop goal body _ => do
      Traced.inScope do
        let start ← trace fuel (openers ++ [place]) (0 :: 0 :: 0 :: place) loop.value
        let bound ← trace fuel (openers ++ [place]) (1 :: place) goal
        lift (Eval.declare (.var loop) start)
        Traced.loop (lift (Eval.below loop bound))
          (do
            let _ ← trace fuel (openers ++ [place]) (2 :: place) body
            lift (Eval.advance loop))
          fuel
      pure .void
    | binary left op right _ => do
      let v ← trace fuel openers (0 :: place) left
      let w ← trace fuel openers (1 :: place) right
      lift (Eval.ofExcept (op.apply v w))
    | unary op operand _ => do
      let v ← trace fuel openers (0 :: place) operand
      lift (Eval.ofExcept (op.apply v))
    | cast operand target _ => do
      let v ← trace fuel openers (0 :: place) operand
      lift (Eval.ofFault (v.convert target))
    | array items element _ span => do
      let vs ← Traced.all (trace fuel) openers place 0 items
      lift (match element, vs with
        | some t, vs => Pure.pure (.array t vs)
        | none, v :: vs => Pure.pure (.array v.type (v :: vs))
        | none, [] => Eval.fail .emptyArray span)
    | tuple items _ => do
      let vs ← Traced.all (trace fuel) openers place 0 items
      pure (.tupleOf vs)

theorem erase_trace (fuel : Nat) : ∀ (openers : List Place) (place : Place) (e : Expr),
    (trace fuel openers place e).erase = e.eval fuel := by
  induction fuel with
  | zero => intro openers place e; rfl
  | succ fuel ih =>
    intro openers place e
    cases e with
    | literal v span => rfl
    | var name span => exact Traced.erase_read openers place name span
    | group body span => exact Traced.erase_row ih openers place body
    | letIn vars fns body span =>
      simp only [trace, eval, Traced.erase_inScope, Traced.erase_bind, Traced.erase_lift,
        Traced.erase_declareVars ih, Traced.erase_row ih]
    | assign name value nameSpan span =>
      simp only [trace, eval, Traced.erase_bind, Traced.erase_assign, Traced.erase_pure, ih]
    | matchWith pattern value span =>
      simp only [trace, eval, Traced.erase_bind, Traced.erase_pure, Traced.erase_tryMatch, ih]
    | call name args span =>
      simp only [trace, eval, Traced.erase_bind, Traced.erase_all ih, Traced.erase_call ih]
    | ifElse cond whenTrue whenFalse span =>
      simp only [trace, eval, Traced.erase_bind, Traced.erase_lift, ih]
      congr
      funext v
      congr
      funext b
      cases b with
      | true => exact ih openers (1 :: place) whenTrue
      | false => exact ih openers (2 :: place) whenFalse
    | whileDo cond body span =>
      simp only [trace, eval, Traced.erase_bind, Traced.erase_loop, Traced.erase_lift,
        Traced.erase_pure, ih]
    | forTo loop goal body span =>
      simp only [trace, eval, Traced.erase_bind, Traced.erase_inScope, Traced.erase_loop,
        Traced.erase_lift, Traced.erase_pure, ih]
    | binary left op right span =>
      simp only [trace, eval, Traced.erase_bind, Traced.erase_lift, ih]
    | unary op operand span =>
      simp only [trace, eval, Traced.erase_bind, Traced.erase_lift, ih]
    | cast operand target span =>
      simp only [trace, eval, Traced.erase_bind, Traced.erase_lift, ih]
    | array items element elementSpan span =>
      have all := Traced.erase_all ih openers place items 0
      exact (Traced.erase_bind _ _).trans (congrArg (· >>= _) all)
    | tuple items span =>
      simp only [trace, eval, Traced.erase_bind, Traced.erase_pure, Traced.erase_all ih]

end Expr

namespace Tree

def trace (fuel : Nat) : Tree → Traced Value
  | expr e => e.trace fuel [] []
  | block body => Traced.row (Expr.trace fuel) [] [] body

theorem erase_trace (fuel : Nat) : ∀ tree : Tree, (tree.trace fuel).erase = tree.eval fuel
  | expr e => Expr.erase_trace fuel [] [] e
  | block body => Traced.erase_row (Expr.erase_trace fuel) [] [] body

end Tree
end TypedLet
