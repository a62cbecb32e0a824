import TypedLet.Proofs.Environment.Bare
import TypedLet.Proofs.Scoping.Weakening

/-
Evaluation without spans. Stripping a program of its spans, and the machine that it runs
on, strips the end of the run and changes nothing else about it.
-/
namespace TypedLet

open Scopes

section Spanless

def Spanless (r : Except Error α) : Prop := r.mapError Error.bare = r

theorem spanless_ok (a : α) : Spanless (.ok a) := rfl

theorem spanless_internal (cause : Fault) :
    Spanless (.error (.internal cause none) : Except Error α) := rfl

theorem spanless_map {r : Except Error α} (spanless : Spanless r) (f : α → β) :
    Spanless (r.map f) := by
  cases r with
  | ok a => rfl
  | error e => exact congrArg Except.error (Except.error.inj spanless)

theorem BinaryOp.spanless_apply (op : BinaryOp) (v w : Value) : Spanless (op.apply v w) := by
  unfold apply
  split
  case h_8 => split <;> rfl
  all_goals rfl

theorem UnaryOp.spanless_apply (op : UnaryOp) (v : Value) : Spanless (op.apply v) := by
  unfold apply
  split <;> rfl

theorem Builtin.spanless_callNamed (name : String) (args : List Value) :
    Spanless (callNamed name args) := by
  unfold callNamed
  split
  · next b _ =>
    unfold call
    split
    · exact spanless_map (BinaryOp.spanless_apply _ _ _) _
    · exact spanless_map (UnaryOp.spanless_apply _ _) _
    · exact spanless_ok _
    · exact spanless_ok _
    · exact spanless_internal _
  · exact spanless_internal _

theorem spanless_checkFrame (scopes : Scopes α) (depth : Int) :
    Spanless (scopes.checkFrame depth) := by
  unfold checkFrame
  split
  · exact spanless_ok _
  · exact spanless_internal _

end Spanless

def Machine.bare (m : Machine) : Machine :=
  ⟨Scopes.bare m.scopes, m.output, Scopes.bare m.abandoned⟩

def Outcome.bare : Outcome α → Outcome α
  | .done a m => .done a m.bare
  | .failed e m => .failed e.bare m.bare
  | .outOfFuel => .outOfFuel

namespace Action

def Bares (x x' : Action Value α) : Prop := ∀ scopes,
  x' (Scopes.bare scopes) = ((x scopes).1.mapError Error.bare, Scopes.bare (x scopes).2)

theorem bares_pure (a : α) : Bares (Pure.pure a) (Pure.pure a) := fun _ => rfl

theorem bares_bind {x x' : Action Value α} {f f' : α → Action Value β} (first : Bares x x')
    (next : ∀ a, Bares (f a) (f' a)) : Bares (x >>= f) (x' >>= f') := by
  intro scopes
  change Action.bind x' f' _ =
    ((Action.bind x f scopes).1.mapError _, Scopes.bare (Action.bind x f scopes).2)
  have run := first scopes
  unfold Action.bind
  rw [run]
  cases x scopes with
  | mk result after =>
    cases result with
    | ok a => exact next a after
    | error e => rfl

theorem bares_fail {e e' : Error} (same : e' = e.bare) :
    Bares (fail e : Action Value α) (fail e') := by
  subst same
  exact fun _ => rfl

theorem bares_update {f f' : Scopes Value → Except Error (Scopes Value)}
    (same : ∀ scopes,
      f' (Scopes.bare scopes) = ((f scopes).mapError Error.bare).map Scopes.bare) :
    Bares (update f) (update f') := by
  intro scopes
  unfold update
  rw [same]
  cases f scopes <;> rfl

end Action

namespace Expr

theorem length_bareAll (es : List Expr) : (bareAll es).length = es.length := by
  induction es with
  | nil => rfl
  | cons e es ih => exact congrArg (· + 1) ih

theorem bares_assignValue (name : String) (v : Value) :
    Action.Bares (assignValue name v) (assignValue name v) := by
  apply Action.bares_update
  intro scopes
  rw [Scopes.assign, assign?_bare, Scopes.assign]
  cases assign? name v scopes <;> rfl

mutual
theorem bares_matchValue : ∀ (p : Expr) (v : Value),
    Action.Bares (p.matchValue v) (p.bare.matchValue v)
  | var name span, v => Action.bares_bind (bares_assignValue name v) fun _ => Action.bares_pure true
  | literal w span, v => Action.bares_pure _
  | array parts _ _ span, v => by
    cases v with
    | array element items =>
      rw [bare, matchValue, matchValue, length_bareAll]
      split
      · exact bares_matchItems parts items
      · exact Action.bares_pure false
    | _ => exact Action.bares_fail rfl
  | tuple parts span, v => by
    cases v with
    | tuple types items =>
      rw [bare, matchValue, matchValue, length_bareAll]
      split
      · exact bares_matchItems parts items
      · exact Action.bares_pure false
    | _ => exact Action.bares_fail rfl
  | group .., _ | letIn .., _ | assign .., _ | matchWith .., _ | call .., _ | ifElse .., _
  | whileDo .., _ | forTo .., _ | binary .., _ | unary .., _ | cast .., _ => Action.bares_fail rfl
theorem bares_matchItems : ∀ (ps : List Expr) (vs : List Value),
    Action.Bares (matchItems ps vs) (matchItems (bareAll ps) vs)
  | [], vs => by cases vs <;> exact Action.bares_pure true
  | p :: ps, [] => Action.bares_pure true
  | p :: ps, v :: vs => by
    rw [bareAll, matchItems, matchItems]
    apply Action.bares_bind (bares_matchValue p v)
    intro b
    cases b with
    | true => exact bares_matchItems ps vs
    | false => exact Action.bares_pure false
end

end Expr

namespace Eval

open TypedLet.Expr

/-- The second run does without spans what the first one does with them. -/
def Bares (x x' : Eval α) : Prop := ∀ m : Machine, x' m.bare = (x m).bare

theorem bares_pure (a : α) : Bares (Pure.pure a) (Pure.pure a) := fun _ => rfl

theorem bares_bind {x x' : Eval α} {f f' : α → Eval β} (first : Bares x x')
    (next : ∀ a, Bares (f a) (f' a)) : Bares (x >>= f) (x' >>= f') := by
  intro m
  change Eval.bind x' f' m.bare = (Eval.bind x f m).bare
  unfold Eval.bind
  rw [first m]
  cases x m with
  | done a after => exact next a after
  | failed | outOfFuel => rfl

theorem bares_ofExcept {r : Except Error α} (spanless : Spanless r) :
    Bares (ofExcept r) (ofExcept r) := by
  intro m
  cases r with
  | ok a => rfl
  | error e => exact congrArg (Outcome.failed · m.bare) (Except.error.inj spanless).symm

theorem bares_fail (cause : Fault) (span : Option Span) :
    Bares (fail cause span : Eval α) (fail cause none) := fun _ => rfl

theorem bares_ofFault (r : Except Fault α) : Bares (ofFault r) (ofFault r) := by
  cases r with
  | ok a => exact bares_pure a
  | error cause => exact bares_fail cause none

theorem bares_onScopes {x x' : Action Value α} (same : Action.Bares x x') :
    Bares (onScopes x) (onScopes x') := by
  intro m
  have run : x' m.bare.scopes = _ := same m.scopes
  unfold onScopes
  rw [run]
  cases x m.scopes with
  | mk result after => cases result <;> rfl

theorem bares_print (text : String) : Bares (print text) (print text) := fun _ => rfl

theorem bare_closing {x x' : Eval α} {f f' : Machine → Except Error Machine} {m m' : Machine}
    (run : x' m' = (x m).bare)
    (close : ∀ after, f' after.bare = ((f after).mapError Error.bare).map Machine.bare) :
    closing x' f' m' = (closing x f m).bare := by
  unfold closing
  rw [run]
  cases x m with
  | done a after | failed e after =>
    simp only [Outcome.bare, close after]
    cases f after <;> rfl
  | outOfFuel => rfl

theorem bares_inScope {x x' : Eval α} (run : Bares x x') : Bares (inScope x) (inScope x') := by
  intro m
  apply bare_closing (run { m with scopes := Scope.empty :: m.scopes })
  rintro ⟨scopes, output, abandoned⟩
  cases scopes <;> rfl

theorem bares_inFrame (depth : Int) {x x' : Eval α} (run : Bares x x') :
    Bares (inFrame depth x) (inFrame depth x') := by
  intro m
  have admitted : m.bare.scopes.checkFrame depth = m.scopes.checkFrame depth := by
    rw [checkFrame, checkFrame, Machine.bare, length_bare]
  unfold inFrame
  rw [admitted]
  cases check : m.scopes.checkFrame depth with
  | error e =>
    have spanless := spanless_checkFrame m.scopes depth
    rw [check] at spanless
    exact congrArg (Outcome.failed · m.bare) (Except.error.inj spanless).symm
  | ok d =>
    have start : Scopes.outermost m.bare.scopes d = Scopes.bare (m.scopes.outermost d) := 
      outermost_bare _ _
    dsimp only
    rw [start]
    apply bare_closing (run { m with scopes := Scope.empty :: m.scopes.outermost d })
    intro after
    change Except.ok _ = Except.ok _
    simp only [Machine.bare, innermost_bare, outermost_bare, length_bare, bare_append]

theorem bares_loop {cond cond' : Eval Bool} {body body' : Eval Unit} (test : Bares cond cond')
    (round : Bares body body') (fuel : Nat) :
    Bares (loop cond body fuel) (loop cond' body' fuel) := by
  induction fuel with
  | zero => intro m; rfl
  | succ fuel ih =>
    have again : ∀ b : Bool,
        Bares (if b then body >>= fun _ => loop cond body fuel else Pure.pure ())
          (if b then body' >>= fun _ => loop cond' body' fuel else Pure.pure ()) := by
      intro b
      cases b with
      | true => exact bares_bind round fun _ => ih
      | false => exact bares_pure ()
    intro m
    rw [loop_succ, loop_succ]
    exact bares_bind test again m

theorem bares_read (name : String) (span : Option Span) :
    Bares (read name span) (read name none) := by
  intro m
  have found : m.bare.scopes.findVar name = (m.scopes.findVar name).map Binding.bare :=
    findVar_bare name m.scopes
  unfold read
  rw [found]
  cases m.scopes.findVar name <;> rfl

theorem bares_assign (name : String) (v : Value) : Bares (assign name v) (assign name v) :=
  bares_onScopes (bares_assignValue name v)

theorem bares_declare (decl : Declaration) (v : Value) :
    Bares (declare decl v) (declare decl.bare v) :=
  bares_onScopes (Action.bares_update (declareVar_bare decl v))

theorem bares_declareFns (fns : List FnDecl) :
    Bares (declareFns fns) (declareFns (bareFns fns)) := by
  induction fns with
  | nil => exact bares_pure ()
  | cons f fs ih =>
    exact bares_bind (bares_onScopes (Action.bares_update (declareFn_bare f))) fun _ => ih

theorem bares_declareArgs (args : List ArgDecl) : ∀ vs : List Value,
    Bares (declareArgs args vs) (declareArgs (args.map ArgDecl.bare) vs) := by
  induction args with
  | nil => intro vs; exact bares_pure ()
  | cons a as ih =>
    intro vs
    cases vs with
    | nil => exact bares_pure ()
    | cons v vs => exact bares_bind (bares_declare (.arg a) v) fun _ => ih vs

theorem bares_callBuiltin (name : String) (args : List Value) :
    Bares (callBuiltin name args) (callBuiltin name args) := by
  apply bares_bind (bares_ofExcept (Builtin.spanless_callNamed name args))
  intro answer
  exact bares_bind (bares_print _) fun _ => bares_pure _

theorem bares_tryMatch (p : Expr) (v : Value) : Bares (tryMatch p v) (tryMatch p.bare v) := by
  intro m
  have run : p.bare.matchValue v m.bare.scopes = _ := bares_matchValue p v m.scopes
  unfold tryMatch
  rw [run]
  cases p.matchValue v m.scopes with
  | mk result after =>
    cases result with
    | error e => rfl
    | ok matched =>
      cases matched with
      | true => rfl
      | false =>
        change Outcome.done _ _ = Outcome.done _ _
        simp only [Machine.bare, giveUp, length_bare, innermost_bare, bare_append]

section Parts

variable {eval : Expr → Eval Value} (parts : ∀ e : Expr, Bares (eval e) (eval e.bare))

include parts

theorem bares_all (es : List Expr) : Bares (all eval es) (all eval (bareAll es)) := by
  induction es with
  | nil => exact bares_pure []
  | cons e es ih =>
    apply bares_bind (parts e)
    intro v
    exact bares_bind ih fun _ => bares_pure _

theorem bares_row (es : List Expr) : Bares (row eval es) (row eval (bareAll es)) :=
  bares_bind (bares_all parts es) fun _ => bares_pure _

theorem bares_declareVars (vars : List VarDecl) :
    Bares (declareVars eval vars) (declareVars eval (bareVars vars)) := by
  induction vars with
  | nil => exact bares_pure ()
  | cons d ds ih =>
    rw [bareVars, declareVars, declareVars, bareVar_value]
    apply bares_bind (parts d.value)
    intro v
    exact bares_bind (bares_declare (.var d) v) fun _ => ih

theorem bares_callFn (f : FnDecl) (args : List Value) (depth : Int) :
    Bares (callFn eval f args depth) (callFn eval (bareFn f) args depth) := by
  unfold callFn
  rw [bareFn_args, List.length_map, bareFn_name, bareFn_body]
  split
  · apply bares_inFrame
    exact bares_bind (bares_declareArgs f.args args) fun _ => parts f.body
  · exact bares_fail _ _

theorem bares_call (name : String) (args : List Value) :
    Bares (call eval name args) (call eval name args) := by
  intro m
  have found : m.bare.scopes.resolveFn name = _ := resolveFn_bare name m.scopes
  unfold call
  rw [found]
  cases m.scopes.resolveFn name with
  | none => exact bares_callBuiltin name args m
  | some r => exact bares_callFn parts r.1 args r.2 m

end Parts

theorem bares_below (loop : VarDecl) (goal : Value) :
    Bares (below loop goal) (below (bareVar loop) goal) := by
  unfold below
  rw [bareVar_name, bareVar_span]
  apply bares_bind (bares_read _ _)
  intro v
  exact bares_bind (bares_ofExcept (BinaryOp.spanless_apply _ _ _)) fun _ => bares_ofFault _

theorem bares_advance (loop : VarDecl) : Bares (advance loop) (advance (bareVar loop)) := by
  unfold advance
  rw [bareVar_name, bareVar_span]
  apply bares_bind (bares_read _ _)
  intro v
  apply bares_bind (bares_ofExcept (BinaryOp.spanless_apply _ _ _))
  intro next
  exact bares_assign _ next

end Eval

namespace Expr

open Eval

/-- Spans have no part in evaluation: a run of the expression without them is the run of the
    expression, without them. -/
theorem bares_eval (fuel : Nat) : ∀ e : Expr, Bares (e.eval fuel) (e.bare.eval fuel) := by
  induction fuel with
  | zero => intro e m; rfl
  | succ fuel ih =>
    intro e
    cases e with
    | literal v span => exact bares_pure v
    | var name span => exact bares_read name span
    | group body span => exact bares_row ih body
    | letIn vars fns body span =>
      apply bares_inScope
      apply bares_bind (bares_declareVars ih vars)
      intro _
      apply bares_bind (bares_declareFns fns)
      intro _
      exact bares_row ih body
    | assign name value nameSpan span =>
      apply bares_bind (ih value)
      intro v
      exact bares_bind (bares_assign name v) fun _ => bares_pure v
    | matchWith pattern value span =>
      apply bares_bind (ih value)
      intro v
      exact bares_bind (bares_tryMatch pattern v) fun _ => bares_pure _
    | call name args span =>
      apply bares_bind (bares_all ih args)
      intro vs
      exact bares_call ih name vs
    | ifElse cond whenTrue whenFalse span =>
      apply bares_bind (ih cond)
      intro v
      apply bares_bind (bares_ofFault _)
      intro b
      cases b with
      | true => exact ih whenTrue
      | false => exact ih whenFalse
    | whileDo cond body span =>
      apply bares_bind _ fun _ => bares_pure _
      apply bares_loop
      · exact bares_bind (ih cond) fun v => bares_ofFault _
      · exact bares_bind (ih body) fun _ => bares_pure _
    | forTo loop goal body span =>
      apply bares_bind _ fun _ => bares_pure _
      apply bares_inScope
      rw [bareVar_value]
      apply bares_bind (ih loop.value)
      intro start
      apply bares_bind (ih goal)
      intro bound
      apply bares_bind (bares_declare (.var loop) start)
      intro _
      apply bares_loop (bares_below loop bound)
      exact bares_bind (ih body) fun _ => bares_advance loop
    | binary left op right span =>
      apply bares_bind (ih left)
      intro v
      exact bares_bind (ih right) fun w => bares_ofExcept (op.spanless_apply v w)
    | unary op operand span =>
      exact bares_bind (ih operand) fun v => bares_ofExcept (op.spanless_apply v)
    | cast operand target span => exact bares_bind (ih operand) fun v => bares_ofFault _
    | array items element elementSpan span =>
      apply bares_bind (bares_all ih items)
      intro vs
      cases element with
      | some t => exact bares_pure _
      | none =>
        cases vs with
        | nil => exact bares_fail _ _
        | cons v vs => exact bares_pure _
    | tuple items span => exact bares_bind (bares_all ih items) fun _ => bares_pure _

end Expr

namespace Tree

theorem eval_parts (tree : Tree) (fuel : Nat) :
    tree.eval fuel = Eval.row (Expr.eval fuel) tree.parts := by
  cases tree with
  | block body => rfl
  | expr e => exact (Expr.row_singleton _ e).symm

/-- Programs that differ in their spans only end alike but for spans, from machines that do. -/
theorem eval_of_bare {tree tree' : Tree} (same : tree.bare = tree'.bare) (fuel : Nat)
    {m m' : Machine} (start : m.bare = m'.bare) :
    (tree.eval fuel m).bare = (tree'.eval fuel m').bare := by
  have stripped : ∀ (tree : Tree) (m : Machine),
      (tree.eval fuel m).bare = Eval.row (Expr.eval fuel) tree.bare m.bare := by
    intro tree m
    rw [eval_parts]
    exact (Eval.bares_row (Expr.bares_eval fuel) tree.parts m).symm
  rw [stripped, stripped, same, start]

end Tree
end TypedLet
