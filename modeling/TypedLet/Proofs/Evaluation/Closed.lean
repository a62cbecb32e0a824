import TypedLet.Proofs.Evaluation.Holds

/-
Properties of runs that are closed under the actions of the machine. Such a property may depend
on where a run takes place: what runs under a new scope may declare in it. And it may hold only
of what spares certain names, that is, does not assign them. It is then one of the evaluation
of every expression that spares them, so that what is said of all runs is shown once for
each action.
-/
namespace TypedLet

namespace Expr

mutual
def captures : Expr → List String
  | var name _ => [name]
  | array items _ _ _ => capturesAll items
  | tuple items _ => capturesAll items
  | _ => []
def capturesAll : List Expr → List String
  | [] => []
  | p :: ps => p.captures ++ capturesAll ps
end

mutual
/-- The names that are assigned or matched, in the bodies of functions too. A loop only
    advances its own variable. -/
def assigned : Expr → List String
  | literal _ _ | var _ _ => []
  | group body _ => assignedAll body
  | letIn vars fns body _ => assignedVars vars ++ assignedFns fns ++ assignedAll body
  | assign name value _ _ => name :: value.assigned
  | matchWith pattern value _ => pattern.captures ++ value.assigned
  | call _ args _ => assignedAll args
  | ifElse cond whenTrue whenFalse _ =>
    cond.assigned ++ whenTrue.assigned ++ whenFalse.assigned
  | whileDo cond body _ => cond.assigned ++ body.assigned
  | forTo ⟨_, start, _⟩ goal body _ => start.assigned ++ goal.assigned ++ body.assigned
  | binary left _ right _ => left.assigned ++ right.assigned
  | unary _ operand _ => operand.assigned
  | cast operand _ _ => operand.assigned
  | array items _ _ _ => assignedAll items
  | tuple items _ => assignedAll items
def assignedAll : List Expr → List String
  | [] => []
  | e :: es => e.assigned ++ assignedAll es
def assignedVars : List VarDecl → List String
  | [] => []
  | ⟨_, value, _⟩ :: rest => value.assigned ++ assignedVars rest
def assignedFns : List FnDecl → List String
  | [] => []
  | ⟨_, _, _, body, _⟩ :: rest => body.assigned ++ assignedFns rest
end

theorem forall_assignedAll {Q : String → Prop} {es : List Expr} :
    (∀ x ∈ assignedAll es, Q x) ↔ ∀ e ∈ es, ∀ x ∈ e.assigned, Q x := by
  induction es with
  | nil => simp [assignedAll]
  | cons e es ih => simp only [assignedAll, List.forall_mem_append, List.forall_mem_cons, ih]

theorem forall_assignedVars {Q : String → Prop} {vars : List VarDecl} :
    (∀ x ∈ assignedVars vars, Q x) ↔ ∀ d ∈ vars, ∀ x ∈ d.value.assigned, Q x := by
  induction vars with
  | nil => simp [assignedVars]
  | cons d ds ih =>
    obtain ⟨name, value, span⟩ := d
    simp only [assignedVars, List.forall_mem_append, List.forall_mem_cons, ih]

theorem forall_assignedFns {Q : String → Prop} {fns : List FnDecl} :
    (∀ x ∈ assignedFns fns, Q x) ↔ ∀ f ∈ fns, ∀ x ∈ f.body.assigned, Q x := by
  induction fns with
  | nil => simp [assignedFns]
  | cons f fs ih =>
    obtain ⟨name, args, result, body, span⟩ := f
    simp only [assignedFns, List.forall_mem_append, List.forall_mem_cons, ih]

theorem assigned_forTo {loop : VarDecl} {goal body : Expr} {span : Option Span} :
    (forTo loop goal body span).assigned =
      loop.value.assigned ++ goal.assigned ++ body.assigned := by
  obtain ⟨⟩ := loop
  rfl

end Expr

namespace Eval

/-- A property of runs, by where they take place, that the actions have which assign nothing,
    and that is kept where runs are put together. -/
structure Laws (ι : Type) where
  Has : ι → ∀ {α : Type}, Eval α → Prop
  /-- The place under a new scope. -/
  inside : ι → ι
  outOfFuel : ∀ {i : ι} {α : Type}, Has i (Eval.outOfFuel : Eval α)
  pure : ∀ {i : ι} {α : Type} (a : α), Has i (Pure.pure a : Eval α)
  bind : ∀ {i : ι} {α β : Type} {x : Eval α} {f : α → Eval β},
    Has i x → (∀ a, Has i (f a)) → Has i (x >>= f)
  fail : ∀ {i : ι} {α : Type} (cause : Fault) (span : Option Span),
    Has i (Eval.fail cause span : Eval α)
  binary : ∀ {i : ι} (op : BinaryOp) (v w : Value), Has i (ofExcept (op.apply v w))
  unary : ∀ {i : ι} (op : UnaryOp) (v : Value), Has i (ofExcept (op.apply v))
  builtin : ∀ {i : ι} (name : String) (args : List Value),
    Has i (ofExcept (Builtin.callNamed name args))
  print : ∀ {i : ι} (text : String), Has i (Eval.print text)
  read : ∀ {i : ι} (name : String) (span : Option Span), Has i (Eval.read name span)
  declare : ∀ {i : ι} (decl : Declaration) (v : Value), Has (inside i) (Eval.declare decl v)
  inScope : ∀ {i : ι} {α : Type} {x : Eval α}, Has (inside i) x → Has i (Eval.inScope x)
  loop : ∀ {i : ι} {cond : Eval Bool} {body : Eval Unit}, Has i cond → Has i body →
    ∀ fuel, Has i (Eval.loop cond body fuel)

namespace Laws

variable {ι : Type} (L : Laws ι) {i : ι}

theorem ofFault (x : Except Fault α) : L.Has i (Eval.ofFault x) := by
  cases x with
  | ok a => exact L.pure a
  | error cause => exact L.fail cause none

theorem callBuiltin (name : String) (args : List Value) :
    L.Has i (Eval.callBuiltin name args) :=
  L.bind (L.builtin name args) fun _ => L.bind (L.print _) fun _ => L.pure _

theorem below (loop : VarDecl) (goal : Value) : L.Has i (Eval.below loop goal) :=
  L.bind (L.read _ _) fun _ => L.bind (L.binary _ _ _) fun _ => L.ofFault _

theorem declareArgs (args : List ArgDecl) :
    ∀ vs, L.Has (L.inside i) (Eval.declareArgs args vs) := by
  induction args with
  | nil => intro vs; exact L.pure ()
  | cons a as ih =>
    intro vs
    cases vs with
    | nil => exact L.pure ()
    | cons v vs => exact L.bind (L.declare _ v) fun _ => ih vs

section Parts

variable {eval : Expr → Eval Value}

theorem all {es : List Expr} : (∀ e ∈ es, L.Has i (eval e)) → L.Has i (Eval.all eval es) := by
  induction es with
  | nil => intro _; exact L.pure []
  | cons e es ih =>
    intro each
    obtain ⟨first, others⟩ := List.forall_mem_cons.mp each
    exact L.bind first fun _ => L.bind (ih others) fun _ => L.pure _

theorem row {body : List Expr} (each : ∀ e ∈ body, L.Has i (eval e)) :
    L.Has i (Eval.row eval body) :=
  L.bind (L.all each) fun _ => L.pure _

theorem declareVars {vars : List VarDecl} : (∀ d ∈ vars, L.Has (L.inside i) (eval d.value)) →
    L.Has (L.inside i) (Eval.declareVars eval vars) := by
  induction vars with
  | nil => intro _; exact L.pure ()
  | cons d ds ih =>
    intro each
    obtain ⟨first, others⟩ := List.forall_mem_cons.mp each
    exact L.bind first fun v => L.bind (L.declare _ v) fun _ => ih others

end Parts
end Laws

structure Plain (ι : Type) extends Laws ι where
  assign : ∀ {i : ι} (name : String) (v : Value), Has i (Eval.assign name v)
  tryMatch : ∀ {i : ι} (pattern : Expr) (v : Value), Has i (Eval.tryMatch pattern v)
  declareFn : ∀ {i : ι} (f : FnDecl),
    Has (inside i) (onScopes (Action.update (Scopes.declareFn f)))
  inFrame : ∀ {i : ι} {α : Type} {x : Eval α} (depth : Int),
    Has (inside i) x → Has i (Eval.inFrame depth x)
  pointwise : ∀ {i : ι} {α : Type} {x : Eval α},
    (∀ m, ∃ y : Eval α, Has i y ∧ x m = y m) → Has i x

namespace Plain

variable {ι : Type} (L : Plain ι) {i : ι} {eval : Expr → Eval Value}

theorem advance (loop : VarDecl) : L.Has i (Eval.advance loop) :=
  L.bind (L.read _ _) fun _ => L.bind (L.binary _ _ _) fun _ => L.assign _ _

theorem declareFns (fns : List FnDecl) : L.Has (L.inside i) (Eval.declareFns fns) := by
  induction fns with
  | nil => exact L.pure ()
  | cons f fs ih => exact L.bind (L.declareFn f) fun _ => ih

theorem rounds (loop : VarDecl) (start goal : Value) {body : Expr} (fuel : Nat)
    (each : L.Has (L.inside i) (eval body)) :
    L.Has (L.inside i) (do
      declare (.var loop) start
      Eval.loop (below loop goal)
        (do
          let _ ← eval body
          Eval.advance loop)
        fuel) := by
  apply L.bind (L.declare _ start)
  intro _
  exact L.loop (L.below loop goal) (L.bind each fun _ => L.advance loop) fuel

theorem callFn {f : FnDecl} (body : L.Has (L.inside i) (eval f.body)) (args : List Value)
    (depth : Int) : L.Has i (Eval.callFn eval f args depth) := by
  unfold Eval.callFn
  split
  · exact L.inFrame depth (L.bind (L.declareArgs f.args args) fun _ => body)
  · exact L.fail _ _

theorem call (each : ∀ e, L.Has (L.inside i) (eval e)) (name : String) (args : List Value) :
    L.Has i (Eval.call eval name args) := by
  apply L.pointwise
  intro m
  unfold Eval.call
  cases Scopes.resolveFn name m.scopes with
  | none => exact ⟨_, L.callBuiltin name args, rfl⟩
  | some found => exact ⟨_, L.callFn (each found.1.body) args found.2, rfl⟩

end Plain

def Laws.maintained {ι : Type} (I : ι → Machine → Prop) (inside : ι → ι)
    (print : ∀ i text, Maintains (I i) (Eval.print text))
    (declare : ∀ i decl v, Maintains (I (inside i)) (Eval.declare decl v))
    (inScope : ∀ i (α : Type) (x : Eval α), Maintains (I (inside i)) x →
      Maintains (I i) (Eval.inScope x)) : Laws ι where
  Has i _ x := Maintains (I i) x
  inside := inside
  outOfFuel _ _ := trivial
  pure := maintains_pure
  bind := maintains_bind
  fail := maintains_fail
  binary _ _ _ := maintains_ofExcept _
  unary _ _ := maintains_ofExcept _
  builtin _ _ := maintains_ofExcept _
  print := print _
  read := maintains_read
  declare := declare _
  inScope := inScope _ _ _
  loop := maintains_loop

theorem maintains_pointwise {I : Machine → Prop} {x : Eval α}
    (each : ∀ m, ∃ y : Eval α, Maintains I y ∧ x m = y m) : Maintains I x := by
  intro m start
  obtain ⟨y, maintains, same⟩ := each m
  rw [same]
  exact maintains m start

/-- A property of runs that is closed under all actions, where the spared names are not
    assigned. A loop may advance a variable of its own, whatever its name. -/
structure Closed (ι : Type) extends Laws ι where
  spared : String → Prop
  assign : ∀ {i : ι} {name : String} (v : Value), ¬ spared name → Has i (Eval.assign name v)
  tryMatch : ∀ {i : ι} {pattern : Expr} (v : Value), (∀ x ∈ pattern.captures, ¬ spared x) →
    Has i (Eval.tryMatch pattern v)
  declareFn : ∀ {i : ι} {f : FnDecl}, (∀ x ∈ f.body.assigned, ¬ spared x) →
    Has (inside i) (onScopes (Action.update (Scopes.declareFn f)))
  rounds : ∀ {i : ι} {fuel : Nat} {body : Expr} (loop : VarDecl) (start goal : Value),
    Has (inside i) (body.eval fuel) →
      Has (inside i) (do
        Eval.declare (.var loop) start
        Eval.loop (Eval.below loop goal)
          (do
            let _ ← body.eval fuel
            advance loop)
          fuel)
  call : ∀ {i : ι} {fuel : Nat} (name : String) (args : List Value),
    (∀ j (e : Expr), (∀ x ∈ e.assigned, ¬ spared x) → Has j (e.eval fuel)) →
      Has i (Eval.call (Expr.eval fuel) name args)

namespace Closed

variable {ι : Type} (C : Closed ι) {i : ι}

theorem declareFns {fns : List FnDecl} : (∀ f ∈ fns, ∀ x ∈ f.body.assigned, ¬ C.spared x) →
    C.Has (C.inside i) (Eval.declareFns fns) := by
  induction fns with
  | nil => intro _; exact C.pure ()
  | cons f fs ih =>
    intro each
    obtain ⟨first, others⟩ := List.forall_mem_cons.mp each
    exact C.bind (C.declareFn first) fun _ => ih others

/-- The evaluation of an expression has the property, by induction on the fuel: each form is
    put together from actions and from evaluations with less. -/
theorem eval (fuel : Nat) : ∀ (i : ι) (e : Expr), (∀ x ∈ e.assigned, ¬ C.spared x) →
    C.Has i (e.eval fuel) := by
  induction fuel with
  | zero => exact fun _ _ _ => C.outOfFuel
  | succ fuel ih =>
    intro i e spares
    cases e with
    | literal v span => exact C.pure v
    | var name span => exact C.read name span
    | group body span =>
      exact C.row fun e member => ih i e (Expr.forall_assignedAll.mp spares e member)
    | letIn vars fns body span =>
      simp only [Expr.assigned, List.forall_mem_append] at spares
      obtain ⟨⟨inVars, inFns⟩, inBody⟩ := spares
      apply C.inScope
      apply C.bind
      · apply C.declareVars
        exact fun d member => ih _ d.value (Expr.forall_assignedVars.mp inVars d member)
      intro _
      apply C.bind (C.declareFns (Expr.forall_assignedFns.mp inFns))
      intro _
      exact C.row fun e member => ih _ e (Expr.forall_assignedAll.mp inBody e member)
    | assign name value nameSpan span =>
      obtain ⟨free, inValue⟩ := List.forall_mem_cons.mp spares
      exact C.bind (ih i value inValue) fun v => C.bind (C.assign v free) fun _ => C.pure v
    | matchWith pattern value span =>
      obtain ⟨inPattern, inValue⟩ := List.forall_mem_append.mp spares
      exact C.bind (ih i value inValue) fun v => C.bind (C.tryMatch v inPattern) fun _ =>
        C.pure _
    | call name args span =>
      have each := Expr.forall_assignedAll.mp spares
      exact C.bind (C.all fun e member => ih i e (each e member)) fun vs => C.call name vs ih
    | ifElse cond whenTrue whenFalse span =>
      simp only [Expr.assigned, List.forall_mem_append] at spares
      apply C.bind (ih i cond spares.1.1)
      intro v
      apply C.bind (C.ofFault _)
      intro b
      cases b with
      | true => exact ih i whenTrue spares.1.2
      | false => exact ih i whenFalse spares.2
    | whileDo cond body span =>
      obtain ⟨inCond, inBody⟩ := List.forall_mem_append.mp spares
      apply C.bind _ fun _ => C.pure _
      apply C.loop
      · exact C.bind (ih i cond inCond) fun _ => C.ofFault _
      · exact C.bind (ih i body inBody) fun _ => C.pure _
    | forTo loop goal body span =>
      simp only [Expr.assigned_forTo, List.forall_mem_append] at spares
      apply C.bind _ fun _ => C.pure _
      apply C.inScope
      apply C.bind (ih _ loop.value spares.1.1)
      intro start
      apply C.bind (ih _ goal spares.1.2)
      intro bound
      exact C.rounds loop start bound (ih _ body spares.2)
    | binary left op right span =>
      obtain ⟨inLeft, inRight⟩ := List.forall_mem_append.mp spares
      exact C.bind (ih i left inLeft) fun v => C.bind (ih i right inRight) fun w =>
        C.binary op v w
    | unary op operand span => exact C.bind (ih i operand spares) fun v => C.unary op v
    | cast operand target span => exact C.bind (ih i operand spares) fun _ => C.ofFault _
    | array items element elementSpan span =>
      have each := Expr.forall_assignedAll.mp spares
      apply C.bind (C.all fun e member => ih i e (each e member))
      intro vs
      cases element with
      | some t => exact C.pure _
      | none =>
        cases vs with
        | nil => exact C.fail _ _
        | cons v vs => exact C.pure _
    | tuple items span =>
      have each := Expr.forall_assignedAll.mp spares
      exact C.bind (C.all fun e member => ih i e (each e member)) fun _ => C.pure _

theorem evalTree (free : ∀ x, ¬ C.spared x) (fuel : Nat) (i : ι) (t : Tree) :
    C.Has i (t.eval fuel) := by
  cases t with
  | expr e => exact C.eval fuel i e fun x _ => free x
  | block body => exact C.row fun e _ => C.eval fuel i e fun x _ => free x

end Closed

def Plain.closed (L : Plain ι) : Closed ι where
  toLaws := L.toLaws
  spared _ := False
  assign v _ := L.assign _ v
  tryMatch v _ := L.tryMatch _ v
  declareFn _ := L.declareFn _
  rounds loop start goal each := L.rounds loop start goal _ each
  call name args each := L.call (fun e => each _ e fun _ _ => not_false) name args

end Eval
end TypedLet
