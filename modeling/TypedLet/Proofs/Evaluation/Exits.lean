import Mathlib.Data.List.Forall2
import TypedLet.Proofs.Evaluation.Outline

/-
The ways a run can end. Whatever the program and the scopes it starts on, checked or not,
a run that ends with an error ends with a broken invariant, with a name declared twice in
one scope or with the division of an integer by zero. And with an error as with a result
the scopes that were there are there again, with the same declarations in them; only what
the variables carry may be new.
-/
namespace TypedLet

/-- What evaluation can fail with. -/
inductive Error.AtRuntime : Error → Prop
  | internal {cause : Fault} {span : Option Span} : AtRuntime (.internal cause span)
  | alreadyDeclared {name : String} {first : Declaration} {span : Option Span} :
      AtRuntime (.typing (.alreadyDeclared name first) span)
  | divisionByZero : AtRuntime .divisionByZero

def OnlyAtRuntime (r : Except Error α) : Prop := ∀ e, r = .error e → e.AtRuntime

theorem atRuntime_ok (a : α) : OnlyAtRuntime (.ok a) := by
  intro e fails
  cases fails

theorem atRuntime_internal (cause : Fault) (span : Option Span) :
    OnlyAtRuntime (.error (.internal cause span) : Except Error α) := by
  intro e fails
  cases fails
  exact .internal

theorem atRuntime_map {r : Except Error α} (h : OnlyAtRuntime r) (f : α → β) :
    OnlyAtRuntime (r.map f) := by
  intro e fails
  cases r with
  | ok a => cases fails
  | error e' =>
    cases fails
    exact h _ rfl

theorem BinaryOp.atRuntime_apply (op : BinaryOp) (v w : Value) :
    OnlyAtRuntime (op.apply v w) := by
  intro e fails
  unfold apply at fails
  repeat' split at fails
  all_goals cases fails
  · exact .divisionByZero
  · exact .internal

theorem UnaryOp.atRuntime_apply (op : UnaryOp) (v : Value) :
    OnlyAtRuntime (op.apply v) := by
  intro e fails
  unfold apply at fails
  split at fails
  all_goals cases fails
  exact .internal

theorem Builtin.atRuntime_callNamed (name : String) (args : List Value) :
    OnlyAtRuntime (callNamed name args) := by
  unfold callNamed
  split
  · next b _ =>
    unfold call
    split
    · exact atRuntime_map (BinaryOp.atRuntime_apply _ _ _) _
    · exact atRuntime_map (UnaryOp.atRuntime_apply _ _) _
    · exact atRuntime_ok _
    · exact atRuntime_ok _
    · exact atRuntime_internal _ _
  · exact atRuntime_internal _ _

namespace Scopes

variable {scopes : Scopes α}

theorem atRuntime_leave : OnlyAtRuntime scopes.leave := by
  cases scopes with
  | nil => exact atRuntime_internal _ _
  | cons s outer => exact atRuntime_ok outer

theorem atRuntime_declareVar (decl : Declaration) (a : α) :
    OnlyAtRuntime (declareVar decl a scopes) := by
  cases scopes with
  | nil => exact atRuntime_internal _ _
  | cons s outer =>
    rw [declareVar]
    split
    · intro e fails
      cases fails
      exact .alreadyDeclared
    · exact atRuntime_ok _

theorem atRuntime_declareFn (f : FnDecl) : OnlyAtRuntime (declareFn f scopes) := by
  cases scopes with
  | nil => exact atRuntime_internal _ _
  | cons s outer =>
    rw [declareFn]
    split
    · intro e fails
      cases fails
      exact .alreadyDeclared
    · exact atRuntime_ok _

theorem atRuntime_assign (name : String) (a : α) : OnlyAtRuntime (assign scopes name a) := by
  unfold assign
  split
  · exact atRuntime_ok _
  · exact atRuntime_internal _ _

theorem atRuntime_checkFrame (depth : Int) : OnlyAtRuntime (checkFrame scopes depth) := by
  unfold checkFrame
  split
  · exact atRuntime_ok _
  · exact atRuntime_internal _ _

end Scopes

namespace Expr

mutual
theorem atRuntime_matchValue : ∀ (p : Expr) (v : Value) (scopes : Scopes Value),
    OnlyAtRuntime (p.matchValue v scopes).1
  | var name span, v, scopes => by
    rw [matchValue_var]
    split
    · exact atRuntime_ok _
    · exact atRuntime_internal _ _
  | literal w span, v, scopes => atRuntime_ok _
  | array parts _ _ span, v, scopes => by
    cases v with
    | array element items =>
      rw [matchValue]
      split
      · exact atRuntime_matchItems parts items scopes
      · exact atRuntime_ok _
    | _ => exact atRuntime_internal _ _
  | tuple parts span, v, scopes => by
    cases v with
    | tuple types items =>
      rw [matchValue]
      split
      · exact atRuntime_matchItems parts items scopes
      · exact atRuntime_ok _
    | _ => exact atRuntime_internal _ _
  | group .., _, _ | letIn .., _, _ | assign .., _, _ | matchWith .., _, _ | call .., _, _
  | ifElse .., _, _ | whileDo .., _, _ | forTo .., _, _ | binary .., _, _ | unary .., _, _
  | cast .., _, _ => atRuntime_internal _ _
theorem atRuntime_matchItems : ∀ (ps : List Expr) (vs : List Value) (scopes : Scopes Value),
    OnlyAtRuntime (matchItems ps vs scopes).1
  | [], vs, scopes => by cases vs <;> exact atRuntime_ok _
  | p :: ps, [], scopes => atRuntime_ok _
  | p :: ps, v :: vs, scopes => by
    have first := atRuntime_matchValue p v scopes
    change OnlyAtRuntime (Action.bind (p.matchValue v) _ scopes).1
    unfold Action.bind
    cases run : p.matchValue v scopes with
    | mk result middle =>
      rw [run] at first
      cases result with
      | error e =>
        intro e' fails
        cases fails
        exact first e rfl
      | ok matched =>
        cases matched with
        | false => exact atRuntime_ok _
        | true => exact atRuntime_matchItems ps vs middle
end

end Expr

namespace Eval

def Exits (x : Eval α) : Prop := ∀ m, (x m).Holds (fun _ _ => True) (fun e _ => e.AtRuntime)

theorem exits_pure (a : α) : Exits (Pure.pure a) := fun _ => trivial

theorem exits_bind {x : Eval α} {f : α → Eval β} (first : Exits x) (next : ∀ a, Exits (f a)) :
    Exits (x >>= f) :=
  fun m => holds_bind (first m) fun a after _ => next a after

theorem exits_ofExcept {r : Except Error α} (h : OnlyAtRuntime r) : Exits (ofExcept r) :=
  fun _ => holds_ofExcept (fun _ _ => trivial) h

theorem exits_fail (cause : Fault) (span : Option Span) : Exits (fail cause span : Eval α) :=
  fun _ => .internal

theorem exits_update {f : Scopes Value → Except Error (Scopes Value)}
    (h : ∀ scopes, OnlyAtRuntime (f scopes)) : Exits (onScopes (Action.update f)) :=
  fun m => holds_update (fun _ _ => trivial) (h m.scopes)

theorem exits_closing {x : Eval α} {f : Machine → Except Error Machine} (run : Exits x)
    (close : ∀ after, OnlyAtRuntime (f after)) : Exits (closing x f) := by
  intro m
  have ends := run m
  unfold closing
  cases ran : x m with
  | done a after =>
    dsimp only
    split
    · trivial
    · next e fails => exact close after e fails
  | failed e after =>
    rw [ran] at ends
    dsimp only
    split
    · exact ends
    · next e' fails => exact close after e' fails
  | outOfFuel => trivial

theorem exits_inScope {x : Eval α} (run : Exits x) : Exits (inScope x) :=
  fun _ => exits_closing run (fun _ => atRuntime_map Scopes.atRuntime_leave _) _

theorem exits_inFrame {x : Eval α} (depth : Int) (run : Exits x) : Exits (inFrame depth x) := by
  intro m
  unfold inFrame
  split
  · next e refused => exact Scopes.atRuntime_checkFrame depth e refused
  · exact exits_closing run (fun _ => atRuntime_ok _) _

theorem exits_loop {cond : Eval Bool} {body : Eval Unit} (test : Exits cond) (round : Exits body)
    (fuel : Nat) : Exits (loop cond body fuel) :=
  fun m => holds_loop (fun m _ => test m) (fun m _ => round m) fuel m trivial

theorem exits_read (name : String) (span : Option Span) : Exits (read name span) := by
  intro m
  unfold read
  split
  · trivial
  · exact .internal

theorem exits_tryMatch (p : Expr) (v : Value) : Exits (tryMatch p v) := by
  intro m
  have matched := Expr.atRuntime_matchValue p v m.scopes
  unfold tryMatch
  split
  · trivial
  · trivial
  · next e scopes run =>
    rw [run] at matched
    exact matched e rfl

def exiting : Plain Unit where
  Has _ _ x := Exits x
  inside := id
  outOfFuel _ := trivial
  pure := exits_pure
  bind := exits_bind
  fail := exits_fail
  binary op v w := exits_ofExcept (BinaryOp.atRuntime_apply op v w)
  unary op v := exits_ofExcept (UnaryOp.atRuntime_apply op v)
  builtin name args := exits_ofExcept (Builtin.atRuntime_callNamed name args)
  print _ _ := trivial
  read := exits_read
  declare decl v := exits_update fun _ => Scopes.atRuntime_declareVar decl v
  inScope := exits_inScope
  loop := exits_loop
  assign name v := exits_update fun _ => Scopes.atRuntime_assign name v
  tryMatch := exits_tryMatch
  declareFn f := exits_update fun _ => Scopes.atRuntime_declareFn f
  inFrame := exits_inFrame
  pointwise each m := by
    obtain ⟨y, exits, same⟩ := each m
    rw [same]
    exact exits m

end Eval

theorem Tree.exits_eval (tree : Tree) (fuel : Nat) : Eval.Exits (tree.eval fuel) :=
  Eval.exiting.closed.evalTree (fun _ => not_false) fuel () tree

def Scope.SameDeclared (s s' : Scope α) : Prop :=
  s'.vars.map Binding.decl = s.vars.map Binding.decl ∧ s'.fns = s.fns

theorem Scope.mapInfo_eq_iff {s s' : Scope α} :
    s'.mapInfo (fun _ => ()) = s.mapInfo (fun _ => ()) ↔ Scope.SameDeclared s s' := by
  have bare : ∀ vars : List (Binding α), vars.map (·.mapInfo fun _ => ()) =
      (vars.map Binding.decl).map fun decl => Binding.of decl () := by
    intro vars
    rw [List.map_map]
    exact List.map_congr_left fun b _ => Binding.ext_decl rfl rfl
  have inj : Function.Injective fun decl => Binding.of decl () :=
    fun _ _ same => congrArg Binding.decl same
  rw [Scope.mapInfo, Scope.mapInfo, Scope.mk.injEq, bare, bare, inj.list_map.eq_iff,
    Scope.functions_eq_iff]
  rfl

theorem Scopes.outline_eq_iff {scopes after : Scopes α} :
    after.outline = scopes.outline ↔ List.Forall₂ Scope.SameDeclared scopes after := by
  induction scopes generalizing after with
  | nil => simp [outline, mapInfo]
  | cons s outer ih =>
    cases after with
    | nil => simp [outline, mapInfo]
    | cons s' outer' =>
      rw [List.forall₂_cons, ← ih, ← Scope.mapInfo_eq_iff]
      simp [outline]

/-- However a run ends, each scope is there with the same declarations; and the errors that
    it can end with are three. -/
theorem Tree.eval_keeps_shape (tree : Tree) (fuel : Nat) (m : Machine) :
    (tree.eval fuel m).Holds
      (fun _ after => List.Forall₂ Scope.SameDeclared m.scopes after.scopes)
      (fun e after => e.AtRuntime ∧
        List.Forall₂ Scope.SameDeclared m.scopes after.scopes) := by
  apply Outcome.holds_mono (Outcome.holds_and (tree.exits_eval fuel m) (tree.keeps_eval fuel m))
  · rintro _ after ⟨_, same⟩
    exact Scopes.outline_eq_iff.mp same
  · rintro e after ⟨atRuntime, same⟩
    exact ⟨atRuntime, Scopes.outline_eq_iff.mp same⟩

end TypedLet
