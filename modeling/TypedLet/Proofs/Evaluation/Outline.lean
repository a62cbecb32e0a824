import TypedLet.Proofs.Environment.Carry
import TypedLet.Proofs.Evaluation.Closed

/-
Evaluation keeps the outline of the scopes. However a run ends, the scopes that
were there are there again, with the variables and the functions they had; only
what the variables carry may be new. What runs directly under a new scope may
declare in it, and keeps the outline of all scopes outside of it.
-/
namespace TypedLet
namespace Eval

open Scopes

def Keeps (x : Eval α) : Prop := ∀ m,
  (x m).Holds (fun _ after => outline after.scopes = outline m.scopes)
    (fun _ after => outline after.scopes = outline m.scopes)

def Above (outer : Scopes Unit) (m : Machine) : Prop :=
  ∃ s rest, m.scopes = s :: rest ∧ outline rest = outer

def KeepsOuter (x : Eval α) : Prop := ∀ outer m, Above outer m →
  (x m).Holds (fun _ after => Above outer after) (fun _ after => Above outer after)

theorem above_of_outline {outer : Scopes Unit} {m after : Machine} (above : Above outer m)
    (same : outline after.scopes = outline m.scopes) : Above outer after := by
  obtain ⟨s, rest, stack, look⟩ := above
  rw [stack] at same
  cases scopes : after.scopes with
  | nil => rw [scopes] at same; simp [outline] at same
  | cons t others =>
    rw [scopes] at same
    simp only [outline, mapInfo_cons, List.cons.injEq] at same
    exact ⟨t, others, scopes, same.2.trans look⟩

theorem keepsOuter_of_keeps {x : Eval α} (h : Keeps x) : KeepsOuter x := by
  intro outer m above
  apply Outcome.holds_mono (h m)
  · intro _ after same
    exact above_of_outline above same
  · intro _ after same
    exact above_of_outline above same

theorem keeps_pure (a : α) : Keeps (pure a : Eval α) := fun _ => rfl

theorem keeps_bind {x : Eval α} {f : α → Eval β} (hx : Keeps x) (hf : ∀ a, Keeps (f a)) :
    Keeps (x >>= f) := by
  intro m
  apply holds_bind (hx m)
  intro a middle first
  apply Outcome.holds_mono (hf a middle)
  · intro _ _ second
    exact second.trans first
  · intro _ _ second
    exact second.trans first

theorem keepsOuter_bind {x : Eval α} {f : α → Eval β} (hx : KeepsOuter x)
    (hf : ∀ a, KeepsOuter (f a)) : KeepsOuter (x >>= f) := by
  intro outer m above
  exact holds_bind (hx outer m above) fun a middle => hf a outer middle

theorem keeps_ofExcept (x : Except Error α) : Keeps (ofExcept x) :=
  fun _ => holds_ofExcept (fun _ _ => rfl) (fun _ _ => rfl)

theorem keeps_ofFault (x : Except Fault α) : Keeps (ofFault x) :=
  fun _ => holds_ofFault (fun _ _ => rfl) (fun _ _ => rfl)

theorem keeps_fail (cause : Fault) (span : Option Span) : Keeps (fail cause span : Eval α) :=
  fun _ => rfl

theorem keeps_inScope {x : Eval α} (h : KeepsOuter x) : Keeps (inScope x) := by
  intro m
  apply holds_inScope
  exact h (outline m.scopes) _ ⟨Scope.empty, m.scopes, rfl, rfl⟩

theorem keeps_inFrame {x : Eval α} (depth : Int) (h : KeepsOuter x) : Keeps (inFrame depth x) := by
  intro m
  by_cases frame : 0 < depth ∧ depth ≤ m.scopes.length
  · obtain ⟨d, rfl⟩ := Int.eq_ofNat_of_zero_le (Int.le_of_lt frame.1)
    have pos : 0 < d := by omega
    have fits : d ≤ m.scopes.length := by omega
    have back : ∀ after, Above (outline (m.scopes.outermost d)) after →
        outline (afterFrame m after d).scopes = outline m.scopes := by
      rintro after ⟨s, rest, stack, same⟩
      have tall : rest.length = d :=
        (length_of_outline same).trans (length_outermost _ _ fits)
      have cut : after.scopes.outermost d = rest := by
        rw [stack, outermost_of_le s rest d (by omega), ← tall, outermost_all]
      rw [afterFrame, cut]
      simp only [outline, mapInfo_append] at same ⊢
      rw [same, ← mapInfo_append, innermost_append_outermost]
    apply holds_inFrame pos fits
    apply Outcome.holds_mono (h _ _ ⟨Scope.empty, m.scopes.outermost d, rfl, rfl⟩)
    · intro _ after above
      exact back after above
    · intro _ after above
      exact back after above
  · have refused : m.scopes.checkFrame depth
        = .error (.internal (.frameDepth depth m.scopes.length) none) := if_neg frame
    unfold inFrame
    rw [refused]
    rfl

theorem keeps_loop {cond : Eval Bool} {body : Eval Unit} (hc : Keeps cond) (hb : Keeps body)
    (fuel : Nat) : Keeps (loop cond body fuel) := by
  intro m
  apply holds_loop (I := fun after => outline after.scopes = outline m.scopes) _ _ fuel m rfl
  · intro middle same
    have run := hc middle
    rw [same] at run
    exact run
  · intro middle same
    have run := hb middle
    rw [same] at run
    exact run

def Atop (name : String) (m : Machine) : Prop :=
  ∃ s rest, m.scopes = s :: rest ∧ (s.findVar name).isSome

theorem maintains_atop {x : Eval α} (keeps : Keeps x) (name : String) :
    Maintains (Atop name) x := by
  rintro m ⟨s, rest, stack, found⟩
  have back : ∀ after : Machine, outline after.scopes = outline m.scopes → Atop name after := by
    intro after look
    rw [stack] at look
    cases scopes : after.scopes with
    | nil => rw [scopes] at look; cases look
    | cons t outer =>
      rw [scopes] at look
      have top := congrArg (fun u => (Scope.findVar u name).isSome) (List.cons.inj look).1
      simp only [Scope.findVar_mapInfo, Option.isSome_map] at top
      exact ⟨t, outer, scopes, top.trans found⟩
  exact Outcome.holds_mono (keeps m) (fun _ => back) fun _ => back

theorem atop_declare (decl : Declaration) (v : Value) (m : Machine) :
    (declare decl v m).Holds (fun _ after => Atop decl.name after) (fun _ _ => True) := by
  apply holds_update
  · intro scopes run
    cases stack : m.scopes with
    | nil => rw [stack] at run; cases run
    | cons s rest =>
      rw [stack] at run
      obtain ⟨free, rfl⟩ := declareVar_cons_ok_iff.mp run
      refine ⟨_, rest, rfl, ?_⟩
      rw [Scope.findVar_withVar v free, if_pos rfl]
      rfl
  · intro _ _
    trivial

theorem keepsOuter_declare (decl : Declaration) (v : Value) : KeepsOuter (declare decl v) := by
  rintro outer m ⟨s, rest, stack, look⟩
  apply holds_update
  · intro scopes run
    rw [stack, declareVar] at run
    split at run
    · cases run
    · cases run
      exact ⟨_, rest, rfl, look⟩
  · intro e _
    exact ⟨s, rest, stack, look⟩

theorem keepsOuter_declareFn (f : FnDecl) :
    KeepsOuter (onScopes (Action.update (Scopes.declareFn f))) := by
  rintro outer m ⟨s, rest, stack, look⟩
  apply holds_update
  · intro scopes run
    rw [stack, declareFn] at run
    split at run
    · cases run
    · cases run
      exact ⟨_, rest, rfl, look⟩
  · intro e _
    exact ⟨s, rest, stack, look⟩

theorem keeps_read (name : String) (span : Option Span) : Keeps (read name span) := by
  intro m
  unfold read
  cases findVar name m.scopes <;> rfl

theorem keeps_assign (name : String) (v : Value) : Keeps (assign name v) := by
  intro m
  apply holds_update
  · intro scopes run
    unfold Scopes.assign at run
    split at run
    · next found =>
      cases run
      exact outline_of_assign? found
    · cases run
  · intro _ _
    rfl

end Eval

namespace Expr

open Scopes

theorem matchValue_var (name : String) (span : Option Span) (v : Value) (scopes : Scopes Value) :
    (var name span).matchValue v scopes =
      match assign? name v scopes with
      | some after => (.ok true, after)
      | none => (.error (.internal (.nothingToAssign name) none), scopes) := by
  change Action.bind (assignValue name v) _ scopes = _
  simp only [Action.bind, assignValue, Action.update, Scopes.assign]
  cases assign? name v scopes <;> rfl

mutual
theorem outline_matchValue : ∀ (pattern : Expr) (v : Value) (scopes : Scopes Value),
    outline (pattern.matchValue v scopes).2 = outline scopes
  | var name _, v, scopes => by
    rw [matchValue_var]
    cases run : assign? name v scopes with
    | none => rfl
    | some after => exact outline_of_assign? run
  | literal w _, v, scopes => rfl
  | array parts _ _ span, v, scopes => by
    cases v with
    | array element items =>
      rw [matchValue]
      split
      · exact outline_matchItems parts items scopes
      · rfl
    | _ => rfl
  | tuple parts span, v, scopes => by
    cases v with
    | tuple types items =>
      rw [matchValue]
      split
      · exact outline_matchItems parts items scopes
      · rfl
    | _ => rfl
  | group .., v, scopes | letIn .., v, scopes | assign .., v, scopes | matchWith .., v, scopes
  | call .., v, scopes | ifElse .., v, scopes | whileDo .., v, scopes | forTo .., v, scopes
  | binary .., v, scopes | unary .., v, scopes | cast .., v, scopes => rfl
theorem outline_matchItems : ∀ (parts : List Expr) (items : List Value) (scopes : Scopes Value),
    outline (matchItems parts items scopes).2 = outline scopes
  | [], items, scopes => by cases items <;> rfl
  | p :: ps, [], scopes => rfl
  | p :: ps, v :: vs, scopes => by
    change outline (Action.bind (p.matchValue v) _ scopes).2 = _
    have first := outline_matchValue p v scopes
    unfold Action.bind
    cases run : p.matchValue v scopes with
    | mk result middle =>
      rw [run] at first
      cases result with
      | error e => exact first
      | ok matched =>
        cases matched with
        | false => exact first
        | true => exact (outline_matchItems ps vs middle).trans first
end

end Expr

namespace Eval

open Scopes

theorem keeps_tryMatch (pattern : Expr) (v : Value) : Keeps (tryMatch pattern v) := by
  intro m
  have same := Expr.outline_matchValue pattern v m.scopes
  unfold tryMatch
  cases run : pattern.matchValue v m.scopes with
  | mk result scopes =>
    rw [run] at same
    cases result with
    | error e => exact same
    | ok matched =>
      cases matched with
      | false => rfl
      | true => exact same

theorem keeps_below (loop : VarDecl) (goal : Value) : Keeps (below loop goal) :=
  keeps_bind (keeps_read _ _) fun _ => keeps_bind (keeps_ofExcept _) fun _ => keeps_ofFault _

theorem keeps_advance (loop : VarDecl) : Keeps (advance loop) :=
  keeps_bind (keeps_read _ _) fun _ => keeps_bind (keeps_ofExcept _) fun _ => keeps_assign _ _

/-- What a run keeps: all scopes that it starts on, or those outside of the innermost one. -/
inductive Kept where
  | all
  | outer

def Kept.Has : Kept → ∀ {α : Type}, Eval α → Prop
  | all, _, x => Keeps x
  | outer, _, x => KeepsOuter x

theorem Kept.has_of_keeps {x : Eval α} (h : Keeps x) : ∀ i : Kept, i.Has x
  | all => h
  | outer => keepsOuter_of_keeps h

def keeping : Plain Kept where
  Has := Kept.Has
  inside _ := .outer
  outOfFuel := Kept.has_of_keeps (x := Eval.outOfFuel) (fun _ => trivial) _
  pure a := Kept.has_of_keeps (keeps_pure a) _
  bind {i _ _ _ _} first next := by
    cases i with
    | all => exact keeps_bind first next
    | outer => exact keepsOuter_bind first next
  fail cause span := Kept.has_of_keeps (keeps_fail cause span) _
  binary _ _ _ := Kept.has_of_keeps (keeps_ofExcept _) _
  unary _ _ := Kept.has_of_keeps (keeps_ofExcept _) _
  builtin _ _ := Kept.has_of_keeps (keeps_ofExcept _) _
  print text := Kept.has_of_keeps (x := Eval.print text) (fun _ => rfl) _
  read name span := Kept.has_of_keeps (keeps_read name span) _
  declare := keepsOuter_declare
  inScope inside := Kept.has_of_keeps (keeps_inScope inside) _
  loop {i _ _} test round fuel := by
    cases i with
    | all => exact keeps_loop test round fuel
    | outer => exact fun outer => maintains_loop (test outer) (round outer) fuel
  assign name v := Kept.has_of_keeps (keeps_assign name v) _
  tryMatch pattern v := Kept.has_of_keeps (keeps_tryMatch pattern v) _
  declareFn := keepsOuter_declareFn
  inFrame depth inside := Kept.has_of_keeps (keeps_inFrame depth inside) _
  pointwise {i _ _} each := by
    cases i with
    | all =>
      intro m
      obtain ⟨y, keeps, same⟩ := each m
      rw [same]
      exact keeps m
    | outer =>
      intro outer
      apply maintains_pointwise
      intro m
      obtain ⟨y, keeps, same⟩ := each m
      exact ⟨y, keeps outer, same⟩

section Parts

variable {eval : Expr → Eval Value} (keeps : ∀ e, Keeps (eval e))
include keeps

theorem keeps_row (body : List Expr) : Keeps (row eval body) :=
  keeping.row (i := .all) fun e _ => keeps e

theorem keeps_callFn (f : FnDecl) (args : List Value) (depth : Int) :
    Keeps (callFn eval f args depth) :=
  keeping.callFn (i := .all) (keepsOuter_of_keeps (keeps f.body)) args depth

theorem keeps_call (name : String) (args : List Value) : Keeps (call eval name args) :=
  keeping.call (i := .all) (fun e => keepsOuter_of_keeps (keeps e)) name args

theorem keepsOuter_let (vars : List VarDecl) (fns : List FnDecl) (body : List Expr) :
    KeepsOuter (do
      declareVars eval vars
      declareFns fns
      row eval body) := by
  have inner : ∀ d ∈ vars, KeepsOuter (eval d.value) :=
    fun d _ => keepsOuter_of_keeps (keeps d.value)
  apply keepsOuter_bind (keeping.declareVars (i := .all) inner)
  intro _
  apply keepsOuter_bind (keeping.declareFns (i := .all) fns)
  intro _
  exact keepsOuter_of_keeps (keeps_row keeps body)

theorem keepsOuter_for (loop : VarDecl) (goal body : Expr) (fuel : Nat) :
    KeepsOuter (do
      let start ← eval loop.value
      let bound ← eval goal
      declare (.var loop) start
      Eval.loop (below loop bound)
        (do
          let _ ← eval body
          advance loop)
        fuel) := by
  apply keepsOuter_bind (keepsOuter_of_keeps (keeps loop.value))
  intro start
  apply keepsOuter_bind (keepsOuter_of_keeps (keeps goal))
  intro bound
  exact keeping.rounds (i := .all) loop start bound fuel (keepsOuter_of_keeps (keeps body))

end Parts

end Eval

theorem Expr.keeps_eval (fuel : Nat) (e : Expr) : Eval.Keeps (e.eval fuel) :=
  Eval.keeping.closed.eval fuel .all e fun _ _ => not_false

theorem Tree.keeps_eval (fuel : Nat) (tree : Tree) : Eval.Keeps (tree.eval fuel) :=
  Eval.keeping.closed.evalTree (fun _ => not_false) fuel .all tree

end TypedLet
