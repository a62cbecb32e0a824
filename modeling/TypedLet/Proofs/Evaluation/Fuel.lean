import TypedLet.Proofs.Evaluation.Holds

/-
More fuel changes no finished run. A run whose fuel is spent says nothing about the program;
one that has come to an end comes to the same end with any larger fuel. So it makes sense
to speak of the end of a run: it is the one that is reached with enough fuel.
-/
namespace TypedLet

/-- The second outcome is the first one, unless fuel was spent before there was one. -/
def Outcome.Grows (o o' : Outcome α) : Prop := o = .outOfFuel ∨ o' = o

namespace Outcome

theorem grows_refl (o : Outcome α) : o.Grows o := .inr rfl

theorem eq_of_grows {o o' : Outcome α} (grows : o.Grows o') (ended : o ≠ .outOfFuel) : o' = o := by
  rcases grows with spent | same
  · exact absurd spent ended
  · exact same

end Outcome

namespace Eval

open Outcome (grows_refl)

def Grows (x x' : Eval α) : Prop := ∀ m, (x m).Grows (x' m)

theorem grows_same (x : Eval α) : Grows x x := fun _ => grows_refl _

theorem grows_bind {x x' : Eval α} {f f' : α → Eval β} (hx : Grows x x')
    (hf : ∀ a, Grows (f a) (f' a)) : Grows (x >>= f) (x' >>= f') := by
  intro m
  rcases hx m with spent | same
  · exact .inl (bind_of_outOfFuel spent)
  · cases run : x m with
    | done a after =>
      rw [bind_of_done run, bind_of_done (same.trans run)]
      exact hf a after
    | failed e after =>
      rw [bind_of_failed run, bind_of_failed (same.trans run)]
      exact grows_refl _
    | outOfFuel => exact .inl (bind_of_outOfFuel run)

theorem grows_closing {x x' : Eval α} (hx : Grows x x') (f : Machine → Except Error Machine) :
    Grows (closing x f) (closing x' f) := by
  intro m
  unfold closing
  rcases hx m with spent | same
  · rw [spent]
    exact .inl rfl
  · rw [same]
    exact grows_refl _

theorem grows_inScope {x x' : Eval α} (hx : Grows x x') : Grows (inScope x) (inScope x') :=
  fun _ => grows_closing hx _ _

theorem grows_inFrame {x x' : Eval α} (depth : Int) (hx : Grows x x') :
    Grows (inFrame depth x) (inFrame depth x') := by
  intro m
  unfold inFrame
  cases m.scopes.checkFrame depth with
  | ok d => exact grows_closing hx _ _
  | error e => exact grows_refl _

theorem grows_loop {cond cond' : Eval Bool} {body body' : Eval Unit} (hc : Grows cond cond')
    (hb : Grows body body') {fuel fuel' : Nat} (le : fuel ≤ fuel') :
    Grows (loop cond body fuel) (loop cond' body' fuel') := by
  induction fuel generalizing fuel' with
  | zero => exact fun _ => .inl rfl
  | succ fuel ih =>
    cases fuel' with
    | zero => cases le
    | succ fuel' =>
      have later := ih (Nat.le_of_succ_le_succ le)
      intro m
      rw [loop_succ, loop_succ]
      refine grows_bind hc (fun again => ?_) m
      cases again with
      | true => exact grows_bind hb fun _ => later
      | false => exact grows_same _

section Parts

variable {eval eval' : Expr → Eval Value} (grows : ∀ e, Grows (eval e) (eval' e))
include grows

theorem grows_all (es : List Expr) : Grows (all eval es) (all eval' es) := by
  induction es with
  | nil => exact grows_same _
  | cons e es ih => exact grows_bind (grows e) fun _ => grows_bind ih fun _ => grows_same _

theorem grows_row (body : List Expr) : Grows (row eval body) (row eval' body) :=
  grows_bind (grows_all grows body) fun _ => grows_same _

theorem grows_declareVars (vars : List VarDecl) :
    Grows (declareVars eval vars) (declareVars eval' vars) := by
  induction vars with
  | nil => exact grows_same _
  | cons d ds ih =>
    exact grows_bind (grows d.value) fun v => grows_bind (grows_same _) fun _ => ih

theorem grows_callFn (f : FnDecl) (args : List Value) (depth : Int) :
    Grows (callFn eval f args depth) (callFn eval' f args depth) := by
  unfold callFn
  split
  · exact grows_inFrame depth (grows_bind (grows_same _) fun _ => grows f.body)
  · exact grows_same _

theorem grows_call (name : String) (args : List Value) :
    Grows (call eval name args) (call eval' name args) := by
  intro m
  unfold call
  split
  · exact grows_callFn grows _ args _ m
  · exact grows_refl _

end Parts

end Eval

namespace Expr

open Eval

theorem grows_eval {fuel fuel' : Nat} (le : fuel ≤ fuel') :
    ∀ e : Expr, Grows (e.eval fuel) (e.eval fuel') := by
  induction fuel generalizing fuel' with
  | zero => exact fun _ _ => .inl rfl
  | succ fuel ih =>
    cases fuel' with
    | zero => cases le
    | succ fuel' =>
      have shorter := Nat.le_of_succ_le_succ le
      have parts := ih shorter
      intro e
      cases e with
      | literal v span => exact grows_same _
      | var name span => exact grows_same _
      | group body span => exact grows_row parts body
      | letIn vars fns body span =>
        apply grows_inScope
        apply grows_bind (grows_declareVars parts vars)
        intro _
        exact grows_bind (grows_same _) fun _ => grows_row parts body
      | assign name value nameSpan span => exact grows_bind (parts value) fun _ => grows_same _
      | matchWith pattern value span => exact grows_bind (parts value) fun _ => grows_same _
      | call name args span =>
        exact grows_bind (grows_all parts args) fun vs => grows_call parts name vs
      | ifElse cond whenTrue whenFalse span =>
        apply grows_bind (parts cond)
        intro v
        apply grows_bind (grows_same _)
        intro b
        cases b with
        | true => exact parts whenTrue
        | false => exact parts whenFalse
      | whileDo cond body span =>
        apply grows_bind _ fun _ => grows_same _
        apply grows_loop _ _ shorter
        · exact grows_bind (parts cond) fun _ => grows_same _
        · exact grows_bind (parts body) fun _ => grows_same _
      | forTo loop goal body span =>
        apply grows_bind _ fun _ => grows_same _
        apply grows_inScope
        apply grows_bind (parts loop.value)
        intro start
        apply grows_bind (parts goal)
        intro bound
        apply grows_bind (grows_same _)
        intro _
        apply grows_loop (grows_same _) _ shorter
        exact grows_bind (parts body) fun _ => grows_same _
      | binary left op right span =>
        exact grows_bind (parts left) fun v => grows_bind (parts right) fun w => grows_same _
      | unary op operand span => exact grows_bind (parts operand) fun _ => grows_same _
      | cast operand target span => exact grows_bind (parts operand) fun _ => grows_same _
      | array items element elementSpan span =>
        exact grows_bind (grows_all parts items) fun _ => grows_same _
      | tuple items span => exact grows_bind (grows_all parts items) fun _ => grows_same _

/-- The run comes to this end, given enough fuel. -/
def EndsAs (e : Expr) (m : Machine) (o : Outcome Value) : Prop :=
  o ≠ .outOfFuel ∧ ∃ fuel, e.eval fuel m = o

theorem EndsAs.unique {e : Expr} {m : Machine} {o o' : Outcome Value} (here : e.EndsAs m o)
    (there : e.EndsAs m o') : o = o' := by
  obtain ⟨ended, fuel, rfl⟩ := here
  obtain ⟨ended', fuel', rfl⟩ := there
  rcases Nat.le_total fuel fuel' with le | le
  · exact (Outcome.eq_of_grows (grows_eval le e m) ended).symm
  · exact Outcome.eq_of_grows (grows_eval le e m) ended'

end Expr

end TypedLet
