import TypedLet.Proofs.Environment.Lasting
import TypedLet.Proofs.Evaluation.Outline

/-
What lasts of the scopes through a run. However a run ends, a property that lasts through the
operations on scopes is had by all scopes of the machine if it was had by all of them before:
by those that the machine runs on, and by those that matches gave up. There is one law for each
way in which runs are put together.
-/
namespace TypedLet

structure Machine.All (P : Scope Value → Prop) (m : Machine) : Prop where
  scopes : ∀ s ∈ m.scopes, P s
  abandoned : ∀ s ∈ m.abandoned, P s

namespace Eval

open Scopes

theorem maintains_closing {I : Machine → Prop} {x : Eval α} {f : Machine → Except Error Machine}
    {m : Machine} (run : (x m).Holds (fun _ after => I after) (fun _ after => I after))
    (close : ∀ after last, I after → f after = .ok last → I last) :
    (closing x f m).Holds (fun _ after => I after) (fun _ after => I after) := by
  unfold closing
  cases ends : x m with
  | done a after | failed e after =>
    rw [ends] at run
    cases closed : f after with
    | ok last =>
      simp only [closed]
      exact close after last run closed
    | error e =>
      simp only [closed]
      exact run
  | outOfFuel => trivial

section

variable {P : Scope Value → Prop} (lasting : Scope.Lasting P)

theorem all_print (text : String) : Maintains (Machine.All P) (print text) :=
  fun _ all => ⟨all.scopes, all.abandoned⟩

include lasting

theorem all_of_outline {m : Machine} {scopes : Scopes Value} (all : m.All P)
    (same : outline scopes = outline m.scopes) : Machine.All P { m with scopes } :=
  ⟨lasts_of_outline lasting same all.scopes, all.abandoned⟩

theorem all_inScope {x : Eval α} (run : Maintains (Machine.All P) x) :
    Maintains (Machine.All P) (inScope x) := by
  intro m all
  have entered : Machine.All P { m with scopes := Scope.empty :: m.scopes } :=
    ⟨List.forall_mem_cons.mpr ⟨lasting.empty, all.scopes⟩, all.abandoned⟩
  apply maintains_closing (run _ entered)
  intro after last inside left
  cases stack : after.scopes with
  | nil =>
    rw [stack] at left
    cases left
  | cons s outer =>
    rw [stack] at left
    cases left
    have scopes := inside.scopes
    rw [stack] at scopes
    exact ⟨(List.forall_mem_cons.mp scopes).2, inside.abandoned⟩

theorem all_inFrame {x : Eval α} (depth : Int) (run : Maintains (Machine.All P) x) :
    Maintains (Machine.All P) (inFrame depth x) := by
  intro m all
  unfold inFrame
  cases m.scopes.checkFrame depth with
  | error e => exact all
  | ok d =>
    have entered : Machine.All P { m with scopes := Scope.empty :: m.scopes.outermost d } := by
      refine ⟨List.forall_mem_cons.mpr ⟨lasting.empty, ?_⟩, all.abandoned⟩
      exact fun s member => all.scopes s (List.mem_of_mem_drop member)
    apply maintains_closing (run _ entered)
    rintro after _ inside ⟨⟩
    constructor
    · intro s member
      rcases List.mem_append.mp member with own | common
      · exact all.scopes s (List.mem_of_mem_take own)
      · exact inside.scopes s (List.mem_of_mem_drop common)
    · exact fun s member => inside.abandoned s (List.mem_of_mem_drop member)

theorem all_declare (decl : Declaration) (v : Value) :
    Maintains (Machine.All P) (declare decl v) := by
  intro m all
  apply holds_update
  · intro scopes run
    exact ⟨lasts_declareVar lasting run all.scopes, all.abandoned⟩
  · intro _ _
    exact all

theorem all_declareFn (f : FnDecl) :
    Maintains (Machine.All P) (onScopes (Action.update (Scopes.declareFn f))) := by
  intro m all
  apply holds_update
  · intro scopes run
    exact ⟨lasts_declareFn lasting run all.scopes, all.abandoned⟩
  · intro _ _
    exact all

theorem all_assign (name : String) (v : Value) : Maintains (Machine.All P) (assign name v) := by
  intro m all
  apply holds_update
  · intro scopes run
    exact ⟨lasts_assign lasting run all.scopes, all.abandoned⟩
  · intro _ _
    exact all

theorem all_matchOnly (pattern : Expr) (v : Value) :
    Maintains (Machine.All P) (onScopes (pattern.matchValue v)) := by
  intro m all
  have same := Expr.outline_matchValue pattern v m.scopes
  have matching : pattern.matchValue v m.scopes =
      ((pattern.matchValue v m.scopes).1, (pattern.matchValue v m.scopes).2) := rfl
  apply holds_onScopes matching
  · intro _ _
    exact all_of_outline lasting all same
  · intro _ _
    exact all_of_outline lasting all same

/-- A match that fails gives up the scopes it has worked on. These are none that the property
    was not kept in. -/
theorem all_tryMatch (pattern : Expr) (v : Value) :
    Maintains (Machine.All P) (tryMatch pattern v) := by
  intro m all
  have same := Expr.outline_matchValue pattern v m.scopes
  unfold tryMatch
  cases run : pattern.matchValue v m.scopes with
  | mk result scopes =>
    rw [run] at same
    have tried := all_of_outline lasting all same
    cases result with
    | error e => exact tried
    | ok matched =>
      cases matched with
      | true => exact tried
      | false =>
        refine ⟨all.scopes, List.forall_mem_append.mpr ⟨?_, all.abandoned⟩⟩
        exact fun s member => tried.scopes s (List.mem_of_mem_take member)

end

def allLast {P : Scope Value → Prop} (lasting : Scope.Lasting P) : Plain Unit where
  toLaws := .maintained (fun _ => Machine.All P) id (fun _ => all_print)
    (fun _ => all_declare lasting) fun _ _ _ => all_inScope lasting
  assign := all_assign lasting
  tryMatch := all_tryMatch lasting
  declareFn := all_declareFn lasting
  inFrame := all_inFrame lasting
  pointwise := maintains_pointwise

theorem all_callFn {P : Scope Value → Prop} (lasting : Scope.Lasting P) (fuel : Nat) (f : FnDecl)
    (args : List Value) (depth : Int) :
    Maintains (Machine.All P) (callFn (Expr.eval fuel) f args depth) := by
  have body := (allLast lasting).closed.eval fuel () f.body fun _ _ => not_false
  exact (allLast lasting).callFn (i := ()) body args depth

end Eval

theorem Tree.all_eval {P : Scope Value → Prop} (lasting : Scope.Lasting P) (fuel : Nat)
    (t : Tree) : Eval.Maintains (Machine.All P) (t.eval fuel) :=
  (Eval.allLast lasting).closed.evalTree (fun _ => not_false) fuel () t

end TypedLet
