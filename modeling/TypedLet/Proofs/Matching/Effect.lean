import TypedLet.Proofs.Matching.Components
import TypedLet.Proofs.Workspace.Unshared
import TypedLet.Workspace.Pass

/-
What a match does to a workspace. A match that succeeds overwrites the variables
of its pattern and changes nothing else. One that fails leaves the frame's own
scopes as they were, in new tables; the old tables keep its assignments. A caller
whose own scope stands on one of these, for both were put back from the same
stored scopes, finds the assignment there.
-/
namespace TypedLet

namespace Workspace

open Scopes

theorem keeps_task (fuel : Nat) (task : ValueTask) : Eval.Keeps (task.run fuel) := by
  cases task with
  | eval tree =>
    exact Eval.keeps_bind (tree.keeps_eval fuel) fun _ => Eval.keeps_pure _
  | tryMatch pattern v =>
    exact Eval.keeps_bind (Eval.keeps_tryMatch pattern v) fun _ => Eval.keeps_pure _
  | matchOnly pattern v =>
    apply Eval.keeps_bind _ fun _ => Eval.keeps_pure _
    intro m
    have same := Expr.outline_matchValue pattern v m.scopes
    have matching : pattern.matchValue v m.scopes =
        ((pattern.matchValue v m.scopes).1, (pattern.matchValue v m.scopes).2) := rfl
    apply Eval.holds_onScopes matching
    · intro _ _
      exact same
    · intro _ _
      exact same
  | call decl args depth =>
    exact Eval.keeps_bind (Eval.keeps_callFn (Expr.keeps_eval fuel) decl args depth) fun _ =>
      Eval.keeps_pure _

theorem keepsCount_valuePass (fuel : Nat) : (valuePass fuel).KeepsCount := by
  intro task scopes effect performed
  have kept := keeps_task fuel task (Machine.start scopes)
  simp only [valuePass] at performed
  cases ran : task.run fuel (Machine.start scopes) with
  | done result m =>
    rw [ran] at performed kept
    cases performed
    exact length_of_outline kept
  | failed e m =>
    rw [ran] at performed kept
    cases performed
    exact length_of_outline kept
  | outOfFuel =>
    rw [ran] at performed
    cases performed

section

variable {w : Workspace Value} {callers : List (Suspended Value)} {pattern : Expr} {v : Value}

theorem resume_nothing (w : Workspace ι) (scopes : Scopes ι) :
    w.resume scopes [] = w.withScopes scopes := by
  simp [resume, withScopes, write, outermost]

theorem length_matchValue (pattern : Expr) (v : Value) (scopes : Scopes Value) :
    (pattern.matchValue v scopes).2.length = scopes.length :=
  length_of_outline (Expr.outline_matchValue pattern v scopes)

theorem run_tryMatch (fuel : Nat) (w : Workspace Value) (pattern : Expr) (v : Value) :
    run (valuePass fuel) w (.perform (.tryMatch pattern v)) =
      some (match pattern.matchValue v w.scopes with
        | (.ok true, after) => ⟨.ok (.performed (.matched true)), "", w.withScopes after⟩
        | (.ok false, tried) => ⟨.ok (.performed (.matched false)), "", w.undo tried⟩
        | (.error e, after) => ⟨.error e, "", w.withScopes after⟩) := by
  have count := length_matchValue pattern v w.scopes
  have whole : ∀ tried : Scopes Value, tried.length = w.scopes.length →
      (Eval.giveUp [] tried).outermost w.depth = tried := by
    intro tried same
    rw [length_scopes] at same
    have all : Eval.giveUp [] tried = tried := by simp [Eval.giveUp, innermost]
    rw [all, ← same, outermost_all]
  have task : ValueTask.run fuel (.tryMatch pattern v) (Machine.start w.scopes) =
      Eval.bind (Eval.tryMatch pattern v) (fun yes => Eval.pure (.matched yes))
        ⟨w.scopes, "", []⟩ := rfl
  simp only [run, valuePass, task, Eval.bind, Eval.tryMatch]
  cases ran : pattern.matchValue v w.scopes with
  | mk result after =>
    rw [ran] at count
    cases result with
    | error e =>
      simp only [Option.map_some, Except.map, outermost, List.drop_nil, resume_nothing]
    | ok matched =>
      cases matched with
      | true =>
        simp only [Eval.pure, Option.map_some, Except.map, outermost, List.drop_nil,
          resume_nothing]
      | false =>
        simp only [Eval.pure, Option.map_some, Except.map, whole after count]
        rfl

theorem after_of_failed {fuel : Nat} {r : Ran Value (Reply Value ValueResult)}
    (ran : run (valuePass fuel) w (.perform (.tryMatch pattern v)) = some r)
    (answer : r.answer = .ok (.performed (.matched false))) :
    r.after = w.undo (pattern.matchValue v w.scopes).2 ∧ ¬ pattern.Shapes v := by
  rw [run_tryMatch] at ran
  cases matching : pattern.matchValue v w.scopes with
  | mk result tried =>
    rw [matching] at ran
    cases Option.some.inj ran
    cases result with
    | error e => cases answer
    | ok matched =>
      cases matched with
      | true => cases answer
      | false => exact ⟨rfl, Expr.not_shapes_of_matchValue pattern v matching⟩

theorem after_of_matched {fuel : Nat} {r : Ran Value (Reply Value ValueResult)}
    (ran : run (valuePass fuel) w (.perform (.tryMatch pattern v)) = some r)
    (answer : r.answer = .ok (.performed (.matched true))) :
    r.after = w.withScopes (pattern.matchValue v w.scopes).2 ∧
      pattern.Matched v w.scopes (pattern.matchValue v w.scopes).2 := by
  rw [run_tryMatch] at ran
  cases matching : pattern.matchValue v w.scopes with
  | mk result after =>
    rw [matching] at ran
    cases Option.some.inj ran
    cases result with
    | error e => cases answer
    | ok matched =>
      cases matched with
      | true => exact ⟨rfl, Expr.matched_of_matchValue pattern v matching⟩
      | false => cases answer

/-- No scope that was changed stands on a table that a caller has besides those it
    has in common with the frame. -/
def Confined (w : Workspace ι) (callers : List (Suspended ι)) (tried : Scopes ι) : Prop :=
  ∀ i n : Nat, w.live[i]? = some n → n ∈ w.aside callers → tried[i]? = w.scopes[i]?

theorem confined_iff {w : Workspace ι} (callers : List (Suspended ι)) {tried : Scopes ι}
    (put : (w.withScopes tried).scopes = tried) :
    w.Confined callers tried ↔
      ∀ n ∈ w.aside callers, (w.withScopes tried).table n = w.table n := by
  have place : ∀ i n : Nat, w.live[i]? = some n →
      (tried[i]? = w.scopes[i]? ↔ (w.withScopes tried).table n = w.table n) := by
    intro i n stands
    have new : tried[i]? = some ((w.withScopes tried).table n) := by
      have here := congrArg (·[i]?) put
      rw [← here, scopes, List.getElem?_map]
      exact congrArg _ stands
    have old : w.scopes[i]? = some (w.table n) := by
      rw [scopes, List.getElem?_map, stands]
      rfl
    rw [new, old, Option.some.injEq]
  constructor
  · intro confined n member
    by_cases live : n ∈ w.live
    · obtain ⟨i, stands⟩ := List.mem_iff_getElem?.mp live
      exact (place i n stands).mp (confined i n stands member)
    · exact table_withScopes_of_notMem live
  · intro tables i n stands member
    exact (place i n stands).mpr (tables n member)

theorem undo_effect {level : Nat → Nat} (settled : Settled level w)
    (chained : Chained level w callers) {tried : Scopes Value} (count : tried.length = w.depth) :
    (w.undo tried).scopes = w.scopes ∧
      ((w.undo tried).allScopes callers = w.allScopes callers ↔ w.Confined callers tried) := by
  have put :=
    scopes_withScopes (nodup_of_stacked settled.live) (bound_of_stacked settled.live) count
  have back := scopes_undo count
  refine ⟨back, ?_⟩
  rw [allScopes_eq_iff back rfl rfl callers, confined_iff callers put]
  have tables : ∀ n ∈ w.aside callers,
      (w.undo tried).table n = (w.withScopes tried).table n := by
    intro n member
    exact table_undo_of_lt count (bound_of_aside settled chained n member)
  constructor
  · intro same n member
    rw [← tables n member, same n member]
  · intro same n member
    rw [tables n member, same n member]

theorem allScopes_of_failed (reached : Reached valuePass w callers) (unsaved : w.saved = [])
    {fuel : Nat} {r : Ran Value (Reply Value ValueResult)}
    (ran : run (valuePass fuel) w (.perform (.tryMatch pattern v)) = some r)
    (answer : r.answer = .ok (.performed (.matched false))) :
    r.after.allScopes callers = w.allScopes callers := by
  obtain ⟨level, settled, chained⟩ := settled_of_reached keepsCount_valuePass reached
  have count : (pattern.matchValue v w.scopes).2.length = w.depth :=
    (length_matchValue pattern v w.scopes).trans length_scopes
  rw [(after_of_failed ran answer).1]
  apply (undo_effect settled chained count).2.mpr
  intro i n stands aside
  have live : n ∈ w.live := List.mem_of_getElem? stands
  exact absurd aside (not_aside_of_unsaved keepsCount_valuePass reached unsaved n live)

/-- A match that fails has met a value of another shape than the pattern's. It leaves the
    frame's own scopes as they were, and those of its callers exactly when what it has
    tried is confined to the frame. A match that succeeds has met a value of the pattern's
    shape, and has given the innermost variable of each name in the pattern the rightmost
    component of that name and done nothing else. -/
theorem tryMatch_effect (reached : Reached valuePass w callers) {fuel : Nat} {yes : Bool}
    {r : Ran Value (Reply Value ValueResult)}
    (ran : run (valuePass fuel) w (.perform (.tryMatch pattern v)) = some r)
    (answer : r.answer = .ok (.performed (.matched yes))) :
    (yes = false →
      ¬ pattern.Shapes v ∧
        r.after.scopes = w.scopes ∧
        (r.after.allScopes callers = w.allScopes callers ↔
          w.Confined callers (pattern.matchValue v w.scopes).2)) ∧
    (yes = true →
      pattern.Shapes v ∧
        r.after = w.withScopes (w.scopes.overwrite (Expr.rightmost (pattern.components v))) ∧
        r.after.scopes = w.scopes.overwrite (Expr.rightmost (pattern.components v)) ∧
        (∀ n, n ∉ w.live → r.after.table n = w.table n) ∧
        ∀ name part, Expr.rightmost (pattern.components v) name = some part →
          ∃ b, findVar name w.scopes = some b ∧
            findVar name r.after.scopes = some { b with info := part }) := by
  obtain ⟨level, settled, chained⟩ := settled_of_reached keepsCount_valuePass reached
  have count : (pattern.matchValue v w.scopes).2.length = w.depth :=
    (length_matchValue pattern v w.scopes).trans length_scopes
  constructor
  · rintro rfl
    obtain ⟨after, other⟩ := after_of_failed ran answer
    rw [after]
    exact ⟨other, undo_effect settled chained count⟩
  · rintro rfl
    obtain ⟨after, matched⟩ := after_of_matched ran answer
    have put := scopes_withScopes (nodup_of_stacked settled.live)
      (bound_of_stacked settled.live) count
    rw [after, put, ← matched.effect]
    refine ⟨matched.shape, rfl, rfl, ?_, ?_⟩
    · intro n absent
      exact table_withScopes_of_notMem absent
    · intro name part component
      exact matched.findVar_after component

end

def xZero : Scope Value := .ofVar ⟨"x", .literal (.int 0) none, none⟩ (.int 0)

/-- Two scopes, the inner one with a variable, and copies of both in store. -/
def storing : Workspace Value :=
  ⟨[Scope.empty, xZero, xZero, Scope.empty], [1, 0], [("s", [2, 3])], 0, []⟩

def puttingBack : Workspace Value :=
  ⟨storing.tables ++ [Scope.empty], [2, 3], storing.saved, 1, []⟩

def puttingBackAgain : Workspace Value :=
  ⟨puttingBack.tables ++ [Scope.empty], [2, 3], storing.saved, 1, []⟩

theorem reached_puttingBackAgain :
    Reached valuePass puttingBackAgain [⟨puttingBack, 1⟩, ⟨storing, 1⟩] := by
  have outer : Reached valuePass storing [] :=
    reached_runAll 0 [.enter, .enter,
      .declare (.var ⟨"x", .literal (.int 0) none, none⟩) (Value.int 0), .snapshot "s"] .start rfl
  have inner : Reached valuePass puttingBack [⟨storing, 1⟩] :=
    reached_runAll 0 [.restore "s"] (Reached.frame outer (d := 1) rfl) rfl
  exact reached_runAll 0 [.restore "s"] (Reached.frame inner (d := 1) rfl) rfl

/-- The match `(x, 1) := (5, 2)` fails, and the nearer caller finds 5 in its `x`. -/
theorem tryMatch_effect_put_back_twice :
    let pattern : Expr := .tuple [.var "x" none, .literal (.int 1) none] none
    let v := Value.tupleOf [.int 5, .int 2]
    let callers : List (Suspended Value) := [⟨puttingBack, 1⟩, ⟨storing, 1⟩]
    ∃ r, run (valuePass 0) puttingBackAgain (.perform (.tryMatch pattern v)) = some r ∧
      r.answer = .ok (.performed (.matched false)) ∧
      r.after.scopes = puttingBackAgain.scopes ∧
      r.after.allScopes callers ≠ puttingBackAgain.allScopes callers := by
  intro pattern v callers
  refine ⟨_, rfl, rfl, ?_⟩
  have ran := run_tryMatch 0 puttingBackAgain pattern v
  obtain ⟨_, back, condition⟩ := (tryMatch_effect reached_puttingBackAgain ran rfl).1 rfl
  refine ⟨back, fun same => ?_⟩
  have confined := condition.mp same 0 2 rfl (by decide)
  let read (s : Option (Scope Value)) : Option Value := (s.bind (·.findVar "x")).map (·.info)
  have equal : some (Value.int 5) = some (Value.int 0) := congrArg read confined
  cases equal

end Workspace
end TypedLet
