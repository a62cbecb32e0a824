import TypedLet.Proofs.Evaluation.Outline
import TypedLet.Proofs.Matching.Overwrite

/-
Variables that stand. A variable that a piece of the program does not assign keeps its value
while the piece runs, whatever else is declared, entered or called: assignments of its name
in functions declared outside of its scope cannot reach it, for their frames lie below, and
functions declared in its scope or further in must not assign the name either. Loops that
use the name themselves advance a variable of their own, which lies further in.
-/
namespace TypedLet

open Scopes

theorem Scope.findVar_setVar {s : Scope α} {x name : String} (other : x ≠ name) (a : α) :
    (s.setVar name a).findVar x = s.findVar x := by
  rw [setVar_eq_overwrite, findVar_overwrite]
  simp [only, other]

/-- Under `inner` scopes and above `outer` ones carries a scope in which the variable carries
    the value. No function in it or further in assigns the name. -/
def Carried (x : String) (v : Value) (inner outer : Nat) (scopes : Scopes Value) : Prop :=
  ∃ upper s lower, scopes = upper ++ s :: lower ∧ upper.length = inner ∧ lower.length = outer ∧
    (s.findVar x).map Binding.info = some v ∧ ∀ t ∈ upper ++ [s], ∀ f ∈ t.fns, x ∉ f.body.assigned

namespace Carried

variable {x name : String} {v w : Value} {inner outer depth : Nat} {s : Scope Value}
  {scopes after rest : Scopes Value}

theorem of_top {b : Binding Value} (here : s.findVar x = some b)
    (free : ∀ f ∈ s.fns, x ∉ f.body.assigned) :
    Carried x b.info 0 (List.length rest) (s :: rest) :=
  ⟨[], s, rest, rfl, rfl, rfl, by rw [here]; rfl, List.forall_mem_singleton.mpr free⟩

theorem findVar (h : Carried x v 0 outer scopes) :
    ∃ b, scopes.findVar x = some b ∧ b.info = v := by
  obtain ⟨upper, s, lower, rfl, none, _, held, _⟩ := h
  obtain rfl := List.length_eq_zero_iff.mp none
  obtain ⟨b, here, value⟩ := Option.map_eq_some_iff.mp held
  refine ⟨b, ?_, value⟩
  rw [List.nil_append, Scopes.findVar, here]

theorem length (h : Carried x v inner outer scopes) : scopes.length = inner + outer + 1 := by
  obtain ⟨upper, s, lower, rfl, rfl, rfl, _⟩ := h
  rw [List.length_append, List.length_cons]
  omega

theorem cons (h : Carried x v inner outer scopes) (free : ∀ f ∈ s.fns, x ∉ f.body.assigned) :
    Carried x v (inner + 1) outer (s :: scopes) := by
  obtain ⟨upper, t, lower, rfl, rfl, rfl, held, all⟩ := h
  exact ⟨s :: upper, t, lower, rfl, rfl, rfl, held, List.forall_mem_cons.mpr ⟨free, all⟩⟩

theorem uncons (h : Carried x v (inner + 1) outer scopes) :
    ∃ s rest, scopes = s :: rest ∧ (∀ f ∈ s.fns, x ∉ f.body.assigned) ∧
      Carried x v inner outer rest := by
  obtain ⟨upper, t, lower, rfl, count, rfl, held, all⟩ := h
  cases upper with
  | nil => cases count
  | cons s upper =>
    obtain ⟨here, others⟩ := List.forall_mem_cons.mp all
    exact ⟨s, _, rfl, here, upper, t, lower, rfl, Nat.succ.inj count, rfl, held, others⟩

theorem enter (h : Carried x v inner outer scopes) :
    Carried x v (inner + 1) outer (Scope.empty :: scopes) := h.cons (List.forall_mem_nil _)

theorem assign? (h : Carried x v inner outer scopes) (other : x ≠ name)
    (run : scopes.assign? name w = some after) : Carried x v inner outer after := by
  induction inner generalizing scopes after with
  | zero =>
    obtain ⟨upper, s, lower, rfl, none, rfl, held, all⟩ := h
    obtain rfl := List.length_eq_zero_iff.mp none
    rw [List.nil_append, Scopes.assign?] at run
    split at run
    · cases run
      rw [← Scope.findVar_setVar other w] at held
      have free := List.forall_mem_singleton.mp all
      exact ⟨[], s.setVar name w, lower, rfl, rfl, rfl, held, List.forall_mem_singleton.mpr free⟩
    · obtain ⟨lower', below, rfl⟩ := Option.map_eq_some_iff.mp run
      exact ⟨[], s, lower', rfl, rfl, length_of_assign? _ _ below, held, all⟩
  | succ inner ih =>
    obtain ⟨s, rest, rfl, free, below⟩ := h.uncons
    rw [Scopes.assign?] at run
    split at run
    · cases run
      exact below.cons free
    · obtain ⟨rest', run', rfl⟩ := Option.map_eq_some_iff.mp run
      exact (ih below run').cons free

theorem free_of_resolveFn (h : Carried x v inner outer scopes) {f : FnDecl}
    (found : scopes.resolveFn name = some (f, depth)) (above : outer < depth) :
    x ∉ f.body.assigned := by
  obtain ⟨upper, s, lower, rfl, rfl, rfl, held, all⟩ := h
  rw [List.append_cons, resolveFn_append] at found
  cases there : Scopes.resolveFn name (upper ++ [s]) with
  | some r =>
    rw [there] at found
    cases found
    obtain ⟨t, member, declared, _⟩ := mem_of_resolveFn there
    exact all t member r.1 declared
  | none =>
    rw [there] at found
    have fits := (depth_of_resolveFn found).2
    omega

theorem outermost_above (h : Carried x v inner outer scopes) (fits : depth ≤ inner) :
    Carried x v depth outer (scopes.outermost (depth + (outer + 1))) := by
  obtain ⟨upper, s, lower, rfl, rfl, rfl, held, all⟩ := h
  refine ⟨Scopes.outermost upper depth, s, lower, outermost_append_add upper (s :: lower) depth,
    length_outermost upper depth fits, rfl, held, fun t member => all t ?_⟩
  rcases List.mem_append.mp member with above | here
  · exact List.mem_append_left _ (List.mem_of_mem_drop above)
  · exact List.mem_append_right _ here

theorem resume_above (h : Carried x v inner outer scopes) (fits : depth ≤ inner)
    {last : Scopes Value} (h' : Carried x v depth outer last) :
    Carried x v inner outer (scopes.innermost (depth + (outer + 1)) ++ last) := by
  obtain ⟨upper, s, lower, rfl, rfl, rfl, held, all⟩ := h
  obtain ⟨upper', s', lower', rfl, rfl, count, held', all'⟩ := h'
  have cut : Scopes.innermost (upper ++ s :: lower)
      (List.length upper' + (List.length lower + 1)) =
        Scopes.innermost upper upper'.length :=
    innermost_append_add upper (s :: lower) upper'.length
  rw [cut, ← List.append_assoc]
  refine ⟨Scopes.innermost upper upper'.length ++ upper', s', lower', rfl, ?_, count, held',
    fun t member => ?_⟩
  · rw [List.length_append, innermost, List.length_take]
    omega
  · rw [List.append_assoc] at member
    rcases List.mem_append.mp member with kept | new
    · exact all t (List.mem_append_left _ (List.mem_of_mem_take kept))
    · exact all' t new

theorem resume_below (h : Carried x v inner outer scopes) (below : depth ≤ outer)
    {last : Scopes Value} (count : last.length = depth) :
    Carried x v inner outer (scopes.innermost depth ++ last) := by
  obtain ⟨upper, s, lower, rfl, rfl, rfl, held, all⟩ := h
  rw [List.append_cons, innermost_append_of_le (upper ++ [s]) lower depth below,
    List.append_assoc, List.append_assoc]
  refine ⟨upper, s, Scopes.innermost lower depth ++ last, rfl, rfl, ?_, held, all⟩
  rw [List.length_append, innermost, List.length_take]
  omega

end Carried

def Carries (x : String) (v : Value) (inner outer : Nat) (m : Machine) : Prop :=
  Carried x v inner outer m.scopes

namespace Eval

variable {x name : String} {v : Value} {inner outer depth : Nat}

theorem carries_update {f : Scopes Value → Except Error (Scopes Value)}
    (kept : ∀ scopes after, Carried x v inner outer scopes → f scopes = .ok after →
      Carried x v inner outer after) :
    Maintains (Carries x v inner outer) (onScopes (Action.update f)) :=
  fun _ start => holds_update (fun _ run => kept _ _ start run) fun _ _ => start

theorem carries_assign (other : x ≠ name) (w : Value) :
    Maintains (Carries x v inner outer) (assign name w) := by
  apply carries_update
  intro scopes after start run
  unfold Scopes.assign at run
  split at run
  · next found =>
    cases run
    exact start.assign? other found
  · cases run

theorem carries_declare (decl : Declaration) (w : Value) :
    Maintains (Carries x v (inner + 1) outer) (declare decl w) := by
  apply carries_update
  intro scopes after start run
  obtain ⟨s, rest, rfl, free, below⟩ := start.uncons
  obtain ⟨_, rfl⟩ := declareVar_cons_ok_iff.mp run
  exact below.cons free

theorem carries_declareFn {f : FnDecl} (free : x ∉ f.body.assigned) :
    Maintains (Carries x v (inner + 1) outer) (onScopes (Action.update (Scopes.declareFn f))) := by
  apply carries_update
  intro scopes after start run
  obtain ⟨s, rest, rfl, here, below⟩ := start.uncons
  obtain ⟨_, rfl⟩ := declareFn_cons_ok_iff.mp run
  exact below.cons (Scope.forall_fns_withFns.mpr ⟨here, List.forall_mem_singleton.mpr free⟩)

theorem carries_inScope {y : Eval α} (run : Maintains (Carries x v (inner + 1) outer) y) :
    Maintains (Carries x v inner outer) (inScope y) := by
  intro m start
  have back : ∀ after : Machine, Carries x v (inner + 1) outer after →
      ∃ s rest, after.scopes = s :: rest ∧ Carried x v inner outer rest := by
    intro after carries
    obtain ⟨s, rest, stack, _, below⟩ := carries.uncons
    exact ⟨s, rest, stack, below⟩
  apply holds_inScope
  exact Outcome.holds_mono (run _ start.enter) (fun _ => back) fun _ => back

theorem carries_inFrame_below {y : Eval α} (keeps : KeepsOuter y) (pos : 0 < depth)
    (below : depth ≤ outer) : Maintains (Carries x v inner outer) (inFrame depth y) := by
  intro m start
  have tall := start.length
  have fits : depth ≤ m.scopes.length := by omega
  have back : ∀ after : Machine, Above (outline (m.scopes.outermost depth)) after →
      Carries x v inner outer (afterFrame m after depth) := by
    rintro after ⟨s, rest, stack, look⟩
    have count : rest.length = depth :=
      (length_of_outline look).trans (length_outermost m.scopes depth fits)
    apply start.resume_below below
    rw [stack, outermost_of_le s rest depth (by omega), ← count, outermost_all]
  apply holds_inFrame pos fits
  exact Outcome.holds_mono (keeps _ _ ⟨Scope.empty, m.scopes.outermost depth, rfl, rfl⟩)
    (fun _ => back) fun _ => back

theorem carries_inFrame_above {y : Eval α} (fits : depth ≤ inner)
    (run : Maintains (Carries x v (depth + 1) outer) y) :
    Maintains (Carries x v inner outer) (inFrame ((depth + (outer + 1) : Nat) : Int) y) := by
  intro m start
  have tall := start.length
  have back : ∀ after : Machine, Carries x v (depth + 1) outer after →
      Carries x v inner outer (afterFrame m after (depth + (outer + 1))) := by
    intro after carries
    obtain ⟨s, rest, stack, _, below⟩ := carries.uncons
    have count := below.length
    have cut : after.scopes.outermost (depth + (outer + 1)) = rest := by
      have same : depth + (outer + 1) = rest.length := by omega
      rw [stack, same, outermost_of_le s rest _ (Nat.le_refl _), outermost_all]
    have resumed := start.resume_above fits below
    rw [← cut] at resumed
    exact resumed
  apply holds_inFrame (by omega) (by omega)
  exact Outcome.holds_mono (run _ (start.outermost_above fits).enter) (fun _ => back) fun _ => back

end Eval

namespace Expr

variable {x : String} {v : Value} {inner outer : Nat}

mutual
theorem carries_matchValue : ∀ (p : Expr) (w : Value) (scopes : Scopes Value), x ∉ p.captures →
    Carried x v inner outer scopes → Carried x v inner outer (p.matchValue w scopes).2
  | var name _, w, scopes, free, start => by
    have other : x ≠ name := by simpa [captures] using free
    rw [matchValue_var]
    cases run : assign? name w scopes with
    | none => exact start
    | some after => exact start.assign? other run
  | literal w _, _, scopes, _, start => start
  | array parts _ _ span, w, scopes, free, start => by
    cases w with
    | array element items =>
      rw [matchValue]
      split
      · exact carries_matchItems parts items scopes free start
      · exact start
    | _ => exact start
  | tuple parts span, w, scopes, free, start => by
    cases w with
    | tuple types items =>
      rw [matchValue]
      split
      · exact carries_matchItems parts items scopes free start
      · exact start
    | _ => exact start
  | group .., _, _, _, start | letIn .., _, _, _, start | assign .., _, _, _, start
  | matchWith .., _, _, _, start | call .., _, _, _, start | ifElse .., _, _, _, start
  | whileDo .., _, _, _, start | forTo .., _, _, _, start | binary .., _, _, _, start
  | unary .., _, _, _, start | cast .., _, _, _, start => start
theorem carries_matchItems : ∀ (ps : List Expr) (ws : List Value) (scopes : Scopes Value),
    x ∉ capturesAll ps → Carried x v inner outer scopes →
      Carried x v inner outer (matchItems ps ws scopes).2
  | [], ws, scopes, _, start => by cases ws <;> exact start
  | p :: ps, [], scopes, _, start => start
  | p :: ps, w :: ws, scopes, free, start => by
    obtain ⟨first, others⟩ : x ∉ p.captures ∧ x ∉ capturesAll ps := by
      simpa [capturesAll] using free
    have matched := carries_matchValue p w scopes first start
    rw [matchItems]
    change Carried x v inner outer (Action.bind (p.matchValue w) _ scopes).2
    unfold Action.bind
    cases run : p.matchValue w scopes with
    | mk result middle =>
      rw [run] at matched
      cases result with
      | error e => exact matched
      | ok b =>
        cases b with
        | false => exact matched
        | true => exact carries_matchItems ps ws middle others matched
end

end Expr

namespace Eval

variable {x name : String} {v : Value} {inner outer : Nat}

theorem carries_tryMatch {p : Expr} (free : x ∉ p.captures) (w : Value) :
    Maintains (Carries x v inner outer) (tryMatch p w) := by
  intro m start
  have matched := Expr.carries_matchValue p w m.scopes free start
  unfold tryMatch
  cases run : p.matchValue w m.scopes with
  | mk result scopes =>
    rw [run] at matched
    cases result with
    | error e => exact matched
    | ok b =>
      cases b with
      | false => exact start
      | true => exact matched

theorem carries_advance {loop : VarDecl} {m : Machine} (start : Carries x v (inner + 1) outer m)
    (top : Atop loop.name m) :
    (advance loop m).Holds (fun _ => Carries x v (inner + 1) outer)
      (fun _ => Carries x v (inner + 1) outer) := by
  obtain ⟨s, rest, stack, found⟩ := top
  obtain ⟨b, here⟩ := Option.isSome_iff_exists.mp found
  have own : m.scopes.findVar loop.name = some b := by
    rw [stack, Scopes.findVar, here]
  rw [advance, bind_of_done (read_of_some own)]
  apply holds_bind (D := fun _ after => m = after)
    (holds_ofExcept (fun _ _ => rfl) fun _ _ => start)
  rintro next _ rfl
  have set : m.scopes.assign? loop.name next = some (s.setVar loop.name next :: rest) := by
    rw [stack, Scopes.assign?, here]
  obtain ⟨t, others, same, free, below⟩ := start.uncons
  obtain ⟨rfl, rfl⟩ := List.cons.inj (stack.symm.trans same)
  rw [assign_of_some set]
  exact below.cons free

theorem carries_rounds {fuel : Nat} {body : Expr} (loop : VarDecl) (start goal : Value)
    (carries : Maintains (Carries x v (inner + 1) outer) (body.eval fuel)) :
    Maintains (Carries x v (inner + 1) outer) (do
      declare (.var loop) start
      Eval.loop (below loop goal)
        (do
          let _ ← body.eval fuel
          advance loop)
        fuel) := by
  intro m begun
  -- the variable that is advanced is the loop's own, since it stays in the innermost scope
  have looping : Maintains (fun m => Carries x v (inner + 1) outer m ∧ Atop loop.name m)
      (Eval.loop (below loop goal)
        (do
          let _ ← body.eval fuel
          advance loop)
        fuel) := by
    apply maintains_loop (maintains_below loop goal)
    apply maintains_bind
    · exact maintains_and carries (maintains_atop (Expr.keeps_eval fuel body) loop.name)
    · intro _ m both
      exact Outcome.holds_and (carries_advance both.1 both.2)
        (maintains_atop (keeps_advance loop) loop.name m both.2)
  have declared := Outcome.holds_and (carries_declare (.var loop) start m begun)
    (atop_declare (.var loop) start m)
  apply holds_bind (Outcome.holds_mono declared (fun _ _ => id) fun _ _ both => both.1)
  intro _ middle both
  exact Outcome.holds_mono (looping middle both) (fun _ _ => And.left) fun _ _ => And.left

def standingLaws (x : String) (v : Value) (outer : Nat) : Laws Nat :=
  .maintained (fun inner => Carries x v inner outer) (· + 1) (fun _ _ _ start => start)
    (fun _ => carries_declare) fun _ _ _ => carries_inScope

/-- A function from below the variable cannot reach it, and one from its scope or further in
    does not assign it. -/
theorem carries_call {fuel : Nat} (name : String) (args : List Value)
    (carries : ∀ inner (e : Expr), x ∉ e.assigned →
      Maintains (Carries x v inner outer) (e.eval fuel)) :
    Maintains (Carries x v inner outer) (call (Expr.eval fuel) name args) := by
  intro m start
  unfold call
  cases found : resolveFn name m.scopes with
  | none => exact (standingLaws x v outer).callBuiltin (i := inner) name args m start
  | some r =>
    obtain ⟨f, depth⟩ := r
    have reached := depth_of_resolveFn found
    have tall := start.length
    unfold callFn
    dsimp only
    split
    -- The depth of the frame says whether it has the variable.
    · by_cases below : depth ≤ outer
      · apply carries_inFrame_below _ reached.1 below m start
        exact keepsOuter_bind (keeping.declareArgs (i := .all) f.args args) fun _ =>
          keepsOuter_of_keeps (Expr.keeps_eval fuel f.body)
      · obtain ⟨k, rfl⟩ := Nat.exists_eq_add_of_lt (Nat.lt_of_not_le below)
        have free := start.free_of_resolveFn found (by omega)
        have above : outer + k + 1 = k + (outer + 1) := by omega
        rw [above]
        apply carries_inFrame_above (by omega) _ m start
        exact maintains_bind ((standingLaws x v outer).declareArgs (i := k) f.args args) fun _ =>
          carries _ f.body free
    · exact start

def standing (x : String) (v : Value) (outer : Nat) : Closed Nat where
  toLaws := standingLaws x v outer
  spared := (· = x)
  assign w other := carries_assign (Ne.symm other) w
  tryMatch w spares := carries_tryMatch (List.forall_mem_ne'.mp spares) w
  declareFn spares := carries_declareFn (List.forall_mem_ne'.mp spares)
  rounds := carries_rounds
  call name args each :=
    carries_call name args fun inner e free => each inner e (List.forall_mem_ne'.mpr free)

end Eval

/-- A variable that the expression does not assign stands until its end. -/
theorem Expr.carries_eval {x : String} {v : Value} {outer : Nat} (fuel : Nat) (e : Expr)
    (inner : Nat) (free : x ∉ e.assigned) :
    Eval.Maintains (Carries x v inner outer) (e.eval fuel) :=
  (Eval.standing x v outer).eval fuel inner e (List.forall_mem_ne'.mpr free)

end TypedLet
