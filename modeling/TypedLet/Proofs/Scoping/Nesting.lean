import TypedLet.Proofs.Evaluation.Fuel
import TypedLet.Proofs.Reordering.Evaluation
import TypedLet.Proofs.Scoping.Weakening

/-
A let of several variables is a let of the first one around a let of the others. The scope of
the joint let is then divided into two: the first variable stands in the outer scope alone,
and everything else in the inner one. A declaration sees exactly the earlier ones in either
form, and functions see all of them. What differs is the depth of everything inside.
-/
namespace TypedLet

open Scopes

namespace Expr

variable {d : VarDecl} {ds : List VarDecl} {fns : List FnDecl} {body : List Expr}
  {span inner outer : Option Span}

/-- The first variable in a let of its own, around the others. -/
def nestedLet (d : VarDecl) (ds : List VarDecl) (fns : List FnDecl) (body : List Expr)
    (inner outer : Option Span) : Expr :=
  letIn [d] [] [letIn ds fns body inner] outer

section Checking

def checkBody (vars : List VarDecl) (fns : List FnDecl) (body : List Expr) : Check Ty := do
  checkVars vars
  declareFns fns
  checkFns fns
  let types ← inferAll body
  pure (rowType types)

/-- On the second stack the variable has been moved out of the innermost scope into one below. -/
def Parted (b : Binding Ty) (low scopes scopes' : Scopes Ty) : Prop :=
  ∃ vars fns, (∀ c ∈ vars, c.name ≠ b.name) ∧ scopes = ⟨b :: vars, fns⟩ :: low ∧
    scopes' = ⟨vars, fns⟩ :: ⟨[b], []⟩ :: low

variable {b : Binding Ty} {low scopes scopes' : Scopes Ty}

namespace Parted

theorem answerAlike (parted : Parted b low scopes scopes') :
    AnswerAlike (fun _ => False) scopes scopes' := by
  obtain ⟨vars, fns, others, rfl, rfl⟩ := parted
  constructor
  · intro name _
    rw [findVar_cons, findVar_cons, findVar_cons, ← Option.or_assoc]
    congr 1
    by_cases here : b.name = name
    · have none : (Scope.mk vars fns).findVar name = none :=
        Scope.findVar_eq_none_iff.mpr (here ▸ others)
      rw [none]
      simp [Scope.findVar, here]
    · simp [Scope.findVar, here]
  · intro name
    rw [findFn_cons, findFn_cons, findFn_cons]
    rfl

theorem declareVar (parted : Parted b low scopes scopes') {decl : Declaration}
    (other : decl.name ≠ b.name) (t : Ty) :
    (∃ e, scopes.declareVar decl t = .error e ∧ scopes'.declareVar decl t = .error e) ∨
      ∃ after after', scopes.declareVar decl t = .ok after ∧
        scopes'.declareVar decl t = .ok after' ∧ Parted b low after after' := by
  obtain ⟨vars, fns, others, rfl, rfl⟩ := parted
  have same : (Scope.mk (b :: vars) fns).findVar decl.name =
      (Scope.mk vars fns).findVar decl.name :=
    List.find?_cons_of_neg (by simpa using other.symm)
  rw [Scopes.declareVar, Scopes.declareVar, same]
  cases (Scope.mk vars fns).findVar decl.name with
  | some c => exact .inl ⟨_, rfl, rfl⟩
  | none =>
    refine .inr ⟨_, _, rfl, rfl, vars ++ [.of decl t], fns, ?_, rfl, rfl⟩
    exact List.forall_mem_append.mpr ⟨others, List.forall_mem_singleton.mpr other⟩

theorem declareFn (parted : Parted b low scopes scopes') (f : FnDecl) :
    (∃ e, scopes.declareFn f = .error e ∧ scopes'.declareFn f = .error e) ∨
      ∃ after after', scopes.declareFn f = .ok after ∧
        scopes'.declareFn f = .ok after' ∧ Parted b low after after' := by
  obtain ⟨vars, fns, others, rfl, rfl⟩ := parted
  have same : (Scope.mk (b :: vars) fns).findFn f.name = (Scope.mk vars fns).findFn f.name := rfl
  rw [Scopes.declareFn, Scopes.declareFn, same]
  cases (Scope.mk vars fns).findFn f.name with
  | some first => exact .inl ⟨_, rfl, rfl⟩
  | none => exact .inr ⟨_, _, rfl, rfl, vars, fns ++ [.of f], others, rfl, rfl⟩

end Parted

abbrev PartedAlike (b : Binding Ty) (low : Scopes Ty) (x : Check α) : Prop :=
  Action.Agree Error.blind (Parted b low) x x

theorem partedAlike_of_leaves {x : Check α} (leaves : Action.Leaves x)
    (same : ∀ {low low'}, AnswerAlike (fun _ => False) low low' → ChecksAlike low low' 0 x) :
    PartedAlike b low x := by
  intro scopes scopes' parted
  refine ⟨(same parted.answerAlike scopes scopes' ⟨[], rfl, rfl, rfl⟩).1, ?_⟩
  rw [leaves, leaves]
  exact parted

theorem partedAlike_checkVars : ∀ {vars : List VarDecl}, (∀ v ∈ vars, v.name ≠ b.name) →
    PartedAlike b low (checkVars vars)
  | [], _ => Action.agree_pure ()
  | ⟨name, value, span⟩ :: rest, others => by
    obtain ⟨first, others⟩ := List.forall_mem_cons.mp others
    apply Action.agree_bind (partedAlike_of_leaves (leaves_infer value) fun same =>
      alike_infer same value 0 (avoids_none value))
    intro type
    split
    · exact Action.agree_fail _
    · have other : (Declaration.var ⟨name, value, span⟩).name ≠ b.name := first
      exact Action.agree_bind (Action.agree_update fun parted => parted.declareVar other type)
        fun _ => partedAlike_checkVars others

theorem partedAlike_checkBody (others : ∀ v ∈ ds, v.name ≠ b.name) :
    PartedAlike b low (checkBody ds fns body) := by
  apply Action.agree_bind (partedAlike_checkVars others)
  intro _
  apply Action.agree_bind (agree_declareFns (fun f _ _ parted => parted.declareFn f) fns)
  intro _
  apply Action.agree_bind (partedAlike_of_leaves (leaves_checkFns fns) fun same =>
    alike_checkFns same fns 0 fun f _ => fnAvoids_none f)
  intro _
  apply Action.agree_bind (partedAlike_of_leaves (leaves_inferAll body) fun same =>
    alike_inferAll same body 0 fun e _ => avoids_none e)
  intro types
  exact Action.agree_pure _

theorem leavesOuter_checkBody (vars : List VarDecl) (fns : List FnDecl) (body : List Expr) :
    Action.LeavesOuter (checkBody vars fns body) := by
  apply Action.leavesOuter_bind (leavesOuter_checkVars vars)
  intro _
  apply Action.leavesOuter_bind (leavesOuter_declareFns fns)
  intro _
  apply Action.leavesOuter_of_leaves
  apply Action.leaves_bind (leaves_checkFns fns)
  intro _
  exact Action.leaves_bind (leaves_inferAll body) fun _ => Action.leaves_pure _

theorem infer_letIn (vars : List VarDecl) (Γ : Scopes Ty) :
    (letIn vars fns body span).infer Γ = ((checkBody vars fns body (Scope.empty :: Γ)).1, Γ) := by
  rw [infer]
  exact Action.inScope_of_leavesOuter (leavesOuter_checkBody vars fns body) Γ

theorem checkBody_cons (d : VarDecl) : checkBody (d :: ds) fns body =
    (checkVars [d] >>= fun _ => checkBody ds fns body) := by
  obtain ⟨name, value, span⟩ := d
  simp only [checkBody, checkVars, bind_assoc]
  congr 1
  funext type
  split
  · rfl
  · simp only [bind_assoc, pure_bind]

theorem checkBody_singleton (d : VarDecl) (e : Expr) :
    checkBody [d] [] [e] = (checkVars [d] >>= fun _ => e.infer) := by
  rw [checkBody, ← inferAll_singleton e]
  simp only [declareFns, checkFns, pure_bind]

/-- Both lets have the same type, or are rejected for the same reason. -/
theorem infer_nestedLet (others : ∀ v ∈ ds, v.name ≠ d.name) (Γ : Scopes Ty) :
    ((letIn (d :: ds) fns body span).infer Γ).1.mapError Error.blind =
      ((nestedLet d ds fns body inner outer).infer Γ).1.mapError Error.blind := by
  rw [nestedLet, infer_letIn, infer_letIn, checkBody_cons, checkBody_singleton]
  cases run : checkVars [d] (Scope.empty :: Γ) with
  | mk result after =>
    cases result with
    | error e => rw [Action.bind_of_error run, Action.bind_of_error run]
    | ok u =>
      rw [Action.bind_of_ok run, Action.bind_of_ok run, infer_letIn]
      obtain ⟨t, _, _, _, declared, rest⟩ := checkVars_cons_ok_iff.mp run
      obtain ⟨_, rfl⟩ := declareVar_cons_ok_iff.mp declared
      obtain ⟨_, rfl⟩ := Action.pure_ok_iff.mp rest
      have parted : Parted (.of (.var d) t) Γ (⟨[.of (.var d) t], []⟩ :: Γ)
          (Scope.empty :: ⟨[.of (.var d) t], []⟩ :: Γ) := ⟨[], [], nofun, rfl, rfl⟩
      exact (partedAlike_checkBody others _ _ parted).1

end Checking

def opening (d : VarDecl) (first rest : Eval Value) : Eval Value :=
  Eval.inScope (first >>= fun v => Eval.declare (.var d) v >>= fun _ => rest)

section Evaluation

open Eval

def runBody (fuel : Nat) (vars : List VarDecl) (fns : List FnDecl) (body : List Expr) :
    Eval Value := do
  declareVars (Expr.eval fuel) vars
  Eval.declareFns fns
  row (Expr.eval fuel) body

theorem eval_letIn_cons (fuel : Nat) : (letIn (d :: ds) fns body span).eval (fuel + 1) =
    opening d (d.value.eval fuel) (runBody fuel ds fns body) := by
  rw [eval, opening, runBody]
  simp only [declareVars, bind_assoc]

theorem eval_nestedLet (fuel : Nat) : (nestedLet d ds fns body inner outer).eval (fuel + 2) =
    opening d (d.value.eval (fuel + 1)) (inScope (runBody fuel ds fns body)) := by
  rw [nestedLet, eval, opening, runBody, row_singleton, eval]
  simp only [declareVars, Eval.declareFns, bind_assoc]
  rfl

theorem grows_opening (d : VarDecl) {first first' rest rest' : Eval Value} (hf : Grows first first')
    (hr : Grows rest rest') : Grows (opening d first rest) (opening d first' rest') :=
  grows_inScope (grows_bind hf fun _ => grows_bind (grows_same _) fun _ => hr)

theorem grows_runBody {fuel fuel' : Nat} (le : fuel ≤ fuel') (ds : List VarDecl)
    (fns : List FnDecl) (body : List Expr) :
    Grows (runBody fuel ds fns body) (runBody fuel' ds fns body) := by
  apply grows_bind (grows_declareVars (grows_eval le) ds)
  intro _
  exact grows_bind (grows_same _) fun _ => grows_row (grows_eval le) body

/-- The rest of the let runs in the scope of the first variable as it does in one of its own. -/
theorem akin_rest (others : ∀ v ∈ ds, v.name ≠ d.name) (fuel : Nat) {m : Machine} {v : Value}
    {low : Scopes Value} (stack : m.scopes = Scope.ofVar d v :: low) :
    (runBody fuel ds fns body m).Akin
      (Within (· = d.name) false (low.map fun _ => false))
      (inScope (runBody fuel ds fns body) m) := by
  have divided : Layered (· = d.name) true (Scope.ofVar d v) Scope.empty [Scope.ofVar d v] :=
    .split nofun (List.forall_mem_singleton.mpr rfl) rfl rfl (Scope.sameFns_refl _)
  have related : Paired (Spread (· = d.name) (true :: low.map fun _ => false)) m
      { m with scopes := Scope.empty :: m.scopes } := by
    refine ⟨?_, rfl⟩
    rw [stack]
    exact .cons divided (Spread.refl low)
  have run := akin_letBody (akin_eval _ fuel) (varsReordered_refl ds) (fnsReordered_refl fns)
    (.refl fns) (allReordered_refl body) (fun _ => others) related
  rw [← closing_ok (runBody fuel ds fns body) m]
  unfold inScope
  apply akin_closing run
  rintro after after' ⟨s, t, lower, rest, rest', scopes, scopes', count, below, output⟩
  obtain ⟨u, rfl⟩ := List.length_eq_one_iff.mp count
  rw [scopes']
  exact ⟨after, _, rfl, rfl, s, u, [], rest, rest', scopes, rfl, rfl, below, output⟩

theorem keeps_runBody (fuel : Nat) : KeepsOuter (runBody fuel ds fns body) :=
  keepsOuter_let (keeps_eval fuel) ds fns body

theorem keeps_opening {first rest : Eval Value} (hf : Keeps first) (hr : KeepsOuter rest) :
    Keeps (opening d first rest) := by
  apply keeps_inScope
  apply keepsOuter_bind (keepsOuter_of_keeps hf)
  intro v
  exact keepsOuter_bind (keepsOuter_declare _ v) fun _ => hr

theorem entered_of_outline {scopes low : Scopes Value}
    (look : outline scopes = outline (Scope.empty :: low)) :
    ∃ rest, scopes = Scope.empty :: rest ∧ (rest.map fun _ => false) = low.map fun _ => false := by
  cases scopes with
  | nil => cases look
  | cons s rest =>
    obtain ⟨top, below⟩ := List.cons.inj look
    obtain ⟨vars, fns⟩ := s
    obtain ⟨none, rfl⟩ := Scope.mk.inj top
    obtain rfl := List.map_eq_nil_iff.mp none
    refine ⟨rest, rfl, ?_⟩
    rw [List.map_const', List.map_const', length_of_outline below]

theorem akin_opening (others : ∀ v ∈ ds, v.name ≠ d.name) (fns : List FnDecl) (body : List Expr)
    (fuel fuel' : Nat) (m : Machine) :
    (opening d (d.value.eval fuel') (runBody fuel ds fns body) m).Akin SameStack
      (opening d (d.value.eval fuel') (inScope (runBody fuel ds fns body)) m) := by
  have keeps := keeps_eval fuel' d.value
  apply akin_sameStack (P := (· = d.name)) _ (keeps_opening keeps (keeps_runBody fuel))
    (keeps_opening keeps (keepsOuter_of_keeps (keeps_inScope (keeps_runBody fuel))))
  apply akin_inScope
  let entered : Machine := { m with scopes := Scope.empty :: m.scopes }
  -- Up to the declaration of the first variable both runs are the same.
  have first :=
    (Outcome.Akin.refl (d.value.eval fuel' entered)).along (keeps entered) (keeps entered)
  apply akin_bind_at first
  · rintro after after' ⟨rfl, look, _⟩
    obtain ⟨rest, stack, marks⟩ := entered_of_outline look
    rw [← marks]
    exact ⟨_, _, [], rest, rest, stack, stack, rfl, Spread.refl rest, rfl⟩
  · rintro v after after' _ _ ⟨rfl, look, _⟩
    obtain ⟨rest, stack, marks⟩ := entered_of_outline look
    have declared : declare (.var d) v after =
        .done () { after with scopes := Scope.ofVar d v :: rest } := declare_of_free stack rfl
    rw [bind_of_done declared, bind_of_done declared, ← marks]
    exact akin_rest others fuel rfl

end Evaluation

/-- A let of several variables is a let of the first one around a let of the others, as long as
    none of the others has its name. On any scopes both have the same type or are rejected for
    the same reason, up to the order of the names that an error lists as visible, and leave the
    scopes as they are. On any machine each end of the one is an end of the other: with the same
    value or the same error, unless it is that something is declared twice, with the same
    output and the same scopes. -/
theorem letIn_asNested (others : ∀ v ∈ ds, v.name ≠ d.name) (fns : List FnDecl)
    (body : List Expr) (span inner outer : Option Span) :
    (∀ Γ : Scopes Ty,
      ((letIn (d :: ds) fns body span).infer Γ).1.mapError Error.blind =
        ((nestedLet d ds fns body inner outer).infer Γ).1.mapError Error.blind ∧
      ((letIn (d :: ds) fns body span).infer Γ).2 = Γ ∧
      ((nestedLet d ds fns body inner outer).infer Γ).2 = Γ) ∧
    ∀ m, (∀ o, (letIn (d :: ds) fns body span).EndsAs m o →
        ∃ o', (nestedLet d ds fns body inner outer).EndsAs m o' ∧ o.Akin SameStack o') ∧
      ∀ o', (nestedLet d ds fns body inner outer).EndsAs m o' →
        ∃ o, (letIn (d :: ds) fns body span).EndsAs m o ∧ o.Akin SameStack o' := by
  refine ⟨fun Γ => ⟨infer_nestedLet others Γ, leaves_infer _ Γ, leaves_infer _ Γ⟩,
    fun m => ⟨fun o => ?_, fun o' => ?_⟩⟩
  · rintro ⟨ended, fuel, rfl⟩
    cases fuel with
    | zero => exact absurd rfl ended
    | succ fuel =>
      -- The nested let needs one unit of fuel more, which its first value gets as well.
      rw [eval_letIn_cons] at ended ⊢
      have more := grows_opening d (Expr.grows_eval (Nat.le_succ fuel) d.value)
        (Eval.grows_same (runBody fuel ds fns body)) m
      have akin := akin_opening others fns body fuel (fuel + 1) m
      rw [Outcome.eq_of_grows more ended] at akin
      refine ⟨_, ⟨mt akin.spent_iff.mpr ended, fuel + 2, ?_⟩, akin⟩
      rw [eval_nestedLet]
  · rintro ⟨ended, fuel, rfl⟩
    have more := Expr.grows_eval (Nat.le_add_right fuel 2) (nestedLet d ds fns body inner outer) m
    have same := Outcome.eq_of_grows more ended
    rw [eval_nestedLet] at same
    have akin := akin_opening others fns body fuel (fuel + 1) m
    rw [same] at akin
    have rest := grows_opening d (Eval.grows_same (d.value.eval (fuel + 1)))
      (grows_runBody (Nat.le_succ fuel) ds fns body) m
    refine ⟨_, ⟨mt akin.spent_iff.mp ended, fuel + 2, ?_⟩, akin⟩
    rw [eval_letIn_cons]
    exact Outcome.eq_of_grows rest (mt akin.spent_iff.mp ended)

def firstVar : VarDecl := ⟨"x", literal (.int 1) none, none⟩

def secondVar : VarDecl := ⟨"y", binary (var "x" none) .add (literal (.int 1) none) none, none⟩

def sumBoth : FnDecl := ⟨"sum", [], .integer, binary (var "x" none) .add (var "y" none) none, none⟩

def sumAfterChange : List Expr :=
  [assign "x" (literal (.int 5) none) none none, call "sum" [] none]

/-- The function sees both variables, wherever they stand, and the assignment to the first. -/
theorem letIn_asNested_sum : (∀ v ∈ [secondVar], v.name ≠ firstVar.name) ∧
    ((letIn [firstVar, secondVar] [sumBoth] sumAfterChange none).infer []).1 = .ok .integer ∧
    ((letIn [firstVar, secondVar] [sumBoth] sumAfterChange none).infer []).1.mapError
        Error.blind =
      ((nestedLet firstVar [secondVar] [sumBoth] sumAfterChange none none).infer []).1.mapError
        Error.blind ∧
    (letIn [firstVar, secondVar] [sumBoth] sumAfterChange none).eval 4 (.start []) =
      .done (.int 7) (.start []) ∧
    ∃ o', (nestedLet firstVar [secondVar] [sumBoth] sumAfterChange none none).EndsAs
        (.start []) o' ∧
      (Outcome.done (Value.int 7) (.start [])).Akin SameStack o' := by
  have others : ∀ v ∈ [secondVar], v.name ≠ firstVar.name :=
    List.forall_mem_singleton.mpr (by decide)
  have run : (letIn [firstVar, secondVar] [sumBoth] sumAfterChange none).eval 4 (.start []) =
      .done (.int 7) (.start []) := rfl
  obtain ⟨checked, ends⟩ := letIn_asNested others [sumBoth] sumAfterChange none none none
  exact ⟨others, rfl, (checked []).1, run, (ends _).1 _ ⟨nofun, 4, run⟩⟩

end Expr
end TypedLet
