import TypedLet.Proofs.Checking.Accept
import TypedLet.Proofs.Scoping.Checking
import TypedLet.Proofs.Scoping.Evaluation

/-
Lexical scoping. A variable that an expression does not use can be declared around it
without anything changing: the check and the run end as they did, on any stack, also when
the expression calls functions of that stack that use another variable of the same name.
-/
namespace TypedLet

open Scopes

namespace Expr

variable {name : String} {v : Value} {e : Expr} {literalSpan declSpan span : Option Span}

theorem hides_ofVar (decl : VarDecl) (info : α) :
    Hides (· = decl.name) [Scope.ofVar decl info] :=
  List.forall_mem_singleton.mpr ⟨rfl, List.forall_mem_singleton.mpr rfl⟩

theorem inferAll_singleton (e : Expr) :
    (inferAll [e] >>= fun types => Pure.pure (rowType types)) = e.infer := by
  funext Γ
  cases run : e.infer Γ with
  | mk result after =>
    cases result with
    | ok t =>
      have all : inferAll [e] Γ = (.ok [t], after) := by
        rw [inferAll, Action.bind_of_ok run]
        rfl
      rw [Action.bind_of_ok all]
      rfl
    | error err =>
      have all : inferAll [e] Γ = (.error err, after) := by
        rw [inferAll, Action.bind_of_error run]
      rw [Action.bind_of_error all]

theorem infer_underVar (held : v.type ≠ .void) (Γ : Scopes Ty) :
    (letIn [⟨name, literal v literalSpan, declSpan⟩] [] [e] span).infer Γ =
      ((e.infer (Scope.ofVar ⟨name, literal v literalSpan, declSpan⟩ v.type :: Γ)).1, Γ) := by
  let inside := Scope.ofVar ⟨name, literal v literalSpan, declSpan⟩ v.type :: Γ
  have declared : checkVars [⟨name, literal v literalSpan, declSpan⟩] (Scope.empty :: Γ) =
      (.ok (), inside) := by
    apply checkVars_cons_ok_iff.mpr
    exact ⟨v.type, _, infers_literal.mpr rfl, held, rfl, rfl⟩
  have body : (do
      checkVars [⟨name, literal v literalSpan, declSpan⟩]
      declareFns []
      checkFns []
      let types ← inferAll [e]
      Pure.pure (rowType types)) (Scope.empty :: Γ) = e.infer inside := by
    rw [Action.bind_of_ok declared, inferAll_singleton]
    rfl
  have same := leaves_infer e inside
  rw [infer]
  unfold Action.inScope
  rw [body]
  cases run : e.infer inside with
  | mk result last =>
    rw [run] at same
    subst same
    rfl

theorem row_singleton (eval : Expr → Eval Value) (e : Expr) : Eval.row eval [e] = eval e := by
  funext m
  change Eval.bind (Eval.bind (eval e) _) _ m = _
  unfold Eval.bind
  cases run : eval e m with
  | done v after => rfl
  | failed err after => rfl
  | outOfFuel => rfl

theorem eval_underVar (fuel : Nat) (m : Machine) :
    (letIn [⟨name, literal v literalSpan, declSpan⟩] [] [e] span).eval (fuel + 1) m =
      Eval.closing (e.eval fuel)
        (fun after => after.scopes.leave.map fun scopes => { after with scopes })
        { m with scopes := Scope.ofVar ⟨name, literal v literalSpan, declSpan⟩ v :: m.scopes } := by
  have body : (do
      Eval.declareVars (Expr.eval fuel) [⟨name, literal v literalSpan, declSpan⟩]
      Eval.declareFns []
      Eval.row (Expr.eval fuel) [e]) { m with scopes := Scope.empty :: m.scopes } =
      e.eval fuel
        { m with scopes := Scope.ofVar ⟨name, literal v literalSpan, declSpan⟩ v :: m.scopes } := by
    rw [row_singleton]
    cases fuel with
    | zero => rfl
    | succ fuel => rfl
  rw [eval]
  unfold Eval.inScope Eval.closing
  rw [body]

/-- Declaring a variable that the expression does not use changes neither its check, up to
    the names that an error lists as visible, nor its run, on whatever scopes: the let ends
    as the expression does, in the same scopes and with the same output. -/
theorem weakening (unused : name ∉ e.varNames) (held : v.type ≠ .void)
    (literalSpan declSpan span : Option Span) :
    (∀ Γ : Scopes Ty,
      ((letIn [⟨name, literal v literalSpan, declSpan⟩] [] [e] span).infer Γ).1.mapError
        Error.blind = (e.infer Γ).1.mapError Error.blind ∧
      ((letIn [⟨name, literal v literalSpan, declSpan⟩] [] [e] span).infer Γ).2 = Γ ∧
      (e.infer Γ).2 = Γ) ∧
    ∀ fuel m, (e.eval fuel m).Alike
      (fun after after' => after.scopes = after'.scopes ∧ after.output = after'.output)
      ((letIn [⟨name, literal v literalSpan, declSpan⟩] [] [e] span).eval (fuel + 1) m) := by
  have avoids : Avoids (· = name) e := by
    rintro n used rfl
    exact unused used
  let decl : VarDecl := ⟨name, literal v literalSpan, declSpan⟩
  constructor
  · intro Γ
    rw [infer_underVar held]
    have alike := agree_infer (hides_ofVar decl v.type) e 0 avoids Γ _
      (inserted_here [Scope.ofVar decl v.type] Γ)
    exact ⟨alike.1.symm, rfl, leaves_infer e Γ⟩
  · intro fuel m
    have beside : Beside (· = name) [Scope.ofVar decl v] 0 m.scopes.length m
        { m with scopes := Scope.ofVar decl v :: m.scopes } :=
      ⟨inserted_here [Scope.ofVar decl v] m.scopes, rfl⟩
    have alike := weakens_eval fuel (hides_ofVar decl v) avoids m _ beside
    rw [eval_underVar, ← Eval.closing_ok (e.eval fuel) m]
    apply Eval.alike_closing alike
    rintro after after' ⟨⟨upper, lower, stack, stack', none, _⟩, output⟩
    obtain rfl := List.length_eq_zero_iff.mp none
    rw [stack']
    exact ⟨after, _, rfl, rfl, stack, output⟩

/-- A machine on which `get` reads a variable `y` of its own. -/
def readerMachine : Machine :=
  .start [⟨[.of (.var ⟨"y", literal (.int 1) none, none⟩) (.int 1)],
    [.of ⟨"get", [], .integer, var "y" none, none⟩]⟩]

theorem weakening_call_of_reader :
    "y" ∉ (call "get" [] none).varNames ∧ (Value.int 5).type ≠ .void ∧
    (call "get" [] none).eval 3 readerMachine = .done (.int 1) readerMachine ∧
    (∀ Γ : Scopes Ty,
      ((letIn [⟨"y", literal (.int 5) none, none⟩] [] [call "get" [] none] none).infer Γ).1.mapError
        Error.blind = ((call "get" [] none).infer Γ).1.mapError Error.blind ∧
      ((letIn [⟨"y", literal (.int 5) none, none⟩] [] [call "get" [] none] none).infer Γ).2 = Γ ∧
      ((call "get" [] none).infer Γ).2 = Γ) ∧
    ∀ fuel m, ((call "get" [] none).eval fuel m).Alike
      (fun after after' => after.scopes = after'.scopes ∧ after.output = after'.output)
      ((letIn [⟨"y", literal (.int 5) none, none⟩] [] [call "get" [] none] none).eval
        (fuel + 1) m) := by
  have unused : "y" ∉ (call "get" [] none).varNames := by decide
  have held : (Value.int 5).type ≠ .void := by decide
  exact ⟨unused, held, rfl, weakening unused held none none none⟩

end Expr
end TypedLet
