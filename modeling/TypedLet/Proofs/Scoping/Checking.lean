import TypedLet.Proofs.Checking.Lookups
import TypedLet.Proofs.Scoping.Inserted

/-
Checking on two stacks that differ by inserted scopes. The inserted scopes answer lookups of
hidden names only, so an expression that uses no hidden name checks alike on both.
-/
namespace TypedLet

open Scopes

variable {P : String → Prop} {mid : Scopes Ty} {inner outer : Nat}

theorem Scopes.answerAlike_of_hides (hides : Hides P mid) (lower : Scopes Ty) :
    AnswerAlike P lower (mid ++ lower) := by
  constructor
  · intro name shown
    rw [findVar_append, findVar_of_hides hides shown, Option.none_or]
  · intro name
    rw [findFn_append, findFn, findFn, resolveFn_of_hides hides]
    rfl

theorem Expr.agree_infer (hides : Hides P mid) (e : Expr) (inner : Nat) (avoids : Avoids P e) :
    Action.Agree Error.blind (Inserted P mid inner outer) e.infer e.infer := by
  rintro scopes scopes' inserted
  have kept := inserted
  obtain ⟨upper, lower, rfl, rfl, rfl, _, _⟩ := inserted
  have topping : Topping lower (mid ++ lower) upper.length (upper ++ lower)
      (upper ++ (mid ++ lower)) := ⟨upper, rfl, rfl, rfl⟩
  refine ⟨(alike_infer (answerAlike_of_hides hides lower) e _ avoids _ _ topping).1, ?_⟩
  rw [leaves_infer, leaves_infer]
  exact kept

end TypedLet
