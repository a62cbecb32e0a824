import TypedLet.Proofs.Reordering.Checking
import TypedLet.Proofs.Reordering.Evaluation

/-
The order of function declarations does not matter. Functions of one let see each other
wherever they stand in the list, so that a program may list them in any order, in each of its
lets.
-/
namespace TypedLet
namespace Tree

open Scopes TypedLet.Expr

variable {tree tree' : Tree}

theorem check_of_reordered (same : tree.Reordered tree') (t : Ty) :
    tree.check = .ok t ↔ tree'.check = .ok t := by
  cases same with
  | expr inner =>
    have typed := hasType_of_reordered inner (G := Context.ofScopes []) (t := t)
    rwa [hasType_iff, hasType_iff, infers_iff, infers_iff] at typed
  | block row =>
    have grouped : Expr.Reordered (.group _ none) (.group _ none) := .group row
    have typed := hasType_of_reordered grouped (G := Context.ofScopes []) (t := t)
    rwa [hasType_iff, hasType_iff, infers_group, infers_group, ← check_block_ok_iff,
      ← check_block_ok_iff] at typed

theorem akin_of_reordered (same : tree.Reordered tree') (fuel : Nat) (m : Machine) :
    (tree.eval fuel m).Akin SameStack (tree'.eval fuel m) := by
  have start : Paired (Spread (fun _ => False) (m.scopes.map fun _ => false)) m m :=
    ⟨Spread.refl m.scopes, rfl⟩
  have parts : Eval.RunsAkin (fun _ => False) (Expr.eval fuel) := akin_eval _ fuel
  have run : (tree.eval fuel m).Akin
      (Paired (Spread (fun _ => False) (m.scopes.map fun _ => false))) (tree'.eval fuel m) := by
    cases same with
    | expr inner => exact parts inner m m start
    | block row => exact Eval.akin_row parts row m m start
  exact Eval.akin_sameStack run (tree.keeps_eval fuel) (tree'.keeps_eval fuel)

/-- Two programs that differ in the order of function declarations only are accepted with the
    same type or both rejected. From any machine and with any fuel their runs end with the same
    value or the same error, unless it is that something is declared twice, with the same
    output and the same scopes, or neither has come to an end. -/
theorem independent_of_order (same : tree.Reordered tree') :
    (∀ t, tree.check = .ok t ↔ tree'.check = .ok t) ∧
      ∀ fuel m, (tree.eval fuel m).Akin SameStack (tree'.eval fuel m) :=
  ⟨check_of_reordered same, akin_of_reordered same⟩

/-- `function f(n: Integer): Bool := if n = 0 then last else g(n - 1)` -/
def countdown (f g : String) (last : Bool) : FnDecl :=
  ⟨f, [⟨"n", .integer, none⟩], .bool,
    .ifElse (.binary (.var "n" none) .eq (.literal (.int 0) none) none)
      (.literal (.bool last) none)
      (.call g [.binary (.var "n" none) .sub (.literal (.int 1) none) none] none) none, none⟩

/-- Whether 1 is even, by functions that call each other. -/
def parity (fns : List FnDecl) : Tree :=
  .expr (.letIn [] fns [.call "even" [.literal (.int 1) none] none] none)

theorem independent_of_order_parity :
    (parity [countdown "even" "odd" true, countdown "odd" "even" false]).Reordered
      (parity [countdown "odd" "even" false, countdown "even" "odd" true]) ∧
    (parity [countdown "even" "odd" true, countdown "odd" "even" false]).check = .ok .bool ∧
    (∃ after, (parity [countdown "odd" "even" false, countdown "even" "odd" true]).eval 7
      (Machine.start []) = .done (.bool false) after) ∧
    (∀ t, (parity [countdown "even" "odd" true, countdown "odd" "even" false]).check = .ok t ↔
      (parity [countdown "odd" "even" false, countdown "even" "odd" true]).check = .ok t) ∧
    ∀ fuel m,
      ((parity [countdown "even" "odd" true, countdown "odd" "even" false]).eval fuel m).Akin
        SameStack
        ((parity [countdown "odd" "even" false, countdown "even" "odd" true]).eval fuel m) := by
  have same : (parity [countdown "even" "odd" true, countdown "odd" "even" false]).Reordered
      (parity [countdown "odd" "even" false, countdown "even" "odd" true]) :=
    .expr (.letIn .nil (fnsReordered_refl _) (.swap _ _ []) (allReordered_refl _))
  exact ⟨same, rfl, ⟨_, rfl⟩, independent_of_order same⟩

end Tree
end TypedLet
