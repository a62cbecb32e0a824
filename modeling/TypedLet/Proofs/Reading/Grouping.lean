import TypedLet.Proofs.Evaluation.Bare
import TypedLet.Proofs.Reading.ReadBack
import TypedLet.Proofs.Typing.Bare

/-
What a text leaves open, and what settles it. Operands are put side by side, and nothing
tells which of two operators stands inside of the other. A rule for operands does, and then
programs with the same text have the same meaning.
-/
namespace TypedLet

open Layout Reading TypedLet.Expr

namespace Expr

/-- Two operators in a row have the same text whichever of them is the operand of the other. -/
theorem layout_regroup (style : Style) (level : Nat) (a b c : Expr) (op op' : BinaryOp)
    (inner outer inner' outer' : Option Span) :
    (binary (binary a op b inner) op' c outer).layout style level =
      (binary a op (binary b op' c inner') outer').layout style level := by
  simp only [layout, String.append_assoc]

example (m : Machine) : (binary (binary (literal (.int 1) none) .add (literal (.int 2) none) none)
    .mul (literal (.int 3) none) none).eval 3 m = .done (.int 9) m := rfl

example (m : Machine) : (binary (literal (.int 1) none) .add (binary (literal (.int 2) none)
    .mul (literal (.int 3) none) none) none).eval 3 m = .done (.int 7) m := rfl

theorem groupedBy_regroup {rule : Rule} {a b c : Expr} {op op' : BinaryOp}
    {inner outer inner' outer' : Option Span}
    (left : (binary (binary a op b inner) op' c outer).GroupedBy rule) :
    ¬ (binary a op (binary b op' c inner') outer').GroupedBy rule := by
  intro right
  have away := left.1.1 (.operand op) (.head _)
  have taken := right.1.2 (.operator op') (.head _)
  exact Bool.false_ne_true (away.symm.trans taken)

end Expr

namespace Tree

/-- The same type or none, and from every machine the same result, or the same error but for
    the spans that it points to, with the same output. -/
def SameMeaning (tree tree' : Tree) : Prop :=
  (∀ t, tree.check = .ok t ↔ tree'.check = .ok t) ∧
    ∀ fuel m, (tree.eval fuel m).bare = (tree'.eval fuel m).bare

/-- Programs that follow one rule for operands mean the same when they have the same text. -/
theorem sameMeaning_of_layout {rule : Rule} {tree tree' : Tree} {style style' : Style}
    (written : tree.Written) (written' : tree'.Written) (grouped : tree.GroupedBy rule)
    (grouped' : tree'.GroupedBy rule) (same : tree.layout style = tree'.layout style') :
    tree.SameMeaning tree' := by
  have bare := bare_of_layout written written' grouped grouped' same
  exact ⟨check_of_bare bare, fun fuel _ => eval_of_bare bare fuel rfl⟩

/-- Conversions before products, sums and comparisons, from left to right; a sign takes as
    little as it can, and the other forms take all that they can. -/
def usualRule : Rule where
  takes
    | .operand op, .operator op' => decide (rank op < rank op')
    | .sign _, _ => false
    | _, _ => true
  signed := true
where
  rank : BinaryOp → Nat
    | .mul | .div => 2
    | .add | .sub => 1
    | _ => 0

/-- `let var x := 1 + 2 * -3 in x end`. -/
def letSum (span : Option Span) : Expr :=
  .letIn
    [⟨"x", .binary (.literal (.int 1) span) .add
      (.binary (.literal (.int 2) span) .mul (.literal (.int (-3)) span) span) span, span⟩]
    [] [.var "x" span] span

theorem sameMeaning_letSum : (expr (letSum (some ⟨0, 31⟩))).Written ∧
    (block [letSum none]).Written ∧
    (expr (letSum (some ⟨0, 31⟩))).GroupedBy usualRule ∧
    (block [letSum none]).GroupedBy usualRule ∧
    (expr (letSum (some ⟨0, 31⟩))).layout .standard = (block [letSum none]).layout .standard ∧
    (expr (letSum (some ⟨0, 31⟩))).SameMeaning (block [letSum none]) := by
  have identifier : Identifier "x" := by decide
  have written : ∀ span, (block [letSum span]).Written := by
    intro span
    simp [Written, parts, letSum, EverywhereAll, Everywhere, EverywhereVars, EverywhereVar,
      EverywhereFns, WrittenHere, Value.Plain, identifier]
  have grouped : ∀ span, (block [letSum span]).GroupedBy usualRule := by
    intro span
    simp [GroupedBy, parts, letSum, EverywhereAll, Everywhere, EverywhereVars, EverywhereVar,
      EverywhereFns, Obeys, rightOpen, leftOpen, usualRule, usualRule.rank]
  have same : (expr (letSum (some ⟨0, 31⟩))).layout .standard =
      (block [letSum none]).layout .standard := rfl
  exact ⟨written _, written _, grouped _, grouped _, same,
    sameMeaning_of_layout (written _) (written _) (grouped _) (grouped _) same⟩

end Tree
end TypedLet
