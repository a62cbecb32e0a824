import TypedLet.Proofs.Reading.Layout

/-
Rules for the operands of operators. No operand stands in parentheses, so a text leaves open
whether an operator behind an operand belongs to what the operand is part of, or goes on
with the operand itself. A rule decides this, as precedence and associativity do. A tree
follows it when every operand in it is what the rule makes of the text.
-/
namespace TypedLet

namespace Reading

/-- What the operand at the end of an expression belongs to. -/
inductive RightOpen where
  | operand (op : BinaryOp)
  | sign (op : UnaryOp)
  | assigned | matched | elseArm | whileBody | forBody
deriving DecidableEq, Repr

/-- What can come behind an operand and belong to it. -/
inductive LeftOpen where
  | operator (op : BinaryOp)
  | cast
deriving DecidableEq, Repr

/-- Which operands at an end go on with what comes behind them, and whether a minus is read
    as the sign of a literal where it can be one. -/
structure Rule where
  takes : RightOpen → LeftOpen → Bool
  signed : Bool

end Reading

open Reading

namespace Expr

def rightOpen : Expr → List RightOpen
  | assign _ value _ _ => .assigned :: value.rightOpen
  | matchWith _ value _ => .matched :: value.rightOpen
  | ifElse _ _ whenFalse _ => .elseArm :: whenFalse.rightOpen
  | whileDo _ body _ => .whileBody :: body.rightOpen
  | forTo _ _ body _ => .forBody :: body.rightOpen
  | binary _ op right _ => .operand op :: right.rightOpen
  | unary op operand _ => .sign op :: operand.rightOpen
  | _ => []

def leftOpen : Expr → List LeftOpen
  | binary left op _ _ => .operator op :: left.leftOpen
  | cast operand _ _ => .cast :: operand.leftOpen
  | _ => []

def openAssign : Expr → Bool
  | assign .. => true
  | matchWith _ value _ => value.openAssign
  | ifElse _ _ whenFalse _ => whenFalse.openAssign
  | whileDo _ body _ => body.openAssign
  | forTo _ _ body _ => body.openAssign
  | binary left _ right _ => left.openAssign || right.openAssign
  | unary _ operand _ => operand.openAssign
  | cast operand _ _ => operand.openAssign
  | _ => false

/-- Whether a minus before the expression would make its first word a literal with a sign. -/
def StartsUnsigned (e : Expr) : Prop :=
  ∃ v : Value, v.Worded ∧ v.negative = true ∧ ∃ rest, e.tokens = .literal v.word :: rest

/-- An operand at the end takes what comes behind the operands that start with it, an
    operand at the start is not taken away by what ends with it, and the first `:=` behind
    a pattern is that of the match. -/
def Obeys (rule : Rule) : Expr → Prop
  | literal v _ => v.negative = true → rule.signed = true
  | assign _ value _ _ => ∀ o ∈ value.leftOpen, rule.takes .assigned o = true
  | matchWith pattern value _ =>
    pattern.openAssign = false ∧ ∀ o ∈ value.leftOpen, rule.takes .matched o = true
  | ifElse _ _ whenFalse _ => ∀ o ∈ whenFalse.leftOpen, rule.takes .elseArm o = true
  | whileDo _ body _ => ∀ o ∈ body.leftOpen, rule.takes .whileBody o = true
  | forTo _ _ body _ => ∀ o ∈ body.leftOpen, rule.takes .forBody o = true
  | binary left op right _ =>
    (∀ p ∈ left.rightOpen, rule.takes p (.operator op) = false) ∧
      ∀ o ∈ right.leftOpen, rule.takes (.operand op) o = true
  | unary op operand _ => (∀ o ∈ operand.leftOpen, rule.takes (.sign op) o = true) ∧
    (op = .minus → rule.signed = true → ¬ operand.StartsUnsigned)
  | cast operand _ _ => ∀ p ∈ operand.rightOpen, rule.takes p .cast = false
  | _ => True

def GroupedBy (rule : Rule) : Expr → Prop := Everywhere (Obeys rule)

end Expr

end TypedLet
