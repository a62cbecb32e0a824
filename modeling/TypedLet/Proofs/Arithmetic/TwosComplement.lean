import TypedLet.Proofs.Evaluation.Fuel
import TypedLet.Proofs.Scoping.Weakening

/-
Integer expressions compute in two's complement. A word is an integer of the range that 64
bits with a sign can tell apart. The reference computes on unbounded integers and wraps what
leaves the range, operation by operation; division goes toward zero, and the least word
divided by -1 is the least word again. Evaluation comes to the same, from every machine and
without a trace on it, and it fails where the reference meets a zero divisor. Without
divisions it makes no difference when the wrapping is done: once at the end is enough.
-/
namespace TypedLet

def leastWord : Int := -9223372036854775808

/-- The word that differs by a multiple of `2 ^ 64`. -/
def wrap (n : Int) : Int := (n - leastWord) % 18446744073709551616 + leastWord

theorem wrap_eq_bmod (n : Int) : wrap n = n.bmod Int64.size := by
  unfold wrap leastWord
  rw [Int.bmod_def]
  have size : (Int64.size : Int) = 18446744073709551616 := rfl
  rw [size]
  split <;> omega

theorem toInt_ofInt_eq_wrap (n : Int) : (Int64.ofInt n).toInt = wrap n := by
  rw [Int64.toInt_ofInt, wrap_eq_bmod]

section WrapLaws

variable (a b : Int)

theorem wrap_wrap_add : wrap (wrap a + wrap b) = wrap (a + b) := by
  simp only [wrap_eq_bmod, Int.bmod_add_bmod, Int.add_bmod_bmod]

theorem wrap_wrap_sub : wrap (wrap a - wrap b) = wrap (a - b) := by
  simp only [wrap_eq_bmod, Int.bmod_sub_bmod, Int.sub_bmod_bmod]

theorem wrap_wrap_mul : wrap (wrap a * wrap b) = wrap (a * b) := by
  simp only [wrap_eq_bmod, Int.bmod_mul_bmod, Int.mul_bmod_bmod]

theorem wrap_wrap_neg : wrap (-wrap a) = wrap (-a) := by
  unfold wrap leastWord
  omega

end WrapLaws

inductive IntOp where
  | add | sub | mul | div

namespace IntOp

def toBinary : IntOp → BinaryOp
  | add => .add
  | sub => .sub
  | mul => .mul
  | div => .div

/-- On unbounded integers; quotients are cut off toward zero. -/
def exactly : IntOp → Int → Int → Int
  | add, a, b => a + b
  | sub, a, b => a - b
  | mul, a, b => a * b
  | div, a, b => a.tdiv b

def onWords : IntOp → Int → Int → Option Int
  | add, a, b => some (wrap (a + b))
  | sub, a, b => some (wrap (a - b))
  | mul, a, b => some (wrap (a * b))
  | div, a, b =>
    if b = 0 then none
    else if a = leastWord ∧ b = -1 then some leastWord
    else some (a.tdiv b)

end IntOp

inductive IntExpr where
  | literal (n : Int) (span : Option Span)
  | group (before : List IntExpr) (last : IntExpr) (span : Option Span)
  | sign (op : UnaryOp) (operand : IntExpr) (span : Option Span)
  | binary (left : IntExpr) (op : IntOp) (right : IntExpr) (span : Option Span)

namespace IntExpr

mutual
def toExpr : IntExpr → Expr
  | literal n span => .literal (Value.ofInt n) span
  | group before last span => .group (toExprs before ++ [last.toExpr]) span
  | sign op operand span => .unary op operand.toExpr span
  | binary left op right span => .binary left.toExpr op.toBinary right.toExpr span
def toExprs : List IntExpr → List Expr
  | [] => []
  | f :: fs => f.toExpr :: toExprs fs
end

def signed : UnaryOp → Int → Int
  | .plus, a => a
  | .minus, a => wrap (-a)

mutual
/-- The word that the reference computes, unless it meets a zero divisor. -/
def word : IntExpr → Option Int
  | literal n _ => some (wrap n)
  | group before last _ => wordAfter before last.word
  | sign op operand _ => operand.word.map (signed op)
  | binary left op right _ =>
    left.word.bind fun a => right.word.bind fun b => op.onWords a b
def wordAfter : List IntExpr → Option Int → Option Int
  | [], last => last
  | f :: fs, last => f.word.bind fun _ => wordAfter fs last
end

def exact : IntExpr → Int
  | literal n _ => n
  | group _ last _ => last.exact
  | sign .plus operand _ => operand.exact
  | sign .minus operand _ => -operand.exact
  | binary left op right _ => op.exactly left.exact right.exact

mutual
def DivFree : IntExpr → Prop
  | literal _ _ => True
  | group before last _ => AllDivFree before ∧ last.DivFree
  | sign _ operand _ => operand.DivFree
  | binary left op right _ => op ≠ .div ∧ left.DivFree ∧ right.DivFree
def AllDivFree : List IntExpr → Prop
  | [] => True
  | f :: fs => f.DivFree ∧ AllDivFree fs
end

mutual
def depth : IntExpr → Nat
  | literal _ _ => 1
  | group before last _ => max (depthAll before) last.depth + 1
  | sign _ operand _ => operand.depth + 1
  | binary left _ right _ => max left.depth right.depth + 1
def depthAll : List IntExpr → Nat
  | [] => 0
  | f :: fs => max f.depth (depthAll fs)
end

end IntExpr

def Outcome.Answers (m : Machine) (expected : Option Int) (o : Outcome Value) : Prop :=
  match expected with
  | some w => ∃ n : Int64, n.toInt = w ∧ o = .done (.int n) m
  | none => o = .failed .divisionByZero m

namespace Eval

variable {m : Machine} {x : Eval Value} {f : Value → Eval Value} {w : Option Int}

theorem answers_bind {next : Int → Option Int} (first : (x m).Answers m w)
    (later : ∀ n : Int64, (f (.int n) m).Answers m (next n.toInt)) :
    ((x >>= f) m).Answers m (w.bind next) := by
  cases w with
  | some a =>
    obtain ⟨n, rfl, run⟩ := first
    rw [bind_of_done run]
    exact later n
  | none => exact bind_of_failed first

theorem row_cons (eval : Expr → Eval Value) (e : Expr) {es : List Expr} (others : es ≠ []) :
    row eval (e :: es) m = (eval e >>= fun _ => row eval es) m := by
  obtain ⟨e', es, rfl⟩ := List.exists_cons_of_ne_nil others
  change Eval.bind (Eval.bind (eval e) _) _ m = Eval.bind (eval e) _ m
  unfold Eval.bind
  cases eval e m with
  | failed | outOfFuel => rfl
  | done v middle =>
    change Eval.bind (Eval.bind (Eval.bind (eval e') _) _) _ middle =
      Eval.bind (Eval.bind (eval e') _) _ middle
    unfold Eval.bind
    cases eval e' middle with
    | failed | outOfFuel => rfl
    | done v' later =>
      change Eval.bind (Eval.bind (Eval.bind (all eval es) _) _) _ later =
        Eval.bind (Eval.bind (all eval es) _) _ later
      unfold Eval.bind
      cases all eval es later <;> rfl

/-- A quotient of words is a word, but for one. -/
theorem toInt_div_word (a b : Int64) : (a / b).toInt =
    if a.toInt = leastWord ∧ b.toInt = -1 then leastWord else a.toInt.tdiv b.toInt := by
  have least : a.toInt = leastWord ↔ a = Int64.minValue := Int64.toInt_inj (y := .minValue)
  have minusOne : b.toInt = -1 ↔ b = -1 := Int64.toInt_inj (y := -1)
  split
  · next both =>
    rw [least.mp both.1, minusOne.mp both.2]
    rfl
  · next differ =>
    by_cases same : a = Int64.minValue
    · exact Int64.toInt_div_of_ne_right a b fun other =>
        differ ⟨least.mpr same, minusOne.mpr other⟩
    · exact Int64.toInt_div_of_ne_left a b same

theorem answers_apply (op : IntOp) (a b : Int64) :
    (ofExcept (op.toBinary.apply (.int a) (.int b)) m).Answers m
      (op.onWords a.toInt b.toInt) := by
  cases op with
  | add => exact ⟨a + b, by rw [Int64.toInt_add, wrap_eq_bmod], rfl⟩
  | sub => exact ⟨a - b, by rw [Int64.toInt_sub, wrap_eq_bmod], rfl⟩
  | mul => exact ⟨a * b, by rw [Int64.toInt_mul, wrap_eq_bmod], rfl⟩
  | div =>
    have zero : b.toInt = 0 ↔ b = 0 := Int64.toInt_inj (y := 0)
    change Outcome.Answers m (if b.toInt = 0 then none else _)
      (ofExcept (if b = 0 then .error .divisionByZero else _) m)
    by_cases divisor : b = 0
    · rw [if_pos divisor, if_pos (zero.mpr divisor)]
      rfl
    · rw [if_neg divisor, if_neg fun same => divisor (zero.mp same)]
      have quotient := toInt_div_word a b
      split at quotient
      · next both =>
        rw [if_pos both]
        exact ⟨a / b, quotient, rfl⟩
      · next differ =>
        rw [if_neg differ]
        exact ⟨a / b, quotient, rfl⟩

theorem answers_signed (op : UnaryOp) (a : Int64) :
    (ofExcept (op.apply (.int a)) m).Answers m (some (IntExpr.signed op a.toInt)) := by
  cases op with
  | plus => exact ⟨a, rfl, rfl⟩
  | minus => exact ⟨-a, by rw [Int64.toInt_neg, IntExpr.signed, wrap_eq_bmod], rfl⟩

end Eval

namespace IntExpr

open Eval

theorem depth_pos (f : IntExpr) : 0 < f.depth := by
  cases f <;> simp [depth]

mutual
theorem answers_eval : ∀ (f : IntExpr) {fuel : Nat} (m : Machine), f.depth ≤ fuel →
    (f.toExpr.eval fuel m).Answers m f.word
  | f, 0, _, enough => absurd f.depth_pos (by omega)
  | literal n _, fuel + 1, m, enough => ⟨Int64.ofInt n, toInt_ofInt_eq_wrap n, rfl⟩
  | group before last _, fuel + 1, m, enough => by
    rw [depth] at enough
    rw [toExpr, Expr.eval]
    exact answers_row before m (by omega) (answers_eval last m (by omega))
  | sign op operand _, fuel + 1, m, enough => by
    rw [depth] at enough
    rw [toExpr, Expr.eval, word, Option.map_eq_bind]
    exact answers_bind (answers_eval operand m (by omega)) fun a => answers_signed op a
  | binary left op right _, fuel + 1, m, enough => by
    rw [depth] at enough
    rw [toExpr, Expr.eval, word]
    apply answers_bind (answers_eval left m (by omega))
    intro a
    apply answers_bind (answers_eval right m (by omega))
    intro b
    exact answers_apply op a b
theorem answers_row : ∀ (fs : List IntExpr) {e : Expr} {w : Option Int} {fuel : Nat} (m : Machine),
    depthAll fs ≤ fuel → (e.eval fuel m).Answers m w →
      (row (Expr.eval fuel) (toExprs fs ++ [e]) m).Answers m (wordAfter fs w)
  | [], e, w, fuel, m, enough, last => by
    rw [toExprs, List.nil_append, Expr.row_singleton]
    exact last
  | f :: fs, e, w, fuel, m, enough, last => by
    rw [depthAll] at enough
    rw [toExprs, List.cons_append, row_cons _ _ (by simp), wordAfter]
    apply answers_bind (answers_eval f m (by omega))
    intro _
    exact answers_row fs m (by omega) last
end

mutual
/-- Where nothing is divided, the words are those of the exact values. -/
theorem word_of_divFree : ∀ f : IntExpr, f.DivFree → f.word = some (wrap f.exact)
  | literal _ _, _ => rfl
  | group before last _, free => by
    rw [word, exact, wordAfter_of_divFree before free.1, word_of_divFree last free.2]
  | sign op operand _, free => by
    rw [word, word_of_divFree operand free, Option.map_some]
    cases op with
    | plus => rfl
    | minus => exact congrArg some (wrap_wrap_neg _)
  | binary left op right _, free => by
    rw [word, word_of_divFree left free.2.1, word_of_divFree right free.2.2]
    cases op with
    | add => exact congrArg some (wrap_wrap_add _ _)
    | sub => exact congrArg some (wrap_wrap_sub _ _)
    | mul => exact congrArg some (wrap_wrap_mul _ _)
    | div => exact absurd rfl free.1
theorem wordAfter_of_divFree : ∀ (fs : List IntExpr), AllDivFree fs → ∀ w, wordAfter fs w = w
  | [], _, _ => rfl
  | f :: fs, free, w => by
    rw [wordAfter, word_of_divFree f free.1]
    exact wordAfter_of_divFree fs free.2 w
end

/-- From every machine the expression ends with the word that the reference computes, and
    with a division by zero exactly where the reference meets a zero divisor; the machine is
    as it was. Without divisions the word is the exact value, wrapped once. -/
theorem computes_word (f : IntExpr) (m : Machine) :
    (∀ w, f.word = some w ↔
      ∃ n : Int64, n.toInt = w ∧ f.toExpr.EndsAs m (.done (.int n) m)) ∧
    (f.word = none ↔ f.toExpr.EndsAs m (.failed .divisionByZero m)) ∧
    (f.DivFree → f.word = some (wrap f.exact)) := by
  have answers := f.answers_eval m (Nat.le_refl _)
  cases computed : f.word with
  | some a =>
    rw [computed] at answers
    obtain ⟨n, rfl, run⟩ := answers
    have ends : f.toExpr.EndsAs m (.done (.int n) m) := ⟨nofun, _, run⟩
    refine ⟨fun w => ⟨?_, ?_⟩, ⟨nofun, fun fails => ?_⟩, fun free => ?_⟩
    · rintro ⟨⟩
      exact ⟨n, rfl, ends⟩
    · rintro ⟨n', rfl, ends'⟩
      cases ends.unique ends'
      rfl
    · cases ends.unique fails
    · exact computed.symm.trans (f.word_of_divFree free)
  | none =>
    rw [computed] at answers
    have fails : f.toExpr.EndsAs m (.failed .divisionByZero m) := ⟨nofun, _, answers⟩
    refine ⟨fun w => ⟨nofun, ?_⟩, ⟨fun _ => fails, fun _ => rfl⟩, fun free => ?_⟩
    · rintro ⟨n, _, ends⟩
      cases fails.unique ends
    · exact computed.symm.trans (f.word_of_divFree free)

/-- The greatest word and one more is the least word, and its negative is the least word too. -/
theorem computes_word_past_the_end :
    let f := sign .minus (binary (literal 9223372036854775807 none) .add (literal 1 none) none) none
    f.DivFree ∧ f.exact = leastWord ∧ f.word = some (wrap f.exact) := by
  intro f
  have free : f.DivFree := ⟨nofun, trivial, trivial⟩
  exact ⟨free, rfl, (computes_word f (.start [])).2.2 free⟩

/-- `(0 - 1, -9223372036854775808) / -1` is the least word again. -/
example : (binary (group [binary (literal 0 none) .sub (literal 1 none) none]
    (literal leastWord none) none) .div (sign .minus (literal 1 none) none) none).word =
      some leastWord := by decide

end IntExpr
end TypedLet
