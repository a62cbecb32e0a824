import TypedLet.Proofs.Comparison.Differences
import TypedLet.Proofs.Comparison.Operators

/-
When `<>` is the negation of `=`. Both compare structure, but for two floats themselves: `=`
asks that they lie within the machine epsilon of each other, and `<>` that they are not equal.
So the two agree on all values without NaN but such floats that are close and not equal, where
both say yes, and equal infinities, where both say no.
-/
namespace TypedLet

/-- The floats are equal and finite, or they lie at least the machine epsilon apart. -/
def Floats.Clear (x y : Float) : Prop :=
  ((x == y) = true ∧ x.isFinite = true) ∨ epsilon ≤ (x - y).abs

namespace Value

/-- Two values that are not both floats, or floats between which the tolerance makes no
    difference. -/
def Clear : Value → Value → Prop
  | float x, float y => Floats.Clear x y
  | _, _ => True

mutual
def FreeOfNaN : Value → Prop
  | float x => x.isNaN = false
  | array _ items | tuple _ items => FreeOfNaNAll items
  | _ => True
def FreeOfNaNAll : List Value → Prop
  | [] => True
  | v :: vs => v.FreeOfNaN ∧ FreeOfNaNAll vs
end

end Value

namespace Floats

theorem close_iff_equal {x y : Float} (left : x.isNaN = false) (right : y.isNaN = false) :
    ((x - y).abs < epsilon ↔ (x == y) = true) ↔ Clear x y := by
  unfold Clear
  cases equal : x == y with
  | true =>
    rcases abs_sub_of_equal equal with ⟨finite, close⟩ | ⟨infinite, apart, neither⟩
    · simp [finite, close]
    · simp [infinite, apart, neither]
  | false =>
    have distance : (x - y).abs.isNaN = false := isNaN_abs_sub left right equal
    have number : epsilon.isNaN = false := by decide
    rcases le_or_lt number distance with far | close
    · have apart : ¬ (x - y).abs < epsilon := not_lt_of_le far
      simp [far, apart]
    · have near : ¬ epsilon ≤ (x - y).abs := fun far => not_lt_of_le far close
      simp [close, near]

end Floats

namespace BinaryOp

open Value

variable {v w : Value} {yes : Bool}

theorem answers_ne : ne.Answers v w yes ↔ (!v.same w) = yes := answers_of_apply rfl

/-- Away from floats themselves `=` compares structure, as `<>` does everywhere. -/
theorem equal_eq_same_iff (left : v.FreeOfNaN) (right : w.FreeOfNaN) :
    v.equal w = v.same w ↔ v.Clear w := by
  cases v with
  | float x =>
    cases w with
    | float y =>
      change decide ((x - y).abs < epsilon) = (x == y) ↔ Floats.Clear x y
      rw [Bool.eq_iff_iff, decide_eq_true_iff]
      exact Floats.close_iff_equal left right
    | _ => simp [equal, Value.Clear]
  | _ => simp [equal, Value.Clear]

/-- Both operators answer for any two values. That `<>` says yes exactly when `=` says no holds,
    among values without NaN, where the tolerance of `=` makes no difference, in arrays of floats
    too, and nowhere else. -/
theorem ne_negates_eq_iff (v w : Value) :
    (∃ yes, eq.Answers v w yes) ∧ (∃ yes, ne.Answers v w yes) ∧
      (v.FreeOfNaN → w.FreeOfNaN → ((ne.Holds v w ↔ eq.Fails v w) ↔ v.Clear w)) := by
  refine ⟨⟨_, answers_eq.mpr rfl⟩, ⟨_, answers_ne.mpr rfl⟩, fun left right => ?_⟩
  have unequal : ne.Holds v w ↔ (!v.same w) = true := answers_ne
  have apart : eq.Fails v w ↔ v.equal w = false := answers_eq
  rw [unequal, apart, ← equal_eq_same_iff left right]
  cases v.same w <;> cases v.equal w <;> simp

/-- Of 0.3 and the next float both operators say yes, of infinity and itself both say no. -/
theorem ne_negates_eq_iff_close_and_infinite :
    let x := Value.float (Float.ofBits 0x3FD3333333333333)
    let y := Value.float (Float.ofBits 0x3FD3333333333334)
    let top := Value.float (Float.ofBits 0x7FF0000000000000)
    (eq.Holds x y ∧ ne.Holds x y ∧ ¬ x.Clear y) ∧
      eq.Fails top top ∧ ne.Fails top top ∧ ¬ top.Clear top := by
  intro x y top
  have alike : eq.Holds x y ∧ ne.Holds x y := ⟨rfl, rfl⟩
  have neither : eq.Fails top top ∧ ne.Fails top top := ⟨rfl, rfl⟩
  refine ⟨⟨alike.1, alike.2, fun clear => ?_⟩, neither.1, neither.2, fun clear => ?_⟩
  · have refused : eq.Fails x y := (((ne_negates_eq_iff x y).2.2 rfl rfl).mpr clear).mp alike.2
    exact absurd (alike.1.symm.trans refused) (by simp)
  · have differ : ne.Holds top top :=
      (((ne_negates_eq_iff top top).2.2 rfl rfl).mpr clear).mpr neither.1
    exact absurd (differ.symm.trans neither.2) (by simp)

end BinaryOp
end TypedLet
