import Mathlib
import TypedLet.Builtin.Operator

/-
Differences of floats. The parts of a float are a signed zero, a signed finite number, a signed
infinity or no number. A difference is no number only where an operand is none, or both are the
same infinity; so between two numbers that are not equal there is a distance, and it lies on one
side of the machine epsilon. Equal finite numbers have the distance zero.
-/
namespace TypedLet.Floats

open Float.Model UnpackedFloat

variable {a b : UnpackedFloat}

theorem compare_swap (a b : UnpackedFloat) :
    b.compare a = (a.compare b).map Ordering.swap := by
  cases a with
  | notANumber => cases b <;> rfl
  | infinity s =>
    cases b with
    | infinity s' => cases s <;> cases s' <;> rfl
    | _ => cases s <;> rfl
  | zero s =>
    cases b with
    | notANumber => rfl
    | zero => rfl
    | infinity s' | finite s' => cases s' <;> rfl
  | finite s m e pos =>
    cases b with
    | notANumber => cases s <;> rfl
    | zero => cases s <;> rfl
    | infinity s' => cases s <;> cases s' <;> rfl
    | finite s' m' e' pos' =>
      have exponents := Int.compare_swap e e'
      have mantissas := Nat.compare_swap m m'
      cases s <;> cases s' <;>
        simp [UnpackedFloat.compare, Ordering.swap_then, exponents, mantissas]

theorem compare_isSome (left : a.isNaN = false) (right : b.isNaN = false) :
    (a.compare b).isSome := by
  cases a with
  | notANumber => cases left
  | infinity s =>
    cases b with
    | notANumber => cases right
    | infinity s' => cases s <;> cases s' <;> rfl
    | zero | finite => cases s <;> rfl
  | zero s =>
    cases b with
    | notANumber => cases right
    | infinity s' | finite s' => cases s' <;> rfl
    | zero => rfl
  | finite s m e pos =>
    cases b with
    | notANumber => cases right
    | zero => cases s <;> rfl
    | infinity s' | finite s' => cases s <;> cases s' <;> rfl

theorem isNaN_round (format : Format) (sign : Sign) (mantissa : Nat) (exponent : Int) :
    (UnpackedFloat.round format sign mantissa exponent).isNaN = false := by
  unfold UnpackedFloat.round roundWithAccuracy
  dsimp only
  split <;> rfl

theorem isNaN_normalize (format : Format) (mantissa exponent : Int) (sign : Sign) :
    (UnpackedFloat.normalize format mantissa exponent sign).isNaN = false := by
  unfold UnpackedFloat.normalize
  split
  · exact isNaN_round _ _ _ _
  · rfl
  · exact isNaN_round _ _ _ _

theorem isNaN_sub (format : Format) (left : a.isNaN = false) (right : b.isNaN = false)
    (differ : a.compare b ≠ some .eq) : (UnpackedFloat.sub format a b).isNaN = false := by
  cases a with
  | notANumber => cases left
  | infinity s =>
    cases b with
    | notANumber => cases right
    | infinity s' =>
      cases s <;> cases s'
      · exact absurd rfl differ
      · rfl
      · rfl
      · exact absurd rfl differ
    | zero | finite => rfl
  | zero s =>
    cases b with
    | notANumber => cases right
    | infinity | finite => rfl
    | zero s' => cases s <;> cases s' <;> rfl
  | finite s m e pos =>
    cases b with
    | notANumber => cases right
    | infinity | zero => rfl
    | finite s' m' e' pos' => exact isNaN_normalize _ _ _ _

theorem sub_of_equal (format : Format) (equal : a.compare b = some .eq) :
    a.isFinite = true ∧ (∃ s, UnpackedFloat.sub format a b = .zero s) ∨
      a.isFinite = false ∧ UnpackedFloat.sub format a b = .notANumber := by
  have beq : a.beq b = true := by simp [UnpackedFloat.beq, equal]
  obtain ⟨number, -, same | ⟨rfl, rfl⟩ | ⟨rfl, rfl⟩⟩ := (beq_iff_ne_notANumber_and_eq a b).mp beq
  · subst same
    cases a with
    | notANumber => exact absurd rfl number
    | infinity s => cases s <;> exact .inr ⟨rfl, rfl⟩
    | zero s => cases s <;> exact .inl ⟨rfl, _, rfl⟩
    | finite s m e pos =>
      exact .inl ⟨rfl, .positive, by simp [UnpackedFloat.sub, UnpackedFloat.normalize]⟩
  · exact .inl ⟨rfl, _, rfl⟩
  · exact .inl ⟨rfl, _, rfl⟩

theorem isNaN_abs (a : UnpackedFloat) : a.abs.isNaN = a.isNaN := by
  cases a <;> rfl

/-- What is no number has all exponent bits, and others below them. -/
theorem isNaNBits_of_unpack {bits : BitVec Format.binary64.numBits}
    (missing : (UnpackedFloat.unpack .binary64 bits).isNaN = true) : isNaNBits bits = true := by
  by_contra other
  have packed := pack_unpack bits
  rw [UnpackedFloat.isNaN_iff.mp missing, if_neg other] at packed
  exact other (packed ▸ isNaNBits_packedNaN)

theorem exponent_ne_top {n : Nat} (bound : n + 1 < 2048) : BitVec.ofNat 11 n ≠ -1#11 := by
  intro same
  have digits := congrArg BitVec.toNat same
  simp only [BitVec.toNat_ofNat] at digits
  change n % 2048 = 2047 at digits
  omega

theorem isNaN_unpack_pack (number : a.isNaN = false) :
    (Float.Model.pack a).unpack.isNaN = false := by
  by_contra missing
  have bits := isNaNBits_of_unpack (eq_true_of_ne_false missing)
  obtain ⟨top, payload⟩ := of_decide_eq_true bits
  simp only [Float.Model.pack] at top payload
  cases a with
  | notANumber => cases number
  | infinity s => simp [UnpackedFloat.pack, packedInfinity] at payload
  | zero s => simp [UnpackedFloat.pack, packedZero] at payload
  | finite s m e pos =>
    unfold UnpackedFloat.pack at top payload
    dsimp only at top payload
    split at payload
    · simp [packedInfinity] at payload
    · next small =>
      rw [if_neg small] at top
      split at top
      · simp only [unpackExponent_packComponents] at top
        exact exponent_ne_top (by omega) top
      · simp only [unpackExponent_packComponents] at top
        cases top

section Distance

variable {x y : Float}

theorem beq_iff : (x == y) = true ↔ x.toModel.unpack.compare y.toModel.unpack = some .eq := by
  change (x.toModel.unpack.compare y.toModel.unpack == some .eq) = true ↔ _
  exact beq_iff_eq

theorem lt_iff : x < y ↔ x.toModel.unpack.compare y.toModel.unpack = some .lt := by
  change decide (x.toModel < y.toModel) = true ↔ _
  rw [decide_eq_true_eq]
  exact beq_iff_eq

theorem le_iff : x ≤ y ↔ x.toModel.unpack.compare y.toModel.unpack = some .lt ∨
    x.toModel.unpack.compare y.toModel.unpack = some .eq := by
  change decide (x.toModel ≤ y.toModel) = true ↔ _
  rw [decide_eq_true_eq]
  change (x.toModel.unpack.compare y.toModel.unpack).any (·.isLE) = true ↔ _
  cases x.toModel.unpack.compare y.toModel.unpack with
  | none => simp
  | some order => cases order <;> simp

theorem not_lt_of_le (atMost : x ≤ y) : ¬ y < x := by
  rw [lt_iff, compare_swap]
  rcases le_iff.mp atMost with less | equal
  · simp [less]
  · simp [equal]

theorem le_or_lt (left : x.isNaN = false) (right : y.isNaN = false) : x ≤ y ∨ y < x := by
  obtain ⟨order, compared⟩ := Option.isSome_iff_exists.mp (compare_isSome left right)
  rw [le_iff, lt_iff, compare_swap x.toModel.unpack, compared]
  cases order <;> simp

theorem isNaN_abs_sub (left : x.isNaN = false) (right : y.isNaN = false)
    (differ : (x == y) = false) : (x - y).abs.isNaN = false := by
  have unequal : x.toModel.unpack.compare y.toModel.unpack ≠ some .eq := by
    simp [← beq_iff, differ]
  have difference : (x - y).toModel.unpack.isNaN = false :=
    isNaN_unpack_pack (isNaN_sub _ left right unequal)
  exact isNaN_unpack_pack ((isNaN_abs _).trans difference)

theorem sub_eq_of_parts {parts : UnpackedFloat}
    (difference : UnpackedFloat.sub .binary64 x.toModel.unpack y.toModel.unpack = parts) :
    x - y = .ofModel (.pack parts) := by
  subst difference
  rfl

theorem abs_zero_lt_epsilon (s : Sign) :
    (Float.ofModel (Float.Model.pack (.zero s))).abs < epsilon := by
  cases s <;> decide

/-- Equal finite numbers have the distance zero. Equal infinities have none, and what is none is
    on neither side of anything. -/
theorem abs_sub_of_equal (equal : (x == y) = true) :
    x.isFinite = true ∧ (x - y).abs < epsilon ∨
      x.isFinite = false ∧ ¬ (x - y).abs < epsilon ∧ ¬ epsilon ≤ (x - y).abs := by
  rcases sub_of_equal .binary64 (beq_iff.mp equal) with ⟨finite, s, zero⟩ | ⟨infinite, none⟩
  · rw [sub_eq_of_parts zero]
    exact .inl ⟨finite, abs_zero_lt_epsilon s⟩
  · rw [sub_eq_of_parts none]
    exact .inr ⟨infinite, by decide, by decide⟩

end Distance

end TypedLet.Floats
