import Mathlib.Tactic.Ring
import TypedLet.Decimal.Shortest
import TypedLet.Proofs.Decimal.Binary

/-
A decimal that reads back reads back as one number only. The intervals of two numbers have
at most an end in common, and then it belongs to one of them only, since of two
neighbours one has an odd significand. The shortest decimal of a number with a fraction lies
in its interval, and has a fraction itself: a whole number that close would be the number.
-/
namespace TypedLet.Decimal

namespace Binary

def deepest : Nat := 1074

/-- A whole one in quarters of the smallest number. -/
def quarters : Nat := 4 * 2 ^ deepest

def scale (b : Binary) : Nat := (b.exponent + deepest).toNat

def reach (b : Binary) : Nat := if b.closeBelow then 1 else 2

def low (b : Binary) : Nat := (4 * b.significand - b.reach) * 2 ^ b.scale

def middle (b : Binary) : Nat := 4 * b.significand * 2 ^ b.scale

def high (b : Binary) : Nat := (4 * b.significand + 2) * 2 ^ b.scale

def Below (b b' : Binary) : Prop :=
  b.exponent < b'.exponent ∨ b.exponent = b'.exponent ∧ b.significand < b'.significand

theorem low_le_middle (b : Binary) : b.low ≤ b.middle :=
  Nat.mul_le_mul_right _ (Nat.sub_le _ _)

theorem middle_lt_high (b : Binary) : b.middle < b.high :=
  Nat.mul_lt_mul_of_pos_right (by omega) (Nat.two_pow_pos _)

variable {b b' : Binary}

theorem Normal.eq_or_below (normal : b.Normal) (normal' : b'.Normal) :
    b = b' ∨ b.Below b' ∨ b'.Below b := by
  unfold Below
  by_cases exponent : b.exponent = b'.exponent
  · by_cases digits : b.significand = b'.significand
    · exact .inl (normal.eq normal' digits exponent)
    · omega
  · omega

/-- In the unit of the smaller number: the larger one starts where the smaller one ends, or
    above, and if it starts right there one of the two is odd. -/
theorem ends_apart (normal : b.Normal) (normal' : b'.Normal) (below : b.Below b') :
    ∃ k, 0 < k ∧ 2 ^ b'.scale = k * 2 ^ b.scale ∧
      4 * b.significand + 2 ≤ (4 * b'.significand - b'.reach) * k ∧
      (4 * b.significand + 2 = (4 * b'.significand - b'.reach) * k →
        b.significand % 2 = 0 → b'.significand % 2 = 1) := by
  have bounds := normal.least
  have most := normal.digits
  have close := normal'.close
  unfold reach
  rcases below with exponent | ⟨exponent, digits⟩
  -- The larger exponent makes the unit at least twice as large.
  · have leading := normal'.leading (by omega)
    obtain ⟨d, step⟩ : ∃ d, b'.scale = d + 1 + b.scale :=
      ⟨b'.scale - b.scale - 1, by unfold scale deepest; omega⟩
    refine ⟨2 ^ (d + 1), Nat.two_pow_pos _, by rw [step, Nat.pow_add], ?_⟩
    have twice : 2 ≤ 2 ^ (d + 1) := by
      have := Nat.two_pow_pos d
      rw [Nat.pow_succ]
      omega
    have grow := fun n : Nat => Nat.mul_le_mul_left n twice
    cases flag : b'.closeBelow with
    | true =>
      have first := (close.mp flag).1
      have := grow (4 * b'.significand - 1)
      simp only [if_true]
      omega
    | false =>
      have other : b'.significand ≠ 4503599627370496 := fun first =>
        nomatch flag.symm.trans (close.mpr ⟨first, by omega⟩)
      have := grow (4 * b'.significand - 2)
      simp only [Bool.false_eq_true, if_false]
      omega
  -- With one exponent the numbers differ by one in the last place, at least.
  · refine ⟨1, Nat.one_pos, by unfold scale; rw [exponent, Nat.one_mul], ?_⟩
    cases flag : b'.closeBelow with
    | true => simp only [if_true]; omega
    | false => simp only [Bool.false_eq_true, if_false]; omega

/-- The intervals do not overlap, and an end that they have in common does not belong to
    both. -/
theorem high_le_low (normal : b.Normal) (normal' : b'.Normal) (below : b.Below b') :
    b.high ≤ b'.low ∧ (b.high = b'.low → b.significand % 2 = 0 → b'.significand % 2 = 1) := by
  obtain ⟨k, pos, power, apart, odd⟩ := ends_apart normal normal' below
  have start : b'.low = (4 * b'.significand - b'.reach) * k * 2 ^ b.scale := by
    rw [low, power, Nat.mul_assoc]
  rw [start, high]
  exact ⟨Nat.mul_le_mul_right _ apart,
    fun same => odd (Nat.eq_of_mul_eq_mul_right (Nat.two_pow_pos _) same)⟩

theorem eq_of_middle (normal : b.Normal) (normal' : b'.Normal) (same : b.middle = b'.middle) :
    b = b' := by
  have less : ∀ {c c' : Binary}, c.Normal → c'.Normal → c.Below c' → c.middle < c'.middle :=
    fun first second below =>
      (middle_lt_high _).trans_le ((high_le_low first second below).1.trans (low_le_middle _))
  rcases normal.eq_or_below normal' with equal | below | above
  · exact equal
  · exact absurd same (less normal normal' below).ne
  · exact absurd same.symm (less normal' normal above).ne

structure Reads (b : Binary) (n f : Nat) : Prop where
  above : b.low * 10 ^ f ≤ n * quarters
  under : n * quarters ≤ b.high * 10 ^ f
  even : b.low * 10 ^ f = n * quarters ∨ n * quarters = b.high * 10 ^ f →
    b.significand % 2 = 0

theorem not_below_of_reads {n f : Nat} (normal : b.Normal) (normal' : b'.Normal)
    (reads : b.Reads n f) (reads' : b'.Reads n f) : ¬ b.Below b' := by
  intro below
  obtain ⟨apart, odd⟩ := high_le_low normal normal' below
  have order := Nat.mul_le_mul_right (10 ^ f) apart
  have under := reads.under
  have above := reads'.above
  have meet : b.high = b'.low :=
    Nat.eq_of_mul_eq_mul_right (Nat.pow_pos (by decide) : 0 < 10 ^ f) (by omega)
  have even := reads.even (.inr (by omega))
  have even' := reads'.even (.inl (by omega))
  have := odd meet even
  omega

theorem eq_of_reads {n f : Nat} (normal : b.Normal) (normal' : b'.Normal) (reads : b.Reads n f)
    (reads' : b'.Reads n f) : b = b' := by
  rcases normal.eq_or_below normal' with equal | below | above
  · exact equal
  · exact absurd below (not_below_of_reads normal normal' reads reads')
  · exact absurd above (not_below_of_reads normal' normal reads' reads)

end Binary

namespace Interval

def step (i : Interval) (k : Int) : Nat := i.denominator * 10 ^ k.toNat

def inUnit (i : Interval) (k : Int) : Interval :=
  { i with
    low := i.low * 10 ^ (-k).toNat
    value := i.value * 10 ^ (-k).toNat
    high := i.high * 10 ^ (-k).toNat }

variable {i : Interval} {k top : Int} {n tries : Nat}

theorem holds_iff : i.holds n = true ↔
    i.low ≤ n ∧ n ≤ i.high ∧ (i.low = n ∨ n = i.high → i.closed = true) := by
  unfold holds
  cases i.closed with
  | true => simp
  | false => simp; omega

theorem holds_of_onGrid (hit : i.onGrid k = some n) : (i.inUnit k).holds (n * i.step k) = true := by
  unfold onGrid at hit
  dsimp only at hit
  split at hit
  · rename_i below _
    cases hit
    exact below
  · rename_i _ above
    cases hit
    exact above
  · rename_i below above
    split at hit
    · cases hit
      exact below
    · split at hit
      · cases hit
        exact above
      · split at hit
        · cases hit
          exact below
        · cases hit
          exact above
  · cases hit

/-- The neighbour below is not overlooked. -/
theorem onGrid_isSome
    (below : (i.inUnit k).holds ((i.inUnit k).value / i.step k * i.step k) = true) :
    (i.onGrid k).isSome = true := by
  unfold onGrid
  dsimp only
  split
  · rfl
  · rfl
  · split
    · rfl
    · split
      · rfl
      · split <;> rfl
  · rename_i miss _
    exact nomatch miss.symm.trans below

theorem onGrid_of_coarsest {d : Scientific} (found : i.coarsest top tries = some d) :
    i.onGrid d.exponent = some d.digits := by
  induction tries generalizing top with
  | zero => cases found
  | succ tries ih =>
    rw [coarsest] at found
    split at found
    · rename_i digits hit
      cases found
      exact hit
    · exact ih found

theorem coarsest_isSome (hit : (i.onGrid k).isSome = true) (le : k ≤ top)
    (near : top < k + tries) : (i.coarsest top tries).isSome = true := by
  induction tries generalizing top with
  | zero => omega
  | succ tries ih =>
    rw [coarsest]
    split
    · rfl
    · rename_i miss
      have other : k ≠ top := by
        rintro rfl
        rw [miss] at hit
        cases hit
      exact ih (by omega) (by omega)

end Interval

namespace Binary

variable {b b' : Binary}

theorem below_one_of_not_integral (fraction : b.isIntegral = false) :
    b.exponent < 0 ∧ b.significand % 2 ^ (-b.exponent).toNat ≠ 0 := by
  simpa [isIntegral] using fraction

theorem interval_of_neg (small : b.exponent < 0) : b.interval =
    ⟨4 * b.significand - b.reach, 4 * b.significand, 4 * b.significand + 2,
      4 * 2 ^ (-b.exponent).toNat, b.significand % 2 = 0⟩ := by
  have flat : b.exponent.toNat = 0 := by omega
  simp [interval, reach, flat]

theorem exponent_neg_of_onGrid {k : Int} {n : Nat} (fraction : b.isIntegral = false)
    (hit : b.interval.onGrid k = some n) : k < 0 := by
  obtain ⟨small, rest⟩ := below_one_of_not_integral fraction
  by_contra large
  have whole : (-k).toNat = 0 := by omega
  have holds := Interval.holds_iff.mp (Interval.holds_of_onGrid hit)
  rw [interval_of_neg small] at holds
  simp only [Interval.inUnit, Interval.step, whole, Nat.pow_zero, Nat.mul_one] at holds
  obtain ⟨above, under, _⟩ := holds
  have reach : b.reach ≤ 2 := by unfold reach; split <;> decide
  have product : n * (4 * 2 ^ (-b.exponent).toNat * 10 ^ k.toNat) =
      4 * (2 ^ (-b.exponent).toNat * (n * 10 ^ k.toNat)) := by ring
  rw [product] at above under
  apply rest
  have same : b.significand = 2 ^ (-b.exponent).toNat * (n * 10 ^ k.toNat) := by omega
  rw [same, Nat.mul_mod_right]

theorem quarters_of_neg (normal : b.Normal) (small : b.exponent < 0) :
    quarters = 4 * 2 ^ (-b.exponent).toNat * 2 ^ b.scale := by
  have least := normal.least
  have sum : (-b.exponent).toNat + b.scale = deepest := by unfold scale deepest; omega
  rw [Nat.mul_assoc, ← Nat.pow_add, sum, quarters]

theorem reads_of_onGrid {f n : Nat} (normal : b.Normal) (small : b.exponent < 0)
    (hit : b.interval.onGrid (-f) = some n) : b.Reads n f := by
  have holds := Interval.holds_iff.mp (Interval.holds_of_onGrid hit)
  have whole : (-(f : Int)).toNat = 0 := by omega
  have digits : (- -(f : Int)).toNat = f := by omega
  rw [interval_of_neg small] at holds
  simp only [Interval.inUnit, Interval.step, whole, digits, Nat.pow_zero, Nat.mul_one,
    decide_eq_true_eq] at holds
  obtain ⟨above, under, ends⟩ := holds
  have pos : 0 < 2 ^ b.scale := Nat.two_pow_pos _
  have point : n * quarters = n * (4 * 2 ^ (-b.exponent).toNat) * 2 ^ b.scale := by
    rw [quarters_of_neg normal small, Nat.mul_assoc n]
  have low : b.low * 10 ^ f = (4 * b.significand - b.reach) * 10 ^ f * 2 ^ b.scale := by
    rw [Binary.low]
    ring
  have high : b.high * 10 ^ f = (4 * b.significand + 2) * 10 ^ f * 2 ^ b.scale := by
    rw [Binary.high]
    ring
  refine ⟨?_, ?_, ?_⟩ <;> rw [point]
  · rw [low]
    exact Nat.mul_le_mul_right _ above
  · rw [high]
    exact Nat.mul_le_mul_right _ under
  rw [low, high]
  rintro (start | stop)
  · exact ends (.inl (Nat.eq_of_mul_eq_mul_right pos start))
  · exact ends (.inr (Nat.eq_of_mul_eq_mul_right pos stop))

theorem two_pow_le {n m : Nat} (le : n ≤ 3 * m) : 2 ^ n ≤ 10 ^ m :=
  calc
    2 ^ n ≤ 2 ^ (3 * m) := Nat.pow_le_pow_right (by decide) le
    _ = 8 ^ m := Nat.pow_mul 2 3 m
    _ ≤ 10 ^ m := Nat.pow_le_pow_left (by decide) m

theorem quarters_le : quarters ≤ 10 ^ 636 :=
  calc
    quarters = 2 ^ (2 + deepest) := by rw [quarters, Nat.pow_add]
    _ ≤ 10 ^ 636 := two_pow_le (by decide)

/-- On a fine enough grid every number has a neighbour that reads back. -/
theorem onGrid_finest (normal : b.Normal) (fraction : b.isIntegral = false) :
    (b.interval.onGrid (-636)).isSome = true := by
  obtain ⟨small, rest⟩ := below_one_of_not_integral fraction
  have least := normal.least
  apply Interval.onGrid_isSome
  rw [Interval.holds_iff, interval_of_neg small]
  have finest : (- -636 : Int).toNat = 636 := rfl
  have whole : (-636 : Int).toNat = 0 := rfl
  simp only [Interval.inUnit, Interval.step, finest, whole, Nat.pow_zero, Nat.mul_one]
  generalize steps : 4 * 2 ^ (-b.exponent).toNat = den
  generalize power : 10 ^ 636 = scale
  -- The interval reaches down by a step of the grid, at least.
  have fine : den ≤ scale := by
    rw [← steps, ← power]
    apply Nat.le_trans _ quarters_le
    rw [quarters_of_neg normal small]
    exact Nat.le_mul_of_pos_right _ (Nat.two_pow_pos _)
  have positive : 0 < den := by
    rw [← steps]
    have := Nat.two_pow_pos (-b.exponent).toNat
    omega
  have gap := Nat.mod_lt (4 * b.significand * scale) positive
  have parts := Nat.div_add_mod (4 * b.significand * scale) den
  rw [Nat.mul_comm den] at parts
  have nonzero : b.significand ≠ 0 := by
    intro zero
    rw [zero, Nat.zero_mod] at rest
    exact rest rfl
  have reach : 1 ≤ b.reach := by unfold Binary.reach; split <;> decide
  have under : (4 * b.significand - b.reach) * scale + scale ≤ 4 * b.significand * scale := by
    rw [← Nat.succ_mul]
    exact Nat.mul_le_mul_right _ (by omega)
  have above : 4 * b.significand * scale + 2 * scale = (4 * b.significand + 2) * scale :=
    (Nat.add_mul ..).symm
  omega

theorem reads_shortest (normal : b.Normal) (fraction : b.isIntegral = false) :
    ∃ f : Nat, 0 < f ∧ b.shortest.exponent = -f ∧ b.Reads b.shortest.digits f := by
  have small := (below_one_of_not_integral fraction).1
  have found : (b.interval.coarsest 16 653).isSome = true :=
    Interval.coarsest_isSome (onGrid_finest normal fraction) (by omega) (by omega)
  obtain ⟨d, is⟩ := Option.isSome_iff_exists.mp found
  have shortest : b.shortest = d := by
    simp only [Binary.shortest, if_pos small, is, Option.getD_some]
  have hit := Interval.onGrid_of_coarsest is
  have negative := exponent_neg_of_onGrid fraction hit
  obtain ⟨f, exponent⟩ : ∃ f : Nat, d.exponent = -f := ⟨d.exponent.natAbs, by omega⟩
  rw [shortest]
  rw [exponent] at hit negative
  exact ⟨f, by omega, exponent, reads_of_onGrid normal small hit⟩

theorem shortest_injective (normal : b.Normal) (normal' : b'.Normal)
    (fraction : b.isIntegral = false) (fraction' : b'.isIntegral = false)
    (same : b.shortest = b'.shortest) : b = b' := by
  obtain ⟨f, _, exponent, reads⟩ := reads_shortest normal fraction
  obtain ⟨f', _, exponent', reads'⟩ := reads_shortest normal' fraction'
  obtain rfl : f = f' := by
    rw [same, exponent'] at exponent
    omega
  rw [same] at reads
  exact eq_of_reads normal normal' reads reads'

theorem middle_of_integral (normal : b.Normal) (whole : b.isIntegral = true) :
    b.middle = b.truncated * quarters := by
  have least := normal.least
  unfold middle truncated
  by_cases large : 0 ≤ b.exponent
  · have power : b.scale = b.exponent.toNat + deepest := by unfold scale; omega
    rw [if_pos large, power, Nat.pow_add, quarters, Nat.pow_eq]
    generalize 2 ^ deepest = whole
    ring
  · have flat : b.significand % 2 ^ (-b.exponent).toNat = 0 := by
      simpa [isIntegral, large] using whole
    have parts := Nat.div_mul_cancel (Nat.dvd_of_mod_eq_zero flat)
    rw [if_neg large, quarters_of_neg normal (by omega), Nat.pow_eq, ← Nat.mul_assoc]
    congr 1
    rw [Nat.mul_left_comm, parts]

theorem truncated_injective (normal : b.Normal) (normal' : b'.Normal)
    (whole : b.isIntegral = true) (whole' : b'.isIntegral = true)
    (same : b.truncated = b'.truncated) : b = b' := by
  apply eq_of_middle normal normal'
  rw [middle_of_integral normal whole, middle_of_integral normal' whole', same]

end Binary

end TypedLet.Decimal
