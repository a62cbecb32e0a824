import TypedLet.Decimal.Binary64

/-
A number and its class determine each other. A finite number is its sign, its significand
and its exponent; there are two infinities, and only one that is no number.
-/
namespace TypedLet.Decimal

/-- A magnitude as a number has it: with 53 digits, or with the smallest exponent. -/
structure Binary.Normal (b : Binary) : Prop where
  digits : b.significand < 9007199254740992
  least : -1074 ≤ b.exponent
  most : b.exponent ≤ 971
  leading : b.exponent ≠ -1074 → 4503599627370496 ≤ b.significand
  close : b.closeBelow = true ↔ b.significand = 4503599627370496 ∧ b.exponent ≠ -1074

def Binary.code (b : Binary) : Nat :=
  if b.significand < 4503599627370496 then b.significand
  else (b.exponent + 1075).toNat * 4503599627370496 + (b.significand - 4503599627370496)

theorem Binary.Normal.eq {b b' : Binary} (normal : b.Normal) (normal' : b'.Normal)
    (digits : b.significand = b'.significand) (exponent : b.exponent = b'.exponent) : b = b' := by
  have close := normal.close.trans (digits ▸ exponent ▸ normal'.close.symm)
  obtain ⟨m, q, c⟩ := b
  obtain ⟨m', q', c'⟩ := b'
  obtain rfl : m = m' := digits
  obtain rfl : q = q' := exponent
  obtain rfl : c = c' := Bool.eq_iff_iff.mpr close
  rfl

def signBit (negative : Bool) : Nat := if negative then 9223372036854775808 else 0

def Class.Spells (bits : Nat) : Class → Prop
  | .finite negative b => b.Normal ∧ bits = signBit negative + b.code
  | .infinite negative => bits = signBit negative + 2047 * 4503599627370496
  | .notANumber => bits / 4503599627370496 % 2048 = 2047 ∧ bits % 4503599627370496 ≠ 0

theorem bits_parts {bits : Nat} (bound : bits < 18446744073709551616) :
    bits = signBit (decide (bits / 9223372036854775808 = 1)) +
      bits / 4503599627370496 % 2048 * 4503599627370496 + bits % 4503599627370496 := by
  unfold signBit
  by_cases sign : bits / 9223372036854775808 = 1
  · rw [if_pos (decide_eq_true sign)]
    omega
  · rw [if_neg (by simpa using sign)]
    omega

theorem spells_classify (x : Float) : (classify x).Spells x.toBits.toNat := by
  have bound : x.toBits.toNat < 18446744073709551616 := UInt64.toNat_lt _
  have pow_63 : Nat.pow 2 63 = 9223372036854775808 := rfl
  have pow_52 : Nat.pow 2 52 = 4503599627370496 := rfl
  have pow_11 : Nat.pow 2 11 = 2048 := rfl
  unfold classify
  rw [pow_63, pow_52, pow_11]
  generalize x.toBits.toNat = bits at bound ⊢
  have parts := bits_parts bound
  dsimp only
  -- From here on the number is its sign, its exponent and its fraction.
  generalize decide (bits / 9223372036854775808 = 1) = negative at parts ⊢
  generalize top : bits / 4503599627370496 % 2048 = biased at parts ⊢
  generalize low : bits % 4503599627370496 = fraction at parts ⊢
  have fewer : biased < 2048 := top ▸ Nat.mod_lt _ (by decide)
  have less : fraction < 4503599627370496 := low ▸ Nat.mod_lt _ (by decide)
  split
  · rename_i special
    split
    · rename_i whole
      rw [parts, special, whole]
      rfl
    · rename_i payload
      exact ⟨top.trans special, low ▸ payload⟩
  · rename_i finite
    split
    -- Below the normal numbers the exponent stays and the leading bit is missing.
    · rename_i small
      refine ⟨⟨?_, ?_, ?_, ?_, ?_⟩, ?_⟩
      · dsimp only; omega
      · dsimp only; omega
      · dsimp only; omega
      · exact fun other => absurd rfl other
      · simp
      · rw [Binary.code, if_pos less, parts, small]
        dsimp only
        omega
    · rename_i normal
      refine ⟨⟨?_, ?_, ?_, ?_, ?_⟩, ?_⟩
      · dsimp only; omega
      · dsimp only; omega
      · dsimp only; omega
      · dsimp only; omega
      · simp only [Bool.and_eq_true, decide_eq_true_eq]
        omega
      · have code : ((biased : Int) - 1075 + 1075).toNat = biased := by omega
        rw [Binary.code, if_neg (by dsimp only; omega), code, parts]
        dsimp only
        omega

open Float.Model in
theorem bits_of_notANumber {x : Float} (is : classify x = .notANumber) :
    x.toBits.toBitVec = UnpackedFloat.packedNaN Format.binary64 := by
  have spelled := spells_classify x
  rw [is] at spelled
  obtain ⟨top, low⟩ := spelled
  apply x.toModel.valid.eq_packedNaN
  · apply BitVec.eq_of_toNat_eq
    simp only [UnpackedFloat.unpackExponent, BitVec.toNat_cast, BitVec.extractLsb_toNat,
      Nat.shiftRight_eq_div_pow]
    exact top
  · intro zero
    apply low
    have fraction := congrArg BitVec.toNat zero
    simp only [UnpackedFloat.unpackMantissa, BitVec.toNat_cast, BitVec.extractLsb_toNat,
      Nat.shiftRight_zero] at fraction
    exact fraction

theorem eq_of_toBits {x y : Float} (same : x.toBits = y.toBits) : x = y := by
  obtain ⟨⟨bits, valid⟩⟩ := x
  obtain ⟨⟨bits', valid'⟩⟩ := y
  obtain rfl : bits = bits' := same
  rfl

theorem classify_injective {x y : Float} (same : classify x = classify y) : x = y := by
  apply eq_of_toBits
  have here := spells_classify x
  have there := spells_classify y
  cases is : classify y with
  | finite negative b =>
    rw [same.trans is] at here
    rw [is] at there
    exact UInt64.toNat_inj.mp (here.2.trans there.2.symm)
  | infinite negative =>
    rw [same.trans is] at here
    rw [is] at there
    exact UInt64.toNat_inj.mp (Eq.trans here there.symm)
  | notANumber =>
    apply UInt64.toBitVec_inj.mp
    rw [bits_of_notANumber (same.trans is), bits_of_notANumber is]

end TypedLet.Decimal
