import TypedLet.Decimal.Text
import TypedLet.Proofs.Decimal.Shortest

/-
The text of a number says which number it is. Behind the sign it starts with a digit. A
whole number ends in its point, any other in a digit, and the latter gives the shortest
decimal back: its digits are those of the text, and its exponent is how many of them stand
behind the point, and what stands behind the `e`. Only the two zeros have one text.
-/
namespace TypedLet.Decimal

def Digits (cs : List Char) : Prop := ∀ c ∈ cs, c.isDigit = true

def number (cs : List Char) : Nat := Nat.ofDigitChars 10 (cs.filter Char.isDigit) 0

theorem digits_toDigits (n : Nat) : Digits (Nat.toDigits 10 n) :=
  fun _ => Nat.isDigit_of_mem_toDigits (by decide) (by decide)

theorem Digits.filter {cs : List Char} (digits : Digits cs) : cs.filter Char.isDigit = cs :=
  List.filter_eq_self.mpr digits

theorem number_toDigits (n : Nat) : number (Nat.toDigits 10 n) = n := by
  rw [number, (digits_toDigits n).filter, Nat.ofDigitChars_ten_toDigits]

theorem digits_zeros (k : Nat) : Digits (List.replicate k '0') := by
  intro c member
  rw [List.eq_of_mem_replicate member]
  rfl

theorem number_zeros (k : Nat) (cs : List Char) :
    number (List.replicate k '0' ++ cs) = number cs := by
  rw [number, List.filter_append, (digits_zeros k).filter, Nat.ofDigitChars_append,
    Nat.ofDigitChars_replicate_zero, Nat.mul_zero, number]

theorem toList_toString (n : Nat) : (toString n).toList = Nat.toDigits 10 n := Nat.toList_repr

def behind (mark digits : List Char) : List Char := if digits = [] then [] else mark ++ digits

theorem behind_of_ne {digits : List Char} (some : digits ≠ []) (mark : List Char) :
    behind mark digits = mark ++ digits := if_neg some

/-- Digits before a point, behind it, and behind `e-`. What is empty is left out, with its
    mark. -/
def numeral (whole fraction power : List Char) : List Char :=
  whole ++ behind ['.'] fraction ++ behind ['e', '-'] power

structure Numeral (whole fraction power : List Char) : Prop where
  starts : whole ≠ []
  whole : Digits whole
  fraction : Digits fraction
  power : Digits power

def readNumeral (cs : List Char) : Scientific :=
  let mantissa := cs.takeWhile (· ≠ 'e')
  let places := ((mantissa.dropWhile (· ≠ '.')).drop 1).length
  ⟨number mantissa, -((places + number (cs.dropWhile (· ≠ 'e')) : Nat) : Int)⟩

theorem Digits.ne {cs : List Char} (digits : Digits cs) {mark : Char}
    (other : mark.isDigit = false) : ∀ c ∈ cs, decide (c ≠ mark) = true := by
  intro c member
  apply decide_eq_true
  rintro rfl
  exact nomatch other.symm.trans (digits c member)

theorem Digits.append {cs ds : List Char} (first : Digits cs) (next : Digits ds) :
    Digits (cs ++ ds) := fun c member => (List.mem_append.mp member).elim (first c) (next c)

section

variable {whole fraction power : List Char}

theorem dropWhile_behind {p : Char → Bool} {mark : Char} (stop : p mark = false)
    (more digits : List Char) :
    (behind (mark :: more) digits).dropWhile p = behind (mark :: more) digits := by
  unfold behind
  split <;> simp [stop]

theorem takeWhile_behind {p : Char → Bool} {mark : Char} (stop : p mark = false)
    (more digits : List Char) : (behind (mark :: more) digits).takeWhile p = [] := by
  unfold behind
  split <;> simp [stop]

theorem number_behind (before : List Char) {mark : List Char}
    (skipped : mark.filter Char.isDigit = []) (digits : List Char) :
    number (before ++ behind mark digits) = number (before ++ digits) := by
  unfold behind
  split
  · rename_i empty
    rw [empty]
  · simp [number, skipped]

theorem readNumeral_numeral (is : Numeral whole fraction power) :
    readNumeral (numeral whole fraction power) =
      ⟨number (whole ++ fraction), -((fraction.length + number power : Nat) : Int)⟩ := by
  have mantissa : ∀ c ∈ whole ++ behind ['.'] fraction, decide (c ≠ 'e') = true := by
    intro c member
    rcases List.mem_append.mp member with digit | after
    · exact is.whole.ne rfl c digit
    · unfold behind at after
      split at after
      · cases after
      · rcases List.mem_cons.mp after with rfl | digit
        · rfl
        · exact is.fraction.ne rfl c digit
  have first : (numeral whole fraction power).takeWhile (· ≠ 'e') =
      whole ++ behind ['.'] fraction := by
    rw [numeral, List.takeWhile_append_of_pos mantissa, takeWhile_behind rfl, List.append_nil]
  have second : number ((numeral whole fraction power).dropWhile (· ≠ 'e')) = number power := by
    rw [numeral, List.dropWhile_append_of_pos mantissa, dropWhile_behind rfl]
    exact number_behind [] rfl power
  have places : ((whole ++ behind ['.'] fraction).dropWhile (· ≠ '.')).drop 1 = fraction := by
    rw [List.dropWhile_append_of_pos (is.whole.ne rfl), dropWhile_behind rfl]
    unfold behind
    split
    · rename_i empty
      rw [empty]
      rfl
    · rfl
  have digits : number (whole ++ behind ['.'] fraction) = number (whole ++ fraction) :=
    number_behind whole rfl fraction
  simp only [readNumeral, first, second, places, digits]

end

theorem exponentText_spec (n : Nat) : Digits (exponentText n).toList ∧
    (exponentText n).toList ≠ [] ∧ number (exponentText n).toList = n := by
  unfold exponentText
  split
  · have zero : ("0" ++ toString n).toList = List.replicate 1 '0' ++ Nat.toDigits 10 n := by
      rw [String.toList_append, toList_toString]
      rfl
    rw [zero]
    exact ⟨(digits_zeros 1).append (digits_toDigits n), by simp,
      by rw [number_zeros, number_toDigits]⟩
  · rw [toList_toString]
    exact ⟨digits_toDigits n, Nat.toDigits_ne_nil, number_toDigits n⟩

theorem text_eq_numeral {d : Scientific} (negative : d.exponent < 0) :
    ∃ whole fraction power, Numeral whole fraction power ∧ (fraction ≠ [] ∨ power ≠ []) ∧
      d.text.toList = numeral whole fraction power ∧ number (whole ++ fraction) = d.digits ∧
      ((fraction.length + number power : Nat) : Int) = -d.exponent := by
  have all := digits_toDigits d.digits
  have value := number_toDigits d.digits
  have positive : 0 < (Nat.toDigits 10 d.digits).length :=
    List.length_pos_iff.mpr Nat.toDigits_ne_nil
  unfold Scientific.text
  rw [toList_toString]
  generalize Nat.toDigits 10 d.digits = digits at all value positive
  dsimp only
  split
  -- A small number shows its digits behind the first one, and a power.
  · rename_i small
    generalize leading : (-((digits.length : Int) - 1 + d.exponent)).toNat = n
    obtain ⟨power, some, valued⟩ := exponentText_spec n
    refine ⟨digits.take 1, digits.drop 1, _, ⟨?_, ?_, ?_, power⟩, .inr some, ?_, ?_, ?_⟩
    · exact List.length_pos_iff.mp (by rw [List.length_take]; omega)
    · exact fun c member => all c (List.mem_of_mem_take member)
    · exact fun c member => all c (List.mem_of_mem_drop member)
    · rw [numeral, behind_of_ne some, behind, String.toList_append, String.toList_append,
        String.toList_ofList, List.append_assoc]
      simp only [List.isEmpty_iff]
      rfl
    · rw [List.take_append_drop, value]
    · rw [valued, List.length_drop]
      omega
  -- Any other number is filled up with zeros until a digit stands before the point.
  · generalize zeros : (-d.exponent).toNat + 1 - digits.length = k
    have padded : Digits (List.replicate k '0' ++ digits) := (digits_zeros k).append all
    have long : (List.replicate k '0' ++ digits).length = k + digits.length := by simp
    have same : number (List.replicate k '0' ++ digits) = d.digits := by rw [number_zeros, value]
    generalize List.replicate k '0' ++ digits = padding at padded long same
    have some : padding.drop (padding.length - (-d.exponent).toNat) ≠ [] :=
      List.length_pos_iff.mp (by rw [List.length_drop]; omega)
    refine ⟨padding.take (padding.length - (-d.exponent).toNat), _, [], ⟨?_, ?_, ?_, ?_⟩,
      .inl some, ?_, ?_, ?_⟩
    · exact List.length_pos_iff.mp (by rw [List.length_take]; omega)
    · exact fun c member => padded c (List.mem_of_mem_take member)
    · exact fun c member => padded c (List.mem_of_mem_drop member)
    · exact fun c member => nomatch member
    · rw [String.toList_ofList, numeral, behind_of_ne some, behind, if_pos rfl, List.append_nil]
      rfl
    · rw [List.take_append_drop, same]
    · rw [List.length_drop]
      change (((_ + 0 : Nat)) : Int) = _
      omega

theorem readNumeral_text {d : Scientific} (negative : d.exponent < 0) :
    readNumeral d.text.toList = d := by
  obtain ⟨whole, fraction, power, is, _, text, digits, exponent⟩ := text_eq_numeral negative
  rw [text, readNumeral_numeral is, digits, exponent, Int.neg_neg]

def Binary.body (b : Binary) : List Char :=
  if b.isIntegral then Nat.toDigits 10 b.truncated ++ ['.'] else b.shortest.text.toList

structure LooksFloat (c : Char) (cs : List Char) : Prop where
  starts : c.isDigit = true
  inside : ∀ d ∈ cs, d.isDigit = true ∨ d = '.' ∨ d = 'e' ∨ d = '-'
  marked : '.' ∈ cs ∨ 'e' ∈ cs

theorem mem_behind {mark digits : List Char} {c : Char} (member : c ∈ behind mark digits) :
    c ∈ mark ∨ c ∈ digits := by
  unfold behind at member
  split at member
  · cases member
  · exact List.mem_append.mp member

theorem mem_mark_of_behind {mark digits : List Char} (some : digits ≠ []) {c : Char}
    (member : c ∈ mark) : c ∈ behind mark digits := by
  rw [behind_of_ne some]
  exact List.mem_append_left _ member

theorem looksFloat_numeral {whole fraction power : List Char} (is : Numeral whole fraction power)
    (marked : fraction ≠ [] ∨ power ≠ []) :
    ∃ c cs, numeral whole fraction power = c :: cs ∧ LooksFloat c cs := by
  obtain ⟨starts, digits, digits', digits''⟩ := is
  cases whole with
  | nil => exact absurd rfl starts
  | cons c rest =>
    refine ⟨c, rest ++ behind ['.'] fraction ++ behind ['e', '-'] power, rfl,
      digits c (List.mem_cons_self ..), ?_, ?_⟩
    · intro d member
      rcases List.mem_append.mp member with front | back
      · rcases List.mem_append.mp front with digit | after
        · exact .inl (digits d (List.mem_cons_of_mem _ digit))
        · rcases mem_behind after with mark | digit
          · exact .inr (.inl (List.mem_singleton.mp mark))
          · exact .inl (digits' d digit)
      · rcases mem_behind back with mark | digit
        · simp at mark
          rcases mark with rfl | rfl <;> simp
        · exact .inl (digits'' d digit)
    · rcases marked with some | some
      · have dot : '.' ∈ behind ['.'] fraction :=
          mem_mark_of_behind some (List.mem_singleton_self _)
        simp [dot]
      · have e : 'e' ∈ behind ['e', '-'] power := mem_mark_of_behind some (List.mem_cons_self ..)
        simp [e]

section

variable {b b' : Binary} {x y : Float}

theorem shortest_exponent_neg (normal : b.Normal) (fraction : b.isIntegral = false) :
    b.shortest.exponent < 0 := by
  obtain ⟨f, positive, exponent, _⟩ := b.reads_shortest normal fraction
  omega

theorem looksFloat_body (normal : b.Normal) : ∃ c cs, b.body = c :: cs ∧ LooksFloat c cs := by
  unfold Binary.body
  split
  · have digits := digits_toDigits b.truncated
    have some : Nat.toDigits 10 b.truncated ≠ [] := Nat.toDigits_ne_nil
    generalize Nat.toDigits 10 b.truncated = cs at digits some
    cases cs with
    | nil => exact absurd rfl some
    | cons c rest =>
      obtain ⟨first, others⟩ := List.forall_mem_cons.mp digits
      refine ⟨c, rest ++ ['.'], rfl, first, ?_, by simp⟩
      intro d member
      rcases List.mem_append.mp member with digit | mark
      · exact .inl (others d digit)
      · exact .inr (.inl (List.mem_singleton.mp mark))
  · rename_i fraction
    obtain ⟨whole, fraction, power, is, marked, text, _⟩ :=
      text_eq_numeral (shortest_exponent_neg normal (by simpa using fraction))
    rw [text]
    exact looksFloat_numeral is marked

theorem ends_in_digit {digits : List Char} (all : Digits digits) (some : digits ≠ [])
    (front before : List Char) : front ++ digits ≠ before ++ ['.'] := by
  intro same
  rcases List.eq_nil_or_concat digits with empty | ⟨init, d, rfl⟩
  · exact some empty
  · rw [List.concat_eq_append, ← List.append_assoc] at same
    cases List.append_inj_right' same rfl
    exact nomatch all '.' (by simp)

theorem numeral_ne_whole {whole fraction power : List Char} (is : Numeral whole fraction power)
    (marked : fraction ≠ [] ∨ power ≠ []) (before : List Char) :
    numeral whole fraction power ≠ before ++ ['.'] := by
  unfold numeral
  by_cases plain : power = []
  · have some : fraction ≠ [] := marked.resolve_right (absurd plain)
    rw [plain, behind_of_ne some, behind, if_pos rfl, List.append_nil, ← List.append_assoc]
    exact ends_in_digit is.fraction some _ _
  · rw [behind_of_ne plain, ← List.append_assoc]
    exact ends_in_digit is.power plain _ _

theorem text_ne_whole (normal : b.Normal) (fraction : b.isIntegral = false)
    (before : List Char) : b.shortest.text.toList ≠ before ++ ['.'] := by
  obtain ⟨_, _, _, is, marked, text, _⟩ := text_eq_numeral (shortest_exponent_neg normal fraction)
  rw [text]
  exact numeral_ne_whole is marked before

theorem body_injective (normal : b.Normal) (normal' : b'.Normal) (same : b.body = b'.body) :
    b = b' := by
  unfold Binary.body at same
  cases whole : b.isIntegral with
  | true =>
    cases whole' : b'.isIntegral with
    | true =>
      simp only [whole, whole', if_true] at same
      have digits := congrArg number (List.append_cancel_right same)
      rw [number_toDigits, number_toDigits] at digits
      exact Binary.truncated_injective normal normal' whole whole' digits
    | false =>
      simp only [whole, whole', if_true, Bool.false_eq_true, if_false] at same
      exact absurd same.symm (text_ne_whole normal' whole' _)
  | false =>
    cases whole' : b'.isIntegral with
    | true =>
      simp only [whole, whole', if_true, Bool.false_eq_true, if_false] at same
      exact absurd same (text_ne_whole normal whole _)
    | false =>
      simp only [whole, whole', Bool.false_eq_true, if_false] at same
      have decimal := congrArg readNumeral same
      rw [readNumeral_text (shortest_exponent_neg normal whole),
        readNumeral_text (shortest_exponent_neg normal' whole')] at decimal
      exact Binary.shortest_injective normal normal' whole whole' decimal

end

def minus (negative : Bool) : List Char := if negative then ['-'] else []

/-- What is behind the minus does not start with one, so that a text says where it is. -/
theorem minus_cancel {negative negative' : Bool} {c c' : Char} {cs cs' : List Char}
    (other : c ≠ '-') (other' : c' ≠ '-')
    (same : minus negative ++ c :: cs = minus negative' ++ c' :: cs') :
    negative = negative' ∧ c :: cs = c' :: cs' := by
  cases negative <;> cases negative' <;> simp [minus] at same
  · exact ⟨rfl, by rw [same.1, same.2]⟩
  · exact absurd same.1 other
  · exact absurd same.1.symm other'
  · exact ⟨rfl, by rw [same.1, same.2]⟩

namespace Class

def negative : Class → Bool
  | finite n _ | infinite n => n
  | notANumber => false

def body : Class → List Char
  | finite _ b => b.body
  | infinite _ => ['i', 'n', 'f']
  | notANumber => ['N', 'a', 'N']

end Class

def negativeZero : UInt64 := 0x8000000000000000

section

variable {x y : Float}

theorem normal_of_finite {negative : Bool} {b : Binary} (is : classify x = .finite negative b) :
    b.Normal := by
  have spelled := spells_classify x
  rw [is] at spelled
  exact spelled.1

/-- No minus is lost but that of the negative zero. -/
theorem truncated_pos {b : Binary} (other : x.toBits ≠ negativeZero)
    (is : classify x = .finite true b) (whole : b.isIntegral = true) : 0 < b.truncated := by
  have spelled := spells_classify x
  rw [is] at spelled
  obtain ⟨normal, bits⟩ := spelled
  have middle := Binary.middle_of_integral normal whole
  apply Nat.pos_of_ne_zero
  intro zero
  rw [zero, Nat.zero_mul, Binary.middle] at middle
  have digits : b.significand = 0 := by
    rcases Nat.mul_eq_zero.mp middle with flat | flat
    · omega
    · exact absurd flat (Nat.two_pow_pos _).ne'
  apply other
  apply UInt64.toNat_inj.mp
  rw [bits, Binary.code, digits]
  rfl

theorem toList_toString_int (n : Int) :
    (toString n).toList = minus (decide (n < 0)) ++ Nat.toDigits 10 n.natAbs := by
  change n.repr.toList = _
  rw [Int.repr_eq_if]
  by_cases negative : n < 0
  · have abs : (-n).toNat = n.natAbs := by omega
    rw [if_neg (by omega), abs, String.toList_append, Nat.toList_repr, decide_eq_true negative]
    rfl
  · have abs : n.toNat = n.natAbs := by omega
    rw [if_pos (by omega), abs, Nat.toList_repr, decide_eq_false negative]
    rfl

theorem toList_display (other : x.toBits ≠ negativeZero) :
    (display x).toList = minus (classify x).negative ++ (classify x).body := by
  unfold display textWith
  cases is : classify x with
  | notANumber => rfl
  | infinite negative => cases negative <;> rfl
  | finite negative b =>
    have sign : (signText negative).toList = minus negative := by cases negative <;> rfl
    simp only [Class.negative, Class.body, Binary.body]
    cases whole : b.isIntegral with
    | true =>
      have below : decide (signed negative b.truncated < 0) = negative := by
        cases negative with
        | false => exact decide_eq_false (by simp [signed])
        | true =>
          have positive := truncated_pos other is whole
          exact decide_eq_true (by simp [signed]; omega)
      have abs : (signed negative b.truncated).natAbs = b.truncated := by
        cases negative <;> simp [signed]
      simp only [if_true]
      rw [String.toList_append, toList_toString_int, below, abs, List.append_assoc]
      rfl
    | false =>
      simp only [Bool.false_eq_true, if_false]
      rw [String.toList_append, sign]

theorem body_starts (x : Float) : ∃ c cs, (classify x).body = c :: cs ∧ c ≠ '-' := by
  cases is : classify x with
  | notANumber => exact ⟨_, _, rfl, by decide⟩
  | infinite negative => exact ⟨_, _, rfl, by decide⟩
  | finite negative b =>
    obtain ⟨c, cs, body, looks⟩ := looksFloat_body (normal_of_finite is)
    refine ⟨c, cs, body, ?_⟩
    rintro rfl
    exact nomatch looks.starts

theorem body_ne {b : Binary} (normal : b.Normal) {c : Char} (letter : c.isDigit = false)
    (cs : List Char) : b.body ≠ c :: cs := by
  intro same
  obtain ⟨d, ds, body, looks⟩ := looksFloat_body normal
  obtain ⟨rfl, -⟩ := List.cons.inj (body.symm.trans same)
  exact nomatch letter.symm.trans looks.starts

theorem classBody_injective (same : (classify x).body = (classify y).body)
    (sign : (classify x).negative = (classify y).negative) : classify x = classify y := by
  cases is : classify x with
  | notANumber =>
    cases is' : classify y with
    | notANumber => rfl
    | infinite => rw [is, is'] at same; cases same
    | finite =>
      rw [is, is'] at same
      exact absurd same.symm (body_ne (normal_of_finite is') rfl _)
  | infinite =>
    cases is' : classify y with
    | notANumber => rw [is, is'] at same; cases same
    | infinite =>
      rw [is, is'] at sign
      exact congrArg _ sign
    | finite =>
      rw [is, is'] at same
      exact absurd same.symm (body_ne (normal_of_finite is') rfl _)
  | finite negative b =>
    cases is' : classify y with
    | notANumber | infinite =>
      rw [is, is'] at same
      exact absurd same (body_ne (normal_of_finite is) rfl _)
    | finite negative' b' =>
      rw [is, is'] at same sign
      obtain rfl : negative = negative' := sign
      rw [body_injective (normal_of_finite is) (normal_of_finite is') same]

/-- But for the negative zero, different numbers have different texts. -/
theorem display_injective (other : x.toBits ≠ negativeZero) (other' : y.toBits ≠ negativeZero)
    (same : display x = display y) : x = y := by
  have texts := congrArg String.toList same
  rw [toList_display other, toList_display other'] at texts
  obtain ⟨c, cs, body, first⟩ := body_starts x
  obtain ⟨c', cs', body', first'⟩ := body_starts y
  rw [body, body'] at texts
  obtain ⟨sign, rest⟩ := minus_cancel first first' texts
  exact classify_injective (classBody_injective (body.trans (rest.trans body'.symm)) sign)

end

end TypedLet.Decimal
