import TypedLet.Text.Encoding

/-
The first bytes of a text, read back. A character is read from its bytes whatever comes
behind them. Its first bytes without the last one are no character, and neither is what is
left of them without the first, for no character starts with a byte that goes on with one.
Main statement: what the first bytes of a text are read back as is the longest start of the
text whose bytes are all among them.
-/
namespace TypedLet.Text.Utf8

theorem encode_cons (c : Char) (cs : List Char) :
    encode (c :: cs) = String.utf8EncodeChar c ++ encode cs := rfl

def size (cs : List Char) : Nat := (encode cs).length

theorem size_cons (c : Char) (cs : List Char) : size (c :: cs) = c.utf8Size + size cs := by
  rw [size, encode_cons, List.length_append, String.length_utf8EncodeChar]
  rfl

theorem size_append (cs ds : List Char) : size (cs ++ ds) = size cs + size ds := by
  rw [size, encode, List.flatMap_append, List.length_append]
  rfl

section First

variable {bytes : List UInt8} {b : UInt8} {c : Char}

theorem first?_append (found : first? bytes = some c) (more : List UInt8) :
    first? (bytes ++ more) = some c := by
  rw [first?, List.take_append, List.toByteArray_append]
  exact ByteArray.utf8DecodeChar?_append_eq_some found _

theorem first?_encodeChar (c : Char) : first? (String.utf8EncodeChar c) = some c := by
  have fits : (String.utf8EncodeChar c).length ≤ 4 := by
    rw [String.length_utf8EncodeChar]
    exact c.utf8Size_le_four
  rw [first?, List.take_of_length_le fits, ← List.utf8Encode_singleton]
  exact List.utf8DecodeChar?_utf8Encode_singleton

theorem utf8Size_le_of_first? (found : first? bytes = some c) : c.utf8Size ≤ bytes.length := by
  have fits := ByteArray.le_size_of_utf8DecodeChar?_eq_some found
  rw [List.size_toByteArray, List.length_take] at fits
  omega

theorem isFirstByte_of_first? (found : first? (b :: bytes) = some c) : b.IsUTF8FirstByte := by
  have starts := ByteArray.isUTF8FirstByte_of_isSome_utf8DecodeChar?
    (Option.isSome_iff_exists.mpr ⟨c, found⟩)
  rwa [List.getElem_toByteArray] at starts

theorem first?_cut {n : Nat} (short : n < c.utf8Size) :
    first? ((String.utf8EncodeChar c).take n) = none := by
  cases found : first? ((String.utf8EncodeChar c).take n) with
  | none => rfl
  | some d =>
    have whole := first?_append found ((String.utf8EncodeChar c).drop n)
    rw [List.take_append_drop, first?_encodeChar] at whole
    cases whole
    have fits := utf8Size_le_of_first? found
    rw [List.length_take] at fits
    omega

theorem not_isFirstByte_of_mem_tail (member : b ∈ (String.utf8EncodeChar c).tail) :
    ¬ b.IsUTF8FirstByte := by
  obtain ⟨i, bound, rfl⟩ := List.getElem_of_mem member
  rw [List.getElem_tail, UInt8.isUTF8FirstByte_getElem_utf8EncodeChar]
  exact Nat.succ_ne_zero i

end First

section Decode

variable {bytes : List UInt8} {c : Char}

theorem decode_of_not_isFirstByte (all : ∀ b ∈ bytes, ¬ b.IsUTF8FirstByte) :
    decode bytes = [] := by
  induction bytes with
  | nil => rfl
  | cons b bytes ih =>
    obtain ⟨here, others⟩ := List.forall_mem_cons.mp all
    have nothing : first? (b :: bytes) = none :=
      Option.eq_none_iff_forall_ne_some.mpr fun _ found => here (isFirstByte_of_first? found)
    rw [decode, decodeFrom, nothing]
    exact ih others

theorem decode_cut {n : Nat} (short : n < c.utf8Size) :
    decode ((String.utf8EncodeChar c).take n) = [] := by
  have nothing := first?_cut short
  cases cut : (String.utf8EncodeChar c).take n with
  | nil => rfl
  | cons b rest =>
    have going : ∀ b ∈ rest, ¬ b.IsUTF8FirstByte := by
      intro b' member
      have behind : b' ∈ ((String.utf8EncodeChar c).take n).tail := by rwa [cut]
      rw [← List.drop_one, List.drop_take, List.drop_one] at behind
      exact not_isFirstByte_of_mem_tail (List.mem_of_mem_take behind)
    rw [cut] at nothing
    rw [decode, decodeFrom, nothing]
    exact decode_of_not_isFirstByte going

/-- The bytes that go with the last character are passed over. -/
theorem decodeFrom_append (inside : List UInt8) (rest : List UInt8) :
    decodeFrom inside.length (inside ++ rest) = decode rest := by
  induction inside with
  | nil => rfl
  | cons b inside ih => exact ih

theorem decode_encodeChar_append (c : Char) (rest : List UInt8) :
    decode (String.utf8EncodeChar c ++ rest) = c :: decode rest := by
  have found := first?_append (first?_encodeChar c) rest
  have count := String.length_utf8EncodeChar c
  cases bytes : String.utf8EncodeChar c with
  | nil =>
    have := c.utf8Size_pos
    rw [bytes, List.length_nil] at count
    omega
  | cons b inside =>
    rw [bytes, List.cons_append] at found
    rw [bytes, List.length_cons] at count
    rw [List.cons_append, decode, decodeFrom, found]
    dsimp only
    rw [← count, Nat.add_sub_cancel, decodeFrom_append]

end Decode

/-- The longest start of the text that has at most so many bytes. -/
def within (bytes : Nat) : List Char → List Char
  | [] => []
  | c :: rest => if c.utf8Size ≤ bytes then c :: within (bytes - c.utf8Size) rest else []

theorem decode_take_encode (n : Nat) (cs : List Char) :
    decode ((encode cs).take n) = within n cs := by
  induction cs generalizing n with
  | nil => rw [encode, List.flatMap_nil, List.take_nil]; rfl
  | cons c cs ih =>
    have count := String.length_utf8EncodeChar c
    rw [encode_cons, within]
    by_cases fits : c.utf8Size ≤ n
    · rw [if_pos fits, List.take_append, count, List.take_of_length_le (count ▸ fits),
        decode_encodeChar_append, ih]
    · rw [if_neg fits, List.take_append_of_le_length (by omega)]
      exact decode_cut (Nat.lt_of_not_le fits)

section Within

theorem within_isPrefix (n : Nat) (cs : List Char) : within n cs <+: cs := by
  induction cs generalizing n with
  | nil => exact List.nil_prefix
  | cons c cs ih =>
    rw [within]
    split
    · exact (List.prefix_cons_inj c).mpr (ih _)
    · exact List.nil_prefix

theorem size_within_le (n : Nat) (cs : List Char) : size (within n cs) ≤ n := by
  induction cs generalizing n with
  | nil => exact Nat.zero_le n
  | cons c cs ih =>
    rw [within]
    split
    · next fits =>
      have others := ih (n - c.utf8Size)
      rw [size_cons]
      omega
    · exact Nat.zero_le n

theorem isPrefix_within {n : Nat} {before cs : List Char} (starts : before <+: cs)
    (fits : size before ≤ n) : before <+: within n cs := by
  induction cs generalizing n before with
  | nil => exact starts
  | cons c cs ih =>
    cases before with
    | nil => exact List.nil_prefix
    | cons d before =>
      obtain ⟨rfl, others⟩ := List.cons_prefix_cons.mp starts
      rw [size_cons] at fits
      rw [within, if_pos (by omega)]
      exact (List.prefix_cons_inj d).mpr (ih others (by omega))

theorem within_mono {n m : Nat} (le : n ≤ m) (cs : List Char) : within n cs <+: within m cs :=
  isPrefix_within (within_isPrefix n cs) (Nat.le_trans (size_within_le n cs) le)

theorem size_eq_zero_iff {cs : List Char} : size cs = 0 ↔ cs = [] := by
  cases cs with
  | nil => exact ⟨fun _ => rfl, fun _ => rfl⟩
  | cons c cs =>
    have := c.utf8Size_pos
    rw [size_cons]
    constructor
    · omega
    · exact fun impossible => nomatch impossible

theorem size_le_of_isPrefix {before cs : List Char} (starts : before <+: cs) :
    size before ≤ size cs := by
  obtain ⟨after, rfl⟩ := starts
  rw [size_append]
  exact Nat.le_add_right _ _

theorem within_size {before cs : List Char} (starts : before <+: cs) :
    within (size before) cs = before := by
  obtain ⟨rest, more⟩ := isPrefix_within starts (Nat.le_refl (size before))
  have fits := size_within_le (size before) cs
  rw [← more, size_append] at fits
  have nothing : rest = [] := size_eq_zero_iff.mp (by omega)
  rw [← more, nothing, List.append_nil]

end Within

end TypedLet.Text.Utf8
