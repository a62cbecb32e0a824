import TypedLet.Text.Quoted

/-
Reading quoted strings back. The reader skips the opening quote, takes a backslash and the
character behind it for the character that is written so, and stops at the first quote that is
not written so. Main statement: whatever comes behind a quoted string, the reader gives the string
back and leaves what came behind.
-/
namespace TypedLet.Text

namespace Quoted

def unescape (c : Char) : Option Char :=
  if c = '\\' then some '\\'
  else if c = '"' then some '"'
  else if c = 'n' then some '\n'
  else if c = 't' then some '\t'
  else if c = 'r' then some '\r'
  else none

mutual
/-- What is read up to the closing quote, and what comes behind it. -/
def readOn : List Char → Option (List Char × List Char)
  | [] => none
  | c :: cs =>
    if c = '"' then some ([], cs)
    else if c = '\\' then readEscape cs
    else (readOn cs).map (Prod.map (c :: ·) id)
def readEscape : List Char → Option (List Char × List Char)
  | [] => none
  | c :: cs => (unescape c).bind fun e => (readOn cs).map (Prod.map (e :: ·) id)
end

def decode : List Char → Option (List Char × List Char)
  | [] => none
  | c :: cs => if c = '"' then readOn cs else none

theorem escape_cases (c : Char) : (∃ d, escape c = ['\\', d] ∧ unescape d = some c) ∨
    (escape c = [c] ∧ c ≠ '"' ∧ c ≠ '\\') := by
  by_cases special : c ∈ ['\\', '"', '\n', '\t', '\r']
  · left
    simp only [List.mem_cons, List.not_mem_nil, or_false] at special
    rcases special with rfl | rfl | rfl | rfl | rfl <;> exact ⟨_, rfl, rfl⟩
  · right
    simp only [List.mem_cons, List.not_mem_nil, or_false, not_or] at special
    obtain ⟨backslash, quote, line, tab, back⟩ := special
    refine ⟨?_, quote, backslash⟩
    rw [escape, if_neg backslash, if_neg quote, if_neg line, if_neg tab, if_neg back]

theorem readOn_escape (c : Char) (cs : List Char) :
    readOn (escape c ++ cs) = (readOn cs).map (Prod.map (c :: ·) id) := by
  rcases escape_cases c with ⟨d, written, read⟩ | ⟨written, quote, backslash⟩
  · rw [written]
    change (unescape d).bind _ = _
    rw [read]
    rfl
  · rw [written, List.cons_append, List.nil_append, readOn, if_neg quote, if_neg backslash]

/-- By induction on the string: whatever it is made of, the reader stands between two
    characters whenever it has read one of them. -/
theorem readOn_escapeAll (s rest : List Char) :
    readOn (escapeAll s ++ '"' :: rest) = some (s, rest) := by
  induction s with
  | nil => rfl
  | cons c cs ih =>
    have next : readOn (escape c ++ (escapeAll cs ++ '"' :: rest)) = some (c :: cs, rest) := by
      rw [readOn_escape, ih]
      rfl
    rwa [escapeAll, List.flatMap_cons, List.append_assoc]

theorem decode_encode_append (s rest : List Char) : decode (encode s ++ rest) = some (s, rest) := by
  have body := readOn_escapeAll s rest
  rw [encode, List.append_assoc]
  exact body

/-- An encoding goes on as no other one. -/
theorem encode_prefix_iff {s t : List Char} : encode s <+: encode t ↔ s = t := by
  constructor
  · rintro ⟨rest, whole⟩
    have short := decode_encode_append s rest
    have long := decode_encode_append t []
    rw [whole] at short
    rw [List.append_nil, short] at long
    exact (Prod.mk.inj (Option.some.inj long)).1
  · rintro rfl
    exact List.prefix_rfl

theorem no_control_encode {s : List Char} {c : Char} (member : c ∈ encode s) :
    c ≠ '\n' ∧ c ≠ '\t' ∧ c ≠ '\r' := by
  rw [encode, List.mem_append, List.mem_cons, List.mem_singleton] at member
  rcases member with (rfl | inside) | rfl
  · decide
  · obtain ⟨d, _, written⟩ := List.mem_flatMap.mp inside
    exact not_mem_escape written
  · decide

end Quoted

/-- The string that a text starts with in quotes, and what comes behind it. -/
def unquoted (text : String) : Option (String × String) :=
  (Quoted.decode text.toList).map (Prod.map String.ofList String.ofList)

/-- Whatever comes behind it, a quoted string is read back and the rest is left. So two strings
    are quoted differently, no quoted string starts another one, and none holds a line feed, a
    tab or a carriage return. -/
theorem unquoted_quoted :
    (∀ s rest : String, unquoted (quoted s ++ rest) = some (s, rest)) ∧
      (∀ s t : String, quoted s = quoted t ↔ s = t) ∧
      (∀ s t : String, (quoted s).toList <+: (quoted t).toList ↔ s = t) ∧
      ∀ s : String, ∀ c ∈ (quoted s).toList, c ≠ '\n' ∧ c ≠ '\t' ∧ c ≠ '\r' := by
  have starts : ∀ s t : String, (quoted s).toList <+: (quoted t).toList ↔ s = t := by
    intro s t
    rw [quoted, quoted, String.toList_ofList, String.toList_ofList, Quoted.encode_prefix_iff,
      String.toList_inj]
  refine ⟨?_, ?_, starts, ?_⟩
  · intro s rest
    rw [unquoted, String.toList_append, quoted, String.toList_ofList,
      Quoted.decode_encode_append]
    simp only [Option.map_some, Prod.map, String.ofList_toList]
  · intro s t
    constructor
    · intro same
      exact (starts s t).mp (same ▸ List.prefix_rfl)
    · rintro rfl
      rfl
  · intro s c member
    rw [quoted, String.toList_ofList] at member
    exact Quoted.no_control_encode member

end TypedLet.Text
