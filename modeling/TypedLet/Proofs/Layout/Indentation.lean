import TypedLet.Layout
import Mathlib.Data.List.Basic

/-
Moving a text to the right: the same indentation comes before every further line that is not
empty. What it does to a text is told character by character, so that it can be told of the
parts of a text, one after the other: all that a part has to say to the next one is whether
a line has just begun.
-/
namespace TypedLet.Layout

/-- The indentation comes before the first character of a line. `fresh` says that a line has
    just begun. -/
def shift (indent : List Char) : Bool → List Char → List Char
  | _, [] => []
  | fresh, c :: cs =>
    if c = '\n' then c :: shift indent true cs
    else (if fresh then indent else []) ++ c :: shift indent false cs

def indentLine (indent line : List Char) : List Char := if line = [] then [] else indent ++ line

def indentOthers (indent : List Char) : List (List Char) → List (List Char)
  | [] => []
  | first :: others => first :: others.map (indentLine indent)

def lines (text : String) : List (List Char) := text.toList.splitOn '\n'

section Lines

variable {indent : List Char}

theorem splitOn_append_of_not_mem {front : List Char} (oneLine : '\n' ∉ front) (cs : List Char) :
    (front ++ cs).splitOn '\n' = (cs.splitOn '\n').modifyHead (front ++ ·) := by
  induction front with
  | nil =>
    rw [List.nil_append]
    cases cs.splitOn '\n' <;> rfl
  | cons c front ih =>
    obtain ⟨other, rest⟩ := not_or.mp (mt List.mem_cons.mpr oneLine)
    have mark : (c == '\n') = false := by simpa using Ne.symm other
    rw [List.cons_append, List.splitOn_cons_eq_if_modifyHead, mark, if_neg Bool.false_ne_true,
      ih rest, List.modifyHead_modifyHead]
    rfl

/-- What is moved line by line, from the beginning of a line and from within one. -/
theorem splitOn_shift (oneLine : '\n' ∉ indent) (cs : List Char) :
    (shift indent true cs).splitOn '\n' = (cs.splitOn '\n').map (indentLine indent) ∧
      (shift indent false cs).splitOn '\n' = indentOthers indent (cs.splitOn '\n') := by
  induction cs with
  | nil => exact ⟨rfl, rfl⟩
  | cons c cs ih =>
    obtain ⟨fresh, inside⟩ := ih
    by_cases line : c = '\n'
    · subst line
      simp [shift, List.splitOn_cons_eq_if_modifyHead, fresh, indentLine, indentOthers]
    · -- The character belongs to the line that the rest goes on with.
      have mark : (c == '\n') = false := by simpa using line
      obtain ⟨first, others, split⟩ := List.exists_cons_of_ne_nil (List.splitOn_ne_nil '\n' cs)
      have alone : '\n' ∉ indent ++ [c] := by simp [oneLine, Ne.symm line]
      have whole : ∀ front : List Char, '\n' ∉ front →
          (front ++ shift indent false cs).splitOn '\n' =
            (front ++ first) :: others.map (indentLine indent) := by
        intro front clean
        rw [splitOn_append_of_not_mem clean, inside, split]
        rfl
      have parts : (c :: cs).splitOn '\n' = (c :: first) :: others := by
        simp [List.splitOn_cons_eq_if_modifyHead, mark, split]
      rw [parts]
      constructor
      · simpa [shift, line, indentLine] using whole (indent ++ [c]) alone
      · simpa [shift, line, indentOthers] using whole [c] (by simpa using Ne.symm line)

end Lines

def OneLine (text : String) : Prop := '\n' ∉ text.toList

instance (text : String) : Decidable (OneLine text) := inferInstanceAs (Decidable (_ ∉ _))

def Starts (text : String) : Prop := ∃ c cs, text.toList = c :: cs ∧ c ≠ '\n'

def Proper (text : String) : Prop := text ≠ "" ∧ OneLine text

instance (text : String) : Decidable (Proper text) := inferInstanceAs (Decidable (_ ∧ _))

/-- The first text becomes the second one when it is moved. `p` and `q` say whether a line has
    just begun before it and behind it. -/
def Moves (indent : String) (p q : Bool) (text moved : String) : Prop := ∀ rest,
  shift indent.toList p (text.toList ++ rest) = moved.toList ++ shift indent.toList q rest

structure Item (indent text moved : String) : Prop where
  starts : Starts text
  moves : Moves indent false false text moved

section Texts

variable {a b : String}

theorem oneLine_append : OneLine (a ++ b) ↔ OneLine a ∧ OneLine b := by
  simp [OneLine, not_or]

theorem OneLine.append (first : OneLine a) (second : OneLine b) : OneLine (a ++ b) :=
  oneLine_append.mpr ⟨first, second⟩

theorem oneLine_joined {separator : String} {texts : List String} (sep : OneLine separator)
    (each : ∀ t ∈ texts, OneLine t) : OneLine (Text.joined separator texts) := by
  induction texts with
  | nil => exact List.not_mem_nil
  | cons t texts ih =>
    obtain ⟨first, others⟩ := List.forall_mem_cons.mp each
    cases texts with
    | nil => exact first
    | cons u texts => exact (first.append sep).append (ih others)

theorem oneLine_list {texts : List String} (each : ∀ t ∈ texts, OneLine t) :
    OneLine (Text.joined ", " texts) :=
  oneLine_joined (by decide) each

theorem Starts.append (starts : Starts a) (b : String) : Starts (a ++ b) := by
  obtain ⟨c, cs, text, other⟩ := starts
  exact ⟨c, cs ++ b.toList, by rw [String.toList_append, text, List.cons_append], other⟩

theorem Proper.oneLine (proper : Proper a) : OneLine a := proper.2

theorem Proper.starts (proper : Proper a) : Starts a := by
  obtain ⟨some, oneLine⟩ := proper
  cases text : a.toList with
  | nil => exact absurd (String.toList_eq_nil_iff.mp text) some
  | cons c cs =>
    refine ⟨c, cs, text, ?_⟩
    rintro rfl
    exact oneLine (text ▸ List.mem_cons_self ..)

theorem Starts.behind (oneLine : OneLine a) (starts : Starts b) : Starts (a ++ b) := by
  by_cases empty : a = ""
  · rw [empty, String.empty_append]
    exact starts
  · exact (Proper.starts ⟨empty, oneLine⟩).append b

end Texts

section Moves

variable {indent : String} {p q r : Bool} {a a' b b' : String}

theorem moves_empty : Moves indent p p "" "" := fun _ => rfl

theorem moves_break : Moves indent p true "\n" "\n" := fun _ => rfl

theorem Moves.append (first : Moves indent p q a a') (second : Moves indent q r b b') :
    Moves indent p r (a ++ b) (a' ++ b') := by
  intro rest
  rw [String.toList_append, String.toList_append, List.append_assoc, first, second,
    List.append_assoc]

theorem moves_text (text : String) (oneLine : OneLine text) :
    Moves indent false false text text := by
  intro rest
  rw [OneLine] at oneLine
  generalize text.toList = text at oneLine ⊢
  induction text with
  | nil => rfl
  | cons c cs ih =>
    obtain ⟨other, others⟩ := not_or.mp (mt List.mem_cons.mpr oneLine)
    simp [shift, Ne.symm other, ih others]

theorem Moves.text (first : Moves indent p false a a') (text : String) (oneLine : OneLine text) :
    Moves indent p false (a ++ text) (a' ++ text) :=
  first.append (moves_text text oneLine)

theorem Moves.fresh (starts : Starts a) (inside : Moves indent false q a a') :
    Moves indent true q a (indent ++ a') := by
  obtain ⟨c, cs, text, other⟩ := starts
  intro rest
  have here := inside rest
  rw [text] at here ⊢
  simpa [shift, other] using here

theorem moves_joined {separator : String} {f g : α → String} {items : List α}
    (sep : Moves indent q p separator separator) (some : items ≠ [])
    (each : ∀ i ∈ items, Moves indent p q (f i) (g i)) :
    Moves indent p q (Text.joined separator (items.map f))
      (Text.joined separator (items.map g)) := by
  induction items with
  | nil => exact absurd rfl some
  | cons i items ih =>
    obtain ⟨first, others⟩ := List.forall_mem_cons.mp each
    cases items with
    | nil => exact first
    | cons j items => exact (first.append sep).append (ih (List.cons_ne_nil j items) others)

end Moves

end TypedLet.Layout
