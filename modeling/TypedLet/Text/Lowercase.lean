import TypedLet.Text.CaseTable

/-
Lowercase text. Each character becomes its lowercase, and a capital sigma the
final form at the end of a word. The length stays, but for the capital i with a
dot, whose lowercase is an i and a dot of its own.
-/
namespace TypedLet.Text.Lowercase

def isIn (runs : List (Nat × Nat)) (c : Char) : Bool :=
  runs.any fun (first, last) => first ≤ c.toNat && c.toNat ≤ last

/-- The lowercase of a character on its own, where it is one character. -/
def single (c : Char) : Char :=
  match CaseTable.lowered.find? fun (first, last, step, _) =>
      first ≤ c.toNat && c.toNat ≤ last && (c.toNat - first) % step = 0 with
  | some (_, _, _, shift) => Char.ofNat (c.toNat + shift).toNat
  | none => c

def dotted : Char := 'İ'

/-- The lowercase of a character on its own. -/
def char (c : Char) : List Char := if c = dotted then ['i', '\u0307'] else [single c]

/-- Whether the first character that matters for words is a letter with case. -/
def meetsCased (cs : List Char) : Bool :=
  match (cs.dropWhile (isIn CaseTable.ignorable)).head? with
  | some c => isIn CaseTable.cased c
  | none => false

/-- The lowercase of text; `before` is what stands in front, last character
    first. -/
def chars (before : List Char) : List Char → List Char
  | [] => []
  | c :: rest =>
    (if c = 'Σ' && meetsCased before && !meetsCased rest then ['ς'] else char c)
      ++ chars (c :: before) rest

def text (s : String) : List Char := chars [] s.toList

theorem length_char (c : Char) : (char c).length = if c = dotted then 2 else 1 := by
  unfold char
  split <;> rfl

/-- The text gets longer by one character for each capital i with a dot. -/
theorem length_chars (before cs : List Char) :
    (chars before cs).length = cs.length + cs.count dotted := by
  induction cs generalizing before with
  | nil => rfl
  | cons c rest ih =>
    have sigma : 'Σ' ≠ dotted := by decide
    rw [chars, List.length_append, ih, List.length_cons, List.count_cons]
    split
    · next capital =>
      simp only [Bool.and_eq_true, decide_eq_true_eq] at capital
      simp [capital.1.1, sigma]
      omega
    · rw [length_char]
      by_cases same : c = dotted <;> simp [same] <;> omega

end TypedLet.Text.Lowercase
