import TypedLet.Layout

/-
The tokens of a text. Blanks only separate: what a text says is in its words, marks and
quoted texts, and these do not depend on how it is indented. A word runs on over letters,
digits and points, and over a minus that stands inside of it, as in `1e-05`. Every part of a
laid out expression is followed by a character that no word runs over, so the tokens of
the text are those of its parts, one after the other.
-/
namespace TypedLet.Reading

inductive Key where
  | let_ | in_ | end_ | var | function | match_ | if_ | then_ | else_ | while_ | do_ | for_
  | to_ | as_
deriving DecidableEq, Repr

namespace Key

def all : List Key :=
  [let_, in_, end_, var, function, match_, if_, then_, else_, while_, do_, for_, to_, as_]

def text : Key → List Char
  | let_ => ['l', 'e', 't']
  | in_ => ['i', 'n']
  | end_ => ['e', 'n', 'd']
  | var => ['v', 'a', 'r']
  | function => ['f', 'u', 'n', 'c', 't', 'i', 'o', 'n']
  | match_ => ['m', 'a', 't', 'c', 'h']
  | if_ => ['i', 'f']
  | then_ => ['t', 'h', 'e', 'n']
  | else_ => ['e', 'l', 's', 'e']
  | while_ => ['w', 'h', 'i', 'l', 'e']
  | do_ => ['d', 'o']
  | for_ => ['f', 'o', 'r']
  | to_ => ['t', 'o']
  | as_ => ['a', 's']

end Key

inductive Head where
  | void | integer | float | bool | str | array | tuple
deriving DecidableEq, Repr

namespace Head

def all : List Head := [void, integer, float, bool, str, array, tuple]

def text : Head → List Char
  | void => ['V', 'o', 'i', 'd']
  | integer => ['I', 'n', 't', 'e', 'g', 'e', 'r']
  | float => ['F', 'l', 'o', 'a', 't']
  | bool => ['B', 'o', 'o', 'l']
  | str => ['S', 't', 'r']
  | array => ['A', 'r', 'r', 'a', 'y']
  | tuple => ['T', 'u', 'p', 'l', 'e']

end Head

inductive Token where
  | key (k : Key)
  | head (h : Head)
  | name (n : String)
  | literal (word : List Char)
  | text (s : String)
  | op (o : BinaryOp)
  | becomes | colon | comma
  | openParen | closeParen | openBracket | closeBracket | openBrace | closeBrace
deriving DecidableEq, Repr

def literalWords : List (List Char) :=
  [['n', 'i', 'l'], ['t', 'r', 'u', 'e'], ['f', 'a', 'l', 's', 'e'], ['i', 'n', 'f'],
   ['N', 'a', 'N']]

def reserved : List (List Char) := Key.all.map Key.text ++ Head.all.map Head.text ++ literalWords

def startsWithDigit (word : List Char) : Bool := word.head?.any Char.isDigit

def isLiteral (word : List Char) : Bool := startsWithDigit word || decide (word ∈ literalWords)

def ofWord (word : List Char) : Token :=
  match Key.all.find? (·.text = word) with
  | some k => .key k
  | none =>
    match Head.all.find? (·.text = word) with
    | some h => .head h
    | none => if isLiteral word then .literal word else .name (String.ofList word)

def ofSymbol : List Char → Token
  | [':', '='] => .becomes
  | ['<'] => .op .lt
  | ['<', '='] => .op .le
  | ['>'] => .op .gt
  | ['>', '='] => .op .ge
  | ['='] => .op .eq
  | ['<', '>'] => .op .ne
  | _ => .colon

def ofMark (c : Char) : Token :=
  if c = '(' then .openParen
  else if c = ')' then .closeParen
  else if c = '[' then .openBracket
  else if c = ']' then .closeBracket
  else if c = '\x7b' then .openBrace
  else if c = '\x7d' then .closeBrace
  else if c = '+' then .op .add
  else if c = '-' then .op .sub
  else if c = '*' then .op .mul
  else if c = '/' then .op .div
  else .comma

/-- How a character takes part in tokens: as a blank, as the quote, as a mark of its own, in a
    symbol of several characters, or in a word. -/
inductive Kind where
  | blank | quote | mark | symbol | letter
deriving DecidableEq, Repr

def marks : List Char :=
  ['(', ')', '[', ']', '\x7b', '\x7d', ',', '+', '-', '*', '/']

def kind (c : Char) : Kind :=
  if c = ' ' ∨ c = '\n' ∨ c = '\t' then .blank
  else if c = '"' then .quote
  else if c ∈ marks then .mark
  else if c ∈ [':', '=', '<', '>'] then .symbol
  else .letter

/-- What has been read of a token that may run on. -/
inductive Pending where
  | nothing
  | word (read : List Char)
  | symbol (read : List Char)
  | text (read : List Char)
  | escape (read : List Char)

def Pending.done : Pending → List Token
  | word read => [ofWord read]
  | symbol read => [ofSymbol read]
  | _ => []

def unescape (c : Char) : Char :=
  if c = 'n' then '\n' else if c = 't' then '\t' else if c = 'r' then '\r' else c

def Pending.next (p : Pending) (c : Char) : List Token × Pending :=
  match kind c, p with
  | .letter, word read => ([], word (read ++ [c]))
  | .mark, word read =>
    if c = '-' then ([], word (read ++ [c])) else ([ofWord read, ofMark c], nothing)
  | .symbol, symbol read => ([], symbol (read ++ [c]))
  | .letter, p => (p.done, word [c])
  | .mark, p => (p.done ++ [ofMark c], nothing)
  | .symbol, p => (p.done, symbol [c])
  | .blank, p => (p.done, nothing)
  | .quote, p => (p.done, text [])

def lexFrom : Pending → List Char → List Token
  | p, [] => p.done
  | .text read, c :: cs =>
    if c = '"' then .text (String.ofList read) :: lexFrom .nothing cs
    else if c = '\\' then lexFrom (.escape read) cs
    else lexFrom (.text (read ++ [c])) cs
  | .escape read, c :: cs => lexFrom (.text (read ++ [unescape c])) cs
  | p, c :: cs => (p.next c).1 ++ lexFrom (p.next c).2 cs

def lex (text : List Char) : List Token := lexFrom .nothing text

def Bounded (rest : List Char) : Prop := ∀ c ∈ rest.head?, kind c ≠ .letter ∧ c ≠ '-'

/-- The text has these tokens, whatever comes after it. -/
def Closed (text : List Char) (tokens : List Token) : Prop :=
  ∀ rest, lex (text ++ rest) = tokens ++ lex rest

/-- The text has these tokens, unless its last word runs on. -/
def Spells (text : List Char) (tokens : List Token) : Prop :=
  ∀ rest, Bounded rest → lex (text ++ rest) = tokens ++ lex rest

section

variable {text text' : List Char} {tokens tokens' : List Token}

theorem Closed.spells (h : Closed text tokens) : Spells text tokens := fun rest _ => h rest

theorem closed_nil : Closed [] [] := fun _ => rfl

theorem Closed.append (first : Closed text tokens) (next : Closed text' tokens') :
    Closed (text ++ text') (tokens ++ tokens') := by
  intro rest
  rw [List.append_assoc, first, next, List.append_assoc]

theorem Closed.spelled (first : Closed text tokens) (next : Spells text' tokens') :
    Spells (text ++ text') (tokens ++ tokens') := by
  intro rest bounded
  rw [List.append_assoc, first, next rest bounded, List.append_assoc]

def Ends (text : List Char) : Prop := ∃ c more, text = c :: more ∧ kind c ≠ .letter ∧ c ≠ '-'

theorem Ends.bounded (ends : Ends text) (rest : List Char) : Bounded (text ++ rest) := by
  obtain ⟨c, more, rfl, bound⟩ := ends
  rintro d member
  cases member
  exact bound

theorem Spells.ended (first : Spells text tokens) (next : Closed text' tokens')
    (ends : Ends text') : Closed (text ++ text') (tokens ++ tokens') := by
  intro rest
  rw [List.append_assoc, first _ (ends.bounded rest), next rest, List.append_assoc]

end

section Words

def IsWord (word : List Char) : Prop :=
  ∃ c cs, word = c :: cs ∧ kind c = .letter ∧ ∀ d ∈ cs, kind d = .letter ∨ d = '-'

theorem isWord_of_all {c : Char} {cs : List Char} (starts : kind c = .letter)
    (inside : (cs.all fun d => decide (kind d = .letter ∨ d = '-')) = true) : IsWord (c :: cs) :=
  ⟨c, cs, rfl, starts, fun d member => of_decide_eq_true (List.all_eq_true.mp inside d member)⟩

theorem next_letter {c : Char} (letter : kind c = .letter) :
    Pending.nothing.next c = ([], .word [c]) := by
  simp [Pending.next, letter, Pending.done]

theorem next_inside {read : List Char} {c : Char} (inside : kind c = .letter ∨ c = '-') :
    (Pending.word read).next c = ([], .word (read ++ [c])) := by
  rcases inside with letter | rfl
  · simp [Pending.next, letter]
  · rfl

theorem lexFrom_word_bounded (read : List Char) {rest : List Char} (bounded : Bounded rest) :
    lexFrom (.word read) rest = ofWord read :: lex rest := by
  cases rest with
  | nil => rfl
  | cons c cs =>
    obtain ⟨other, minus⟩ := bounded c rfl
    unfold lex
    simp only [lexFrom, Pending.next]
    cases sort : kind c with
    | letter => exact absurd sort other
    | mark => simp [minus, Pending.done]
    | blank | quote | symbol => simp [Pending.done]

theorem lexFrom_word (read : List Char) {more rest : List Char}
    (inside : ∀ d ∈ more, kind d = .letter ∨ d = '-') (bounded : Bounded rest) :
    lexFrom (.word read) (more ++ rest) = ofWord (read ++ more) :: lex rest := by
  induction more generalizing read with
  | nil =>
    rw [List.nil_append, List.append_nil]
    exact lexFrom_word_bounded read bounded
  | cons c cs ih =>
    obtain ⟨here, others⟩ := List.forall_mem_cons.mp inside
    rw [List.cons_append]
    simp only [lexFrom, next_inside here, List.nil_append]
    rw [ih _ others, List.append_assoc]
    rfl

theorem spells_word {word : List Char} (is : IsWord word) : Spells word [ofWord word] := by
  obtain ⟨c, cs, rfl, letter, inside⟩ := is
  intro rest bounded
  rw [List.cons_append]
  unfold lex
  simp only [lexFrom, next_letter letter, List.nil_append]
  rw [lexFrom_word [c] inside bounded]
  rfl

end Words

section Texts

open Text.Quoted (escape escapeAll)

theorem lexFrom_escape (read : List Char) (c : Char) (rest : List Char) :
    lexFrom (.text read) (escape c ++ rest) = lexFrom (.text (read ++ [c])) rest := by
  unfold escape
  by_cases backslash : c = '\\'
  · subst backslash
    rfl
  by_cases quote : c = '"'
  · subst quote
    rfl
  by_cases line : c = '\n'
  · subst line
    rfl
  by_cases tab : c = '\t'
  · subst tab
    rfl
  by_cases back : c = '\r'
  · subst back
    rfl
  simp only [backslash, quote, line, tab, back, if_false, List.cons_append, List.nil_append,
    lexFrom]

theorem lexFrom_escapeAll (read s rest : List Char) :
    lexFrom (.text read) (escapeAll s ++ '"' :: rest) =
      .text (String.ofList (read ++ s)) :: lex rest := by
  induction s generalizing read with
  | nil =>
    rw [List.append_nil]
    rfl
  | cons c cs ih =>
    rw [escapeAll, List.flatMap_cons, List.append_assoc, lexFrom_escape]
    change lexFrom (.text (read ++ [c])) (escapeAll cs ++ '"' :: rest) = _
    rw [ih, List.append_assoc]
    rfl

theorem closed_quoted (s : String) : Closed (Text.quoted s).toList [.text s] := by
  intro rest
  rw [Text.quoted, String.toList_ofList, Text.Quoted.encode, List.append_assoc]
  change lexFrom (.text []) (escapeAll s.toList ++ '"' :: rest) = _
  rw [lexFrom_escapeAll, List.nil_append, String.ofList_toList]
  rfl

end Texts

theorem ends_paren : Ends ")".toList := ⟨_, _, rfl, by decide⟩

theorem closed_paren : Closed ")".toList [.closeParen] := fun _ => rfl

theorem comma_sep : ", ".toList = ',' :: [' '] := rfl

theorem blank_sep : Closed [' '] [] := fun _ => rfl

def separated : List (List Token) → List Token
  | [] => []
  | [ts] => ts
  | ts :: us :: rest => ts ++ .comma :: separated (us :: rest)

theorem separated_cons (ts : List Token) (rest : List (List Token)) :
    separated (ts :: rest) = ts ++ rest.flatMap (.comma :: ·) := by
  induction rest generalizing ts with
  | nil => simp [separated]
  | cons us rest ih => rw [separated, ih, List.flatMap_cons]; rfl

theorem spells_joined {text : α → String} {tokens : α → List Token} {sep : String}
    {blanks : List Char} (comma : sep.toList = ',' :: blanks) (blank : Closed blanks [])
    {items : List α} (each : ∀ a ∈ items, Spells (text a).toList (tokens a)) :
    Spells (Text.joined sep (items.map text)).toList (separated (items.map tokens)) := by
  have closed : Closed (',' :: blanks) [.comma] := fun rest => congrArg _ (blank rest)
  induction items with
  | nil => exact closed_nil.spells
  | cons a items ih =>
    obtain ⟨first, others⟩ := List.forall_mem_cons.mp each
    cases items with
    | nil => exact first
    | cons b items =>
      have ends : Ends (',' :: blanks) := ⟨_, _, rfl, by decide⟩
      have both := (first.ended closed ends).spelled (ih others)
      have joined : (Text.joined sep ((a :: b :: items).map text)).toList =
          (text a).toList ++ ',' :: blanks ++
            (Text.joined sep ((b :: items).map text)).toList := by
        change (text a ++ sep ++ Text.joined sep ((b :: items).map text)).toList = _
        rw [String.toList_append, String.toList_append, comma]
      rw [joined]
      simpa [separated] using both

end TypedLet.Reading

namespace TypedLet

open Reading

namespace Ty

mutual
def tokens : Ty → List Token
  | void => [.head .void]
  | integer => [.head .integer]
  | float => [.head .float]
  | bool => [.head .bool]
  | str => [.head .str]
  | array t => .head .array :: .openParen :: tokens t ++ [.closeParen]
  | tuple ts => .head .tuple :: .openParen :: separated (tokensAll ts) ++ [.closeParen]
def tokensAll : List Ty → List (List Token)
  | [] => []
  | t :: ts => tokens t :: tokensAll ts
end

theorem tokensAll_eq_map (ts : List Ty) : tokensAll ts = ts.map tokens := by
  induction ts with
  | nil => rfl
  | cons t ts ih => rw [tokensAll, ih, List.map_cons]

end Ty

theorem Reading.isWord_head (h : Head) : IsWord h.text := by
  cases h <;> exact isWord_of_all (by decide) (by decide)

theorem Reading.spells_head (h : Head) : Spells h.text [.head h] := by
  have word : ofWord h.text = .head h := by cases h <;> decide
  rw [← word]
  exact spells_word (isWord_head h)

mutual
theorem Ty.spells_display : ∀ t : Ty, Spells t.display.toList t.tokens
  | void => spells_head .void
  | integer => spells_head .integer
  | float => spells_head .float
  | bool => spells_head .bool
  | str => spells_head .str
  | array t => by
    have opened : Closed "Array(".toList [.head .array, .openParen] := fun _ => rfl
    have whole := (opened.spelled (spells_display t)).ended closed_paren ends_paren
    simpa [display, tokens] using whole.spells
  | tuple ts => by
    have opened : Closed "Tuple(".toList [.head .tuple, .openParen] := fun _ => rfl
    have items := spells_joined comma_sep blank_sep (spells_displayAll ts)
    have whole := (opened.spelled items).ended closed_paren ends_paren
    simpa [display, tokens, displayAll_eq_map, tokensAll_eq_map] using whole.spells
theorem Ty.spells_displayAll : ∀ ts : List Ty, ∀ t ∈ ts, Spells t.display.toList t.tokens
  | [] => List.forall_mem_nil _
  | t :: ts => List.forall_mem_cons.mpr ⟨spells_display t, spells_displayAll ts⟩
end

end TypedLet
