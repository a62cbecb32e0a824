import TypedLet.Proofs.Decimal.Text
import TypedLet.Proofs.Reading.Tokens

/-
The words of literals and names. But for a string, the text of a scalar is a word, maybe
with a minus before it, and no other scalar has this text; the negative zero is the one
exception. A name is a word that no literal, no type and no keyword is written as.
-/
namespace TypedLet

open Decimal Reading

namespace Reading

theorem kind_of_isDigit {c : Char} (digit : c.isDigit = true) : kind c = .letter := by
  have other : ∀ d : Char, d.isDigit = false → c ≠ d := by
    rintro d mark rfl
    exact nomatch mark.symm.trans digit
  have blank : ¬ (c = ' ' ∨ c = '\n' ∨ c = '\t') := by
    simp [other ' ' rfl, other '\n' rfl, other '\t' rfl]
  have none_of : ∀ ds : List Char, (ds.all fun d => !d.isDigit) = true → c ∉ ds :=
    fun ds all member => other c (by simpa using List.all_eq_true.mp all c member) rfl
  have mark : c ∉ marks := none_of marks (by decide)
  have symbol : c ∉ [':', '=', '<', '>'] := none_of _ (by decide)
  rw [kind, if_neg blank, if_neg (other '"' rfl), if_neg mark, if_neg symbol]

theorem ofWord_of_digit {c : Char} {cs : List Char} (digit : c.isDigit = true) :
    ofWord (c :: cs) = .literal (c :: cs) := by
  have key : Key.all.find? (·.text = c :: cs) = none := by
    apply List.find?_eq_none.mpr
    intro k _ same
    have text : k.text = c :: cs := by simpa using same
    have letter : startsWithDigit k.text = false := by cases k <;> decide
    rw [text] at letter
    exact nomatch letter.symm.trans digit
  have head : Head.all.find? (·.text = c :: cs) = none := by
    apply List.find?_eq_none.mpr
    intro h _ same
    have text : h.text = c :: cs := by simpa using same
    have letter : startsWithDigit h.text = false := by cases h <;> decide
    rw [text] at letter
    exact nomatch letter.symm.trans digit
  have literal : isLiteral (c :: cs) = true := by simp [isLiteral, startsWithDigit, digit]
  simp only [ofWord, key, head, literal, if_true]

end Reading

namespace Value

/-- A scalar that has a text of its own. -/
def Plain : Value → Prop
  | float x => x.toBits ≠ negativeZero
  | array .. | tuple .. => False
  | _ => True

def negative : Value → Bool
  | int n => decide (n.toInt < 0)
  | float x => (classify x).negative
  | _ => false

def word : Value → List Char
  | void => ['n', 'i', 'l']
  | int n => Nat.toDigits 10 n.toInt.natAbs
  | float x => (classify x).body
  | bool b => (boolText b).toList
  | _ => []

def Worded : Value → Prop
  | str _ => False
  | v => v.Plain

variable {v w : Value}

theorem toList_display (worded : v.Worded) :
    v.display.toList = minus v.negative ++ v.word := by
  cases v with
  | void | bool => rfl
  | int n => exact toList_toString_int n.toInt
  | float x => exact Decimal.toList_display worded
  | str | array | tuple => cases worded

theorem digits_word (n : Int64) : ∃ c cs, (int n).word = c :: cs ∧ Digits (c :: cs) := by
  have all := digits_toDigits n.toInt.natAbs
  have some : Nat.toDigits 10 n.toInt.natAbs ≠ [] := Nat.toDigits_ne_nil
  have is : (int n).word = Nat.toDigits 10 n.toInt.natAbs := rfl
  rw [is]
  generalize Nat.toDigits 10 n.toInt.natAbs = cs at all some
  cases cs with
  | nil => exact absurd rfl some
  | cons c cs => exact ⟨c, cs, rfl, all⟩

theorem isWord_word (worded : v.Worded) : IsWord v.word ∧ ofWord v.word = .literal v.word := by
  have known : ∀ {word}, v.word = word → IsWord word → ofWord word = .literal word →
      IsWord v.word ∧ ofWord v.word = .literal v.word := by
    rintro word rfl isWord literal
    exact ⟨isWord, literal⟩
  cases v with
  | void => exact known rfl (isWord_of_all (by decide) (by decide)) (by decide)
  | bool b => cases b <;> exact known rfl (isWord_of_all (by decide) (by decide)) (by decide)
  | int n =>
    obtain ⟨c, cs, is, all⟩ := digits_word n
    obtain ⟨first, others⟩ := List.forall_mem_cons.mp all
    have letters : ∀ d ∈ cs, kind d = .letter := fun d member => kind_of_isDigit (others d member)
    have isWord : IsWord (c :: cs) :=
      ⟨c, cs, rfl, kind_of_isDigit first, fun d member => .inl (letters d member)⟩
    exact known is isWord (ofWord_of_digit first)
  | float x =>
    cases sort : classify x with
    | notANumber =>
      have is : (float x).word = ['N', 'a', 'N'] := congrArg Class.body sort
      exact known is (isWord_of_all (by decide) (by decide)) (by decide)
    | infinite negative =>
      have is : (float x).word = ['i', 'n', 'f'] := congrArg Class.body sort
      exact known is (isWord_of_all (by decide) (by decide)) (by decide)
    | finite negative b =>
      obtain ⟨c, cs, body, looks⟩ := looksFloat_body (normal_of_finite sort)
      have is : (float x).word = c :: cs := (congrArg Class.body sort).trans body
      apply known is _ (ofWord_of_digit looks.starts)
      refine ⟨c, cs, rfl, kind_of_isDigit looks.starts, ?_⟩
      intro d member
      rcases looks.inside d member with digit | rfl | rfl | rfl
      · exact .inl (kind_of_isDigit digit)
      · exact .inl (by decide)
      · exact .inl (by decide)
      · exact .inr rfl
  | str | array | tuple => cases worded

def formOf (word : List Char) : Nat :=
  if word = ['n', 'i', 'l'] then 0
  else if word = ['t', 'r', 'u', 'e'] ∨ word = ['f', 'a', 'l', 's', 'e'] then 1
  else if word.all Char.isDigit then 2
  else 3

def form : Value → Nat
  | void => 0
  | bool _ => 1
  | int _ => 2
  | _ => 3

theorem formOf_numeral {c : Char} {cs : List Char} (digit : c.isDigit = true) :
    formOf (c :: cs) = if (c :: cs).all Char.isDigit then 2 else 3 := by
  have other : ∀ d : Char, d.isDigit = false → c ≠ d := by
    rintro d mark rfl
    exact nomatch mark.symm.trans digit
  simp [formOf, other 'n' rfl, other 't' rfl, other 'f' rfl]

theorem formOf_word (worded : v.Worded) : formOf v.word = v.form := by
  cases v with
  | void => rfl
  | bool b => cases b <;> decide
  | int n =>
    obtain ⟨c, cs, is, all⟩ := digits_word n
    rw [is, formOf_numeral (all c (List.mem_cons_self ..)), if_pos (List.all_eq_true.mpr all)]
    rfl
  | float x =>
    cases sort : classify x with
    | notANumber =>
      have is : (float x).word = ['N', 'a', 'N'] := congrArg Class.body sort
      rw [is]
      rfl
    | infinite negative =>
      have is : (float x).word = ['i', 'n', 'f'] := congrArg Class.body sort
      rw [is]
      rfl
    | finite negative b =>
      obtain ⟨c, cs, body, looks⟩ := looksFloat_body (normal_of_finite sort)
      have is : (float x).word = c :: cs := (congrArg Class.body sort).trans body
      have mixed : ¬ (c :: cs).all Char.isDigit = true := by
        intro all
        have digits := List.all_eq_true.mp all
        rcases looks.marked with point | power
        · exact nomatch digits '.' (List.mem_cons_of_mem _ point)
        · exact nomatch digits 'e' (List.mem_cons_of_mem _ power)
      rw [is, formOf_numeral looks.starts, if_neg mixed]
      rfl
  | str | array | tuple => cases worded

theorem word_injective (worded : v.Worded) (worded' : w.Worded) (same : v.word = w.word)
    (sign : v.negative = w.negative) : v = w := by
  have forms : v.form = w.form :=
    (formOf_word worded).symm.trans ((congrArg formOf same).trans (formOf_word worded'))
  cases v with
  | void =>
    cases w with
    | void => rfl
    | bool | int | float => cases forms
    | str | array | tuple => cases worded'
  | bool b =>
    cases w with
    | bool b' => cases b <;> cases b' <;> first | rfl | exact absurd same (by decide)
    | void | int | float => cases forms
    | str | array | tuple => cases worded'
  | int n =>
    cases w with
    | int m =>
      have digits := congrArg number same
      simp only [word, number_toDigits] at digits
      have signs : n.toInt < 0 ↔ m.toInt < 0 := decide_eq_decide.mp sign
      have values : n.toInt = m.toInt := by omega
      rw [Int64.toInt_inj.mp values]
    | void | bool | float => cases forms
    | str | array | tuple => cases worded'
  | float x =>
    cases w with
    | float y => rw [classify_injective (classBody_injective same sign)]
    | void | bool | int => cases forms
    | str | array | tuple => cases worded'
  | str | array | tuple => cases worded

def tokens : Value → List Token
  | str s => [.text s]
  | v => (if v.negative then [.op .sub] else []) ++ [.literal v.word]

theorem tokens_worded (worded : v.Worded) :
    v.tokens = (if v.negative then [.op .sub] else []) ++ [.literal v.word] := by
  cases v with
  | str => cases worded
  | _ => rfl

theorem spells_worded (worded : v.Worded) : Spells v.display.toList v.tokens := by
  obtain ⟨isWord, literal⟩ := isWord_word worded
  have word : Spells v.word [.literal v.word] := literal ▸ spells_word isWord
  have sign : Closed (minus v.negative) (if v.negative then [.op .sub] else []) := by
    cases v.negative <;> exact fun _ => rfl
  rw [toList_display worded, tokens_worded worded]
  exact sign.spelled word

theorem spells_literal (plain : v.Plain) : Spells (Layout.literal v).toList v.tokens := by
  cases v with
  | str s => exact (closed_quoted s).spells
  | void | int | float | bool => exact spells_worded plain
  | array | tuple => cases plain

end Value

namespace Reading

structure Identifier (name : String) : Prop where
  letters : ∀ c ∈ name.toList, kind c = .letter
  starts : ∃ c cs, name.toList = c :: cs ∧ c.isDigit = false
  free : name.toList ∉ reserved

instance (name : String) : Decidable (Identifier name) :=
  decidable_of_iff ((name.toList.all fun c => decide (kind c = .letter)) = true ∧
      name.toList.head?.any (fun c => !c.isDigit) = true ∧
        (reserved.all fun word => decide (name.toList ≠ word)) = true) <| by
    constructor
    · rintro ⟨letters, starts, free⟩
      have apart : name.toList ∉ reserved := fun member =>
        of_decide_eq_true (List.all_eq_true.mp free _ member) rfl
      refine ⟨by simpa using letters, ?_, apart⟩
      cases is : name.toList with
      | nil => rw [is] at starts; cases starts
      | cons c cs => exact ⟨c, cs, rfl, by simpa [is] using starts⟩
    · rintro ⟨letters, ⟨c, cs, is, letter⟩, free⟩
      have apart : ∀ word ∈ reserved, decide (name.toList ≠ word) = true := fun word member =>
        decide_eq_true fun same => free (same ▸ member)
      exact ⟨by simpa using letters, by simp [is, letter], List.all_eq_true.mpr apart⟩

theorem ofWord_name {name : String} (is : Identifier name) : ofWord name.toList = .name name := by
  obtain ⟨_, ⟨c, cs, starts, letter⟩, free⟩ := is
  rw [reserved, List.mem_append, List.mem_append, not_or, not_or] at free
  obtain ⟨⟨key, head⟩, literal⟩ := free
  have key' : Key.all.find? (·.text = name.toList) = none :=
    List.find?_eq_none.mpr fun k member same =>
      key (List.mem_map.mpr ⟨k, member, by simpa using same⟩)
  have head' : Head.all.find? (·.text = name.toList) = none :=
    List.find?_eq_none.mpr fun h member same =>
      head (List.mem_map.mpr ⟨h, member, by simpa using same⟩)
  have literal' : isLiteral name.toList = false := by
    rw [isLiteral, decide_eq_false literal, Bool.or_false, starts]
    exact letter
  simp only [ofWord, key', head', literal', String.ofList_toList, Bool.false_eq_true, if_false]

theorem spells_name {name : String} (is : Identifier name) : Spells name.toList [.name name] := by
  obtain ⟨c, cs, starts, _⟩ := is.starts
  have letters := is.letters
  rw [starts] at letters
  obtain ⟨first, others⟩ := List.forall_mem_cons.mp letters
  have isWord : IsWord name.toList := ⟨c, cs, starts, first, fun d member => .inl (others d member)⟩
  rw [← ofWord_name is]
  exact spells_word isWord

end Reading
end TypedLet
