import TypedLet.Span
import TypedLet.Text.Encoding

/-
Positions as editors count them: a line, and in it a number of UTF-16 code
units. Spans count the bytes of the text in UTF-8. An offset before the text
stands for its start and one behind it for its end. What an offset leaves of a
character that it cuts in two is no character and is not counted.
-/
namespace TypedLet.Editor

open Text

structure Position where
  line : Nat
  character : Nat
deriving DecidableEq, Repr

structure Range where
  start : Position
  stop : Position
deriving DecidableEq, Repr

/-- The characters in the first bytes of the text. -/
def upTo (offset : Int) (source : List Char) : List Char :=
  Utf8.decode ((Utf8.encode source).take offset.toNat)

/-- What follows the last line feed. -/
def lastLine (cs : List Char) : List Char := (cs.reverse.takeWhile (· ≠ '\n')).reverse

/-- The position behind the given text. -/
def behind (cs : List Char) : Position :=
  ⟨cs.count '\n', (Utf16.encode (lastLine cs)).length⟩

def position (source : String) (offset : Int) : Position := behind (upTo offset source.toList)

def range (source : String) (span : Span) : Range :=
  ⟨position source span.start, position source span.stop⟩

end TypedLet.Editor
