/-
Quoted strings. A backslash, a quote, a line feed, a tab and a carriage return
are written as two characters that start with a backslash, and every other
character stands for itself.
-/
namespace TypedLet.Text

namespace Quoted

/-- How one character is written between the quotes. -/
def escape (c : Char) : List Char :=
  if c = '\\' then ['\\', '\\']
  else if c = '"' then ['\\', '"']
  else if c = '\n' then ['\\', 'n']
  else if c = '\t' then ['\\', 't']
  else if c = '\r' then ['\\', 'r']
  else [c]

def escapeAll (s : List Char) : List Char := s.flatMap escape

/-- No line feed, tab or carriage return is left as it is. -/
theorem not_mem_escape {c d : Char} (h : d ∈ escape c) : d ≠ '\n' ∧ d ≠ '\t' ∧ d ≠ '\r' := by
  unfold escape at h
  repeat' split at h
  all_goals simp_all
  all_goals rcases h with rfl | rfl <;> decide

def encode (s : List Char) : List Char := '"' :: escapeAll s ++ ['"']

end Quoted

/-- The string as a literal of the language. -/
def quoted (s : String) : String := String.ofList (Quoted.encode s.toList)

end TypedLet.Text
