/-
Spans of the program text. A span is a pair of byte offsets, as the reader of
the text recorded them; nothing here asks that they are ordered or in range.
-/
namespace TypedLet

structure Span where
  start : Int
  stop : Int
deriving DecidableEq, Repr

def Span.display (s : Span) : String := toString s.start ++ ".." ++ toString s.stop

/-- A message, led by the span it speaks of when there is one. -/
def Span.label (span : Option Span) (message : String) : String :=
  match span with
  | some s => "[" ++ s.display ++ "] " ++ message
  | none => message

end TypedLet
