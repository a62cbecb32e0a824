/-
Joining texts with a separator between neighbours, none at the ends.
-/
namespace TypedLet.Text

def joined (separator : String) : List String → String
  | [] => ""
  | [t] => t
  | t :: u :: rest => t ++ separator ++ joined separator (u :: rest)

theorem joined_cons (sep t : String) (rest : List String) (h : rest ≠ []) :
    joined sep (t :: rest) = t ++ sep ++ joined sep rest := by
  cases rest with
  | nil => exact absurd rfl h
  | cons u r => rfl

end TypedLet.Text
