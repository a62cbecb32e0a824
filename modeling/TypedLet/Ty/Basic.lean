import TypedLet.Text.Joined

/-
The types of the language. A type is one of five scalars, an array of one
element type, or a tuple of any number of element types. Types compare by
structure.
-/
namespace TypedLet

inductive Ty where
  | void | integer | float | bool | str
  | array (element : Ty)
  | tuple (elements : List Ty)
deriving Inhabited, Repr

namespace Ty

mutual
/-- Decides structural equality. -/
def same : Ty → Ty → Bool
  | void, void | integer, integer | float, float | bool, bool | str, str => true
  | array a, array b => a.same b
  | tuple as, tuple bs => sameAll as bs
  | _, _ => false
def sameAll : List Ty → List Ty → Bool
  | [], [] => true
  | a :: as, b :: bs => a.same b && sameAll as bs
  | _, _ => false
end

mutual
theorem same_iff : ∀ a b : Ty, a.same b = true ↔ a = b
  | void, b | integer, b | float, b | bool, b | str, b => by cases b <;> simp [same]
  | array a, b => by
    cases b with
    | array c => simp [same, same_iff a c]
    | _ => simp [same]
  | tuple as, b => by
    cases b with
    | tuple cs => simp [same, sameAll_iff as cs]
    | _ => simp [same]
theorem sameAll_iff : ∀ as bs : List Ty, sameAll as bs = true ↔ as = bs
  | [], bs => by cases bs <;> simp [sameAll]
  | a :: as, bs => by
    cases bs with
    | nil => simp [sameAll]
    | cons b bs => simp [sameAll, same_iff a b, sameAll_iff as bs]
end

instance : DecidableEq Ty := fun a b => decidable_of_iff _ (same_iff a b)

mutual
def display : Ty → String
  | void => "Void"
  | integer => "Integer"
  | float => "Float"
  | bool => "Bool"
  | str => "Str"
  | array t => "Array(" ++ t.display ++ ")"
  | tuple ts => "Tuple(" ++ Text.joined ", " (displayAll ts) ++ ")"
def displayAll : List Ty → List String
  | [] => []
  | t :: ts => t.display :: displayAll ts
end

theorem displayAll_eq_map (ts : List Ty) : displayAll ts = ts.map display := by
  induction ts with
  | nil => rfl
  | cons t ts ih => simp [displayAll, ih]

/-- Types in a row, as argument lists show them. -/
def displayList (ts : List Ty) : String := Text.joined ", " (ts.map display)

end Ty
end TypedLet
