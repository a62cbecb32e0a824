import Mathlib.Order.Bounds.Basic

/-
Single edits of a text and the least number of them that leads from one text to another. The
usual recursion looks at the first characters of both texts: one of them is inserted or
deleted, or one takes the place of the other. Main statement: it gives the least number. The
number does not depend on the direction in which the texts are read, nor on which of the two
is edited.
-/
namespace TypedLet.Text

variable {α : Type} {s t u : List α} {n : Nat}

inductive Edit : List α → List α → Prop
  | insert (a : α) (s : List α) : Edit s (a :: s)
  | delete (a : α) (s : List α) : Edit (a :: s) s
  | substitute (a b : α) (s : List α) : Edit (a :: s) (b :: s)
  | further {s t : List α} (a : α) (later : Edit s t) : Edit (a :: s) (a :: t)

inductive Edits : Nat → List α → List α → Prop
  | none (s : List α) : Edits 0 s s
  | more {n : Nat} {s t u : List α} (first : Edit s t) (others : Edits n t u) : Edits (n + 1) s u

theorem Edit.append_left (u : List α) (edit : Edit s t) : Edit (u ++ s) (u ++ t) := by
  induction u with
  | nil => exact edit
  | cons a u ih => exact .further a ih

theorem Edit.append_right (u : List α) (edit : Edit s t) : Edit (s ++ u) (t ++ u) := by
  induction edit with
  | insert a s => exact .insert a (s ++ u)
  | delete a s => exact .delete a (s ++ u)
  | substitute a b s => exact .substitute a b (s ++ u)
  | further a later ih => exact .further a ih

theorem Edit.reverse (edit : Edit s t) : Edit s.reverse t.reverse := by
  induction edit with
  | insert a s => simpa using append_left s.reverse (.insert a [])
  | delete a s => simpa using append_left s.reverse (.delete a [])
  | substitute a b s => simpa using append_left s.reverse (.substitute a b [])
  | further a later ih => simpa using append_right [a] ih

theorem Edits.further (a : α) (edits : Edits n s t) : Edits n (a :: s) (a :: t) := by
  induction edits with
  | none s => exact .none (a :: s)
  | more first others ih => exact .more (.further a first) ih

theorem Edits.reverse (edits : Edits n s t) : Edits n s.reverse t.reverse := by
  induction edits with
  | none s => exact .none s.reverse
  | more first others ih => exact .more first.reverse ih

theorem Edits.min {m n : Nat} (edits : Edits m s t) (others : Edits n s t) :
    Edits (min m n) s t := by
  by_cases fewer : m ≤ n
  · simpa [Nat.min_eq_left fewer] using edits
  · simpa [Nat.min_eq_right (Nat.le_of_not_le fewer)] using others

theorem edits_from_nil (t : List α) : Edits t.length [] t := by
  induction t with
  | nil => exact .none []
  | cons b t ih => exact .more (.insert b []) (ih.further b)

theorem edits_to_nil (s : List α) : Edits s.length s [] := by
  induction s with
  | nil => exact .none []
  | cons a s ih => exact .more (.delete a s) ih

theorem Edit.length_le (edit : Edit s t) :
    s.length ≤ t.length + 1 ∧ t.length ≤ s.length + 1 := by
  induction edit with
  | insert a s | delete a s | substitute a b s =>
    simp only [List.length_cons]
    omega
  | further a later ih =>
    simp only [List.length_cons]
    omega

theorem Edits.length_le (edits : Edits n s t) :
    s.length ≤ t.length + n ∧ t.length ≤ s.length + n := by
  induction edits with
  | none s => exact ⟨Nat.le_refl _, Nat.le_refl _⟩
  | more first others ih =>
    have here := first.length_le
    omega

variable [DecidableEq α]

/-- The least number of edits, by recursion on the ends of the texts. -/
def leastEdits : List α → List α → Nat
  | [], t => t.length
  | a :: s, [] => (a :: s).length
  | a :: s, b :: t =>
    min (min (leastEdits s (b :: t) + 1) (leastEdits (a :: s) t + 1))
      (leastEdits s t + if a = b then 0 else 1)
termination_by s t => s.length + t.length

theorem leastEdits_nil (s : List α) : leastEdits s [] = s.length := by
  cases s <;> simp [leastEdits]

theorem leastEdits_comm (s t : List α) : leastEdits s t = leastEdits t s := by
  fun_induction leastEdits s t with
  | case1 t => exact (leastEdits_nil t).symm
  | case2 a s => simp [leastEdits]
  | case3 a s b t deleted inserted replaced =>
    rw [leastEdits, deleted, inserted, replaced, min_comm (leastEdits (b :: t) s + 1)]
    simp [eq_comm]

section Bounds

variable (a b : α) (s t : List α)

theorem leastEdits_cons_left : leastEdits (a :: s) t ≤ leastEdits s t + 1 := by
  cases t with
  | nil => simp [leastEdits_nil]
  | cons b t =>
    rw [leastEdits]
    omega

theorem leastEdits_cons_right : leastEdits s (b :: t) ≤ leastEdits s t + 1 := by
  rw [leastEdits_comm s, leastEdits_comm s]
  exact leastEdits_cons_left b t s

theorem leastEdits_cons_cons :
    leastEdits (a :: s) (b :: t) ≤ leastEdits s t + if a = b then 0 else 1 := by
  rw [leastEdits]
  omega

theorem leastEdits_self : leastEdits s s = 0 := by
  induction s with
  | nil => simp [leastEdits]
  | cons a s ih => simpa [ih] using leastEdits_cons_cons a a s s

end Bounds

theorem leastEdits_le_of_edit (edit : Edit s t) (u : List α) :
    leastEdits s u ≤ leastEdits t u + 1 := by
  -- On the edit, which may stand behind equal characters, and then on the text it is compared to.
  induction edit generalizing u with
  | delete a s => exact leastEdits_cons_left a s u
  | insert a s =>
    induction u with
    | nil =>
      simp only [leastEdits_nil, List.length_cons]
      omega
    | cons c u ih =>
      have inserted := leastEdits_cons_right c s u
      simp only [leastEdits]
      omega
  | substitute a b s =>
    induction u with
    | nil => simp [leastEdits_nil]
    | cons c u ih =>
      simp only [leastEdits]
      split <;> omega
  | further a later earlier =>
    induction u with
    | nil => simpa [leastEdits_nil] using earlier []
    | cons c u ih =>
      have here := earlier (c :: u)
      have behind := earlier u
      simp only [leastEdits]
      omega

theorem leastEdits_le_of_edits (edits : Edits n s t) : leastEdits s t ≤ n := by
  induction edits with
  | none s => simp [leastEdits_self]
  | @more n s t u first others ih =>
    have nearer := leastEdits_le_of_edit first u
    omega

/-- There are as many edits as the recursion says: where two first characters meet, one of
    the three possibilities costs the least. -/
theorem edits_leastEdits (s t : List α) : Edits (leastEdits s t) s t := by
  fun_induction leastEdits s t with
  | case1 t => exact edits_from_nil t
  | case2 a s => exact edits_to_nil (a :: s)
  | case3 a s b t deleted inserted replaced =>
    have deleting := Edits.more (.delete a s) deleted
    have inserting := Edits.more (.insert b (a :: s)) (inserted.further b)
    have replacing : Edits (leastEdits s t + if a = b then 0 else 1) (a :: s) (b :: t) := by
      by_cases same : a = b
      · simpa [same] using replaced.further b
      · simpa [same] using Edits.more (.substitute a b s) (replaced.further b)
    exact (deleting.min inserting).min replacing

theorem leastEdits_isLeast (s t : List α) : IsLeast {n | Edits n s t} (leastEdits s t) :=
  ⟨edits_leastEdits s t, fun _ edits => leastEdits_le_of_edits edits⟩

theorem leastEdits_reverse (s t : List α) : leastEdits s.reverse t.reverse = leastEdits s t := by
  apply le_antisymm
  · exact leastEdits_le_of_edits (edits_leastEdits s t).reverse
  · have back := (edits_leastEdits s.reverse t.reverse).reverse
    simp only [List.reverse_reverse] at back
    exact leastEdits_le_of_edits back

end TypedLet.Text
