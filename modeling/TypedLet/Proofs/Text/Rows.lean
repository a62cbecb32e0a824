import TypedLet.Text.EditDistance
import TypedLet.Proofs.Text.Edits

/-
The rows in which the edit distance is computed. The row for the start of one text holds its
distances to all starts of the other, the empty one first. A start is held with its last
character first, so that a row leads to the next as the recursion on the first characters
does. Main statement: the entry in the corner of the last row is the least number of edits.
-/
namespace TypedLet.Text.EditDistance

variable {α : Type} [DecidableEq α]

/-- The distances of `s` to the starts that go on behind `done`, all with the last character
    first. -/
def entriesFrom (s done : List α) : List α → List Nat
  | [] => []
  | b :: bs => leastEdits s (b :: done) :: entriesFrom s (b :: done) bs

def entries (s row : List α) : List Nat := leastEdits s [] :: entriesFrom s [] row

theorem entriesFrom_nil (done bs : List α) :
    entriesFrom [] done bs = List.range' (done.length + 1) bs.length := by
  induction bs generalizing done with
  | nil => rfl
  | cons b bs ih => simp [entriesFrom, leastEdits, ih, List.range'_succ]

theorem entries_nil (row : List α) : entries [] row = List.range (row.length + 1) := by
  simp [entries, leastEdits, entriesFrom_nil, List.range_eq_range', List.range'_succ]

/-- Each new entry comes from its three neighbours as the recursion says. -/
theorem stepFrom_entriesFrom (a : α) (s done bs : List α) :
    stepFrom a bs (leastEdits s done) (leastEdits (a :: s) done) (entriesFrom s done bs) =
      entriesFrom (a :: s) done bs := by
  induction bs generalizing done with
  | nil => rfl
  | cons b bs ih =>
    have here : leastEdits (a :: s) (b :: done) =
        min (min (leastEdits s (b :: done) + 1) (leastEdits (a :: s) done + 1))
          (leastEdits s done + if a = b then 0 else 1) := by
      rw [leastEdits]
    simp only [entriesFrom, stepFrom, ← here, ih]

theorem step_entries (row s : List α) (a : α) :
    step row (entries s row) a = entries (a :: s) row := by
  have first : leastEdits (a :: s) [] = leastEdits s [] + 1 := by simp [leastEdits_nil]
  simp only [entries, step, ← first, stepFrom_entriesFrom]

theorem foldl_step (row long s : List α) :
    long.foldl (step row) (entries s row) = entries (long.reverse ++ s) row := by
  induction long generalizing s with
  | nil => rfl
  | cons a long ih => simp [step_entries, ih]

theorem lastRow_eq (long short : List α) : lastRow long short = entries long.reverse short := by
  have rows := foldl_step short long []
  simpa [lastRow, entries_nil] using rows

theorem getLast?_entriesFrom (s done bs : List α) :
    (leastEdits s done :: entriesFrom s done bs).getLast? =
      some (leastEdits s (bs.reverse ++ done)) := by
  induction bs generalizing done with
  | nil => rfl
  | cons b bs ih => simp [entriesFrom, List.getLast?_cons_cons, ih]

theorem getLast?_lastRow (long short : List α) :
    (lastRow long short).getLast? = some (leastEdits long short) := by
  rw [lastRow_eq, entries, getLast?_entriesFrom, List.append_nil, leastEdits_reverse]

theorem distance_eq (s t : List α) : distance s t = leastEdits s t := by
  by_cases shorter : s.length < t.length
  · simp [distance, shorter, getLast?_lastRow, leastEdits_comm]
  · simp [distance, shorter, getLast?_lastRow]

/-- The distance of two texts, of characters or of anything that can be told apart, is the
    least number of insertions, deletions and substitutions that turn the one into the other.
    It is also what the recursion on the first characters of both gives. -/
theorem distance_isLeast (s t : List α) :
    IsLeast {n | Edits n s t} (distance s t) ∧ distance s t = leastEdits s t := by
  refine ⟨?_, distance_eq s t⟩
  rw [distance_eq]
  exact leastEdits_isLeast s t

end TypedLet.Text.EditDistance
