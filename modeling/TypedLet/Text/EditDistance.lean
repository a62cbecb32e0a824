/-
The edit distance of two texts: the least number of insertions, deletions and
substitutions of single items that turn one into the other. It is computed row
by row, where the entry for the first j items of the shorter text in row i is
its distance to the first i items of the longer one.
-/
namespace TypedLet.Text.EditDistance

variable {α : Type} [DecidableEq α]

/-- The rest of the row for one more item `a`: `diagonal` is the entry up and to
    the left, `left` the entry just made. -/
def stepFrom (a : α) : List α → Nat → Nat → List Nat → List Nat
  | b :: bs, diagonal, left, up :: ups =>
    let here := min (min (up + 1) (left + 1)) (diagonal + if a = b then 0 else 1)
    here :: stepFrom a bs up here ups
  | _, _, _, _ => []

/-- The row below a row. -/
def step (row : List α) (entries : List Nat) (a : α) : List Nat :=
  match entries with
  | first :: rest => (first + 1) :: stepFrom a row first (first + 1) rest
  | [] => []

def lastRow (long short : List α) : List Nat :=
  long.foldl (step short) (List.range (short.length + 1))

def distance (s t : List α) : Nat :=
  let (long, short) := if s.length < t.length then (t, s) else (s, t)
  (lastRow long short).getLast?.getD 0

end TypedLet.Text.EditDistance
