import TypedLet.Environment.Action

/-
A workspace is an environment with a history: scopes can be stored under a name
and put back. What a scope holds stands in a numbered table. Storing copies the
tables, but putting back does not, so from then on the live scopes and the
stored ones share them, and a later change shows through when the same stored
scopes are put back again.

While a frame runs, the live scopes are the outermost scopes of the caller, the
`kept` ones, and those of the frame above them. A kept scope that the frame
leaves goes to `left`, for the caller still has it.
-/
namespace TypedLet

structure Workspace (ι : Type) where
  tables : List (Scope ι)
  live : List Nat
  saved : List (String × List Nat)
  kept : Nat
  left : List Nat

namespace Workspace

variable (w : Workspace ι)

def start : Workspace ι := ⟨[], [], [], 0, []⟩

def depth : Nat := w.live.length

def table (n : Nat) : Scope ι := w.tables[n]?.getD Scope.empty

/-- What the live scopes hold, innermost first. -/
def scopes : Scopes ι := w.live.map w.table

/-- The number the next new table gets. -/
def next : Nat := w.tables.length

def enter : Workspace ι :=
  { w with tables := w.tables ++ [Scope.empty], live := w.next :: w.live }

def leave : Except Error (Workspace ι) :=
  match w.live with
  | [] => .error (.internal .noScopeToLeave none)
  | top :: outer =>
    if w.live.length = w.kept then
      .ok { w with live := outer, kept := w.kept - 1, left := w.left ++ [top] }
    else .ok { w with live := outer }

/-- Writes what the live scopes hold into their tables. -/
def write : List Nat → Scopes ι → List (Scope ι) → List (Scope ι)
  | n :: ns, s :: ss, tables => write ns ss (tables.set n s)
  | _, _, tables => tables

def withScopes (scopes : Scopes ι) : Workspace ι :=
  { w with tables := write w.live scopes w.tables }

/-- Takes over the scopes after a run that gave some tables up: these get their
    last contents, and their scopes, the outermost ones, move to new tables. -/
def resume (scopes abandoned : Scopes ι) : Workspace ι :=
  let count := abandoned.length
  let stay := w.live.take (w.live.length - count)
  let moved := w.live.drop (w.live.length - count)
  let tables := write moved abandoned (write stay scopes w.tables)
  { w with
    tables := tables ++ scopes.outermost count
    live := stay ++ (List.range count).map (tables.length + ·) }

/-- Stores copies of the live scopes. -/
def snapshot (id : String) : Workspace ι :=
  { w with
    tables := w.tables ++ w.scopes
    saved := (id, (List.range w.depth).map (w.next + ·)) :: w.saved }

/-- The tables stored under a name; none if nothing was. -/
def stored (id : String) : List Nat :=
  ((w.saved.find? (·.1 = id)).map (·.2)).getD []

/-- Puts stored scopes back by letting the live scopes stand on their tables. -/
def restore (id : String) : Except Error (Workspace ι) :=
  let stored := w.stored id
  if stored.length = w.depth then .ok { w with live := stored }
  else .error (.internal (.snapshotDepth stored.length w.depth) none)

/-- The workspace in a frame on the `depth` outermost scopes. -/
def enterFrame (depth : Int) : Except Error (Workspace ι) :=
  match w.scopes.checkFrame depth with
  | .ok d =>
    .ok (enter { w with live := w.live.drop (w.live.length - d), kept := d, left := [] })
  | .error e => .error e

/-- The caller's workspace again, after the frame has ended as `inner`. -/
def leaveFrame (inner : Workspace ι) (depth : Nat) : Workspace ι :=
  let shared := inner.left ++ inner.live.drop (inner.live.length - inner.kept)
  { inner with
    live := w.live.take (w.live.length - depth) ++ shared
    kept := w.kept
    left := w.left }

/-- Runs an action on the live scopes. -/
def act (x : Action ι α) : Except Error α × Workspace ι :=
  match x w.scopes with
  | (result, scopes) => (result, w.withScopes scopes)

end Workspace
end TypedLet
