import TypedLet.Proofs.Environment.Lookup
import TypedLet.Workspace.Basic

/-
The tables of a workspace. Writing the live scopes back changes the tables they
stand on and no others, as long as no two live scopes stand on one table. A
match that fails writes its assignments into the old tables and puts the scopes
as they were into new ones.
-/
namespace TypedLet
namespace Workspace

theorem length_write : ∀ (ns : List Nat) (scopes : Scopes ι) (tables : List (Scope ι)),
    (write ns scopes tables).length = tables.length
  | n :: ns, s :: ss, tables => by rw [write, length_write ns ss, List.length_set]
  | [], scopes, tables => by rw [write]; nofun
  | n :: ns, [], tables => by rw [write]; nofun

theorem getElem?_write_of_notMem {n : Nat} : ∀ (ns : List Nat) (scopes : Scopes ι)
    (tables : List (Scope ι)), n ∉ ns → (write ns scopes tables)[n]? = tables[n]?
  | m :: ns, s :: ss, tables, absent => by
    have apart : m ≠ n := fun same => absent (same ▸ List.mem_cons_self)
    have rest : n ∉ ns := fun member => absent (List.mem_cons_of_mem m member)
    rw [write, getElem?_write_of_notMem ns ss _ rest, List.getElem?_set_ne apart]
  | [], scopes, tables, absent => by rw [write]; nofun
  | m :: ns, [], tables, absent => by rw [write]; nofun

theorem map_write : ∀ (ns : List Nat) (scopes : Scopes ι) (tables : List (Scope ι)),
    ns.Nodup → (∀ n ∈ ns, n < tables.length) → scopes.length = ns.length →
      ns.map (fun n => (write ns scopes tables)[n]?.getD Scope.empty) = scopes
  | [], [], tables, nodup, bound, count => rfl
  | [], s :: ss, tables, nodup, bound, count => by simp at count
  | n :: ns, [], tables, nodup, bound, count => by simp at count
  | n :: ns, s :: ss, tables, nodup, bound, count => by
    obtain ⟨first, others⟩ := List.nodup_cons.mp nodup
    have fits : n < tables.length := bound n List.mem_cons_self
    have inside : ∀ m ∈ ns, m < (tables.set n s).length := by
      intro m member
      rw [List.length_set]
      exact bound m (List.mem_cons_of_mem n member)
    have fewer : ss.length = ns.length := by simpa using count
    have rest := map_write ns ss (tables.set n s) others inside fewer
    have head : (write ns ss (tables.set n s))[n]? = some s := by
      rw [getElem?_write_of_notMem ns ss _ first, List.getElem?_set_self fits]
    rw [List.map_cons, write, head, rest]
    rfl

section

variable {w : Workspace ι} {scopes : Scopes ι}

@[simp] theorem next_withScopes : (w.withScopes scopes).next = w.next :=
  length_write w.live scopes w.tables

theorem table_withScopes_of_notMem {n : Nat} (absent : n ∉ w.live) :
    (w.withScopes scopes).table n = w.table n := by
  rw [table, withScopes, getElem?_write_of_notMem w.live scopes w.tables absent]
  rfl

theorem scopes_withScopes (nodup : w.live.Nodup) (bound : ∀ n ∈ w.live, n < w.next)
    (count : scopes.length = w.depth) : (w.withScopes scopes).scopes = scopes :=
  map_write w.live scopes w.tables nodup bound count

theorem length_scopes : w.scopes.length = w.depth := List.length_map _

def undo (w : Workspace ι) (tried : Scopes ι) : Workspace ι := w.resume w.scopes tried

theorem tables_undo {tried : Scopes ι} (count : tried.length = w.depth) :
    (w.undo tried).tables = (w.withScopes tried).tables ++ w.scopes := by
  have whole : w.scopes.outermost w.depth = w.scopes := by
    rw [← length_scopes, Scopes.outermost_all]
  have none : w.live.length - w.live.length = 0 := Nat.sub_self _
  simp only [undo, resume, count, depth, none, List.take_zero, List.drop_zero, withScopes]
  rw [depth] at whole
  rw [whole]
  rfl

theorem live_undo {tried : Scopes ι} (count : tried.length = w.depth) :
    (w.undo tried).live = (List.range w.depth).map (w.next + ·) := by
  have none : w.live.length - w.live.length = 0 := Nat.sub_self _
  simp only [undo, resume, count, depth, none, List.take_zero, List.drop_zero, List.nil_append,
    length_write]
  rfl

theorem table_undo_of_lt {tried : Scopes ι} (count : tried.length = w.depth) {n : Nat}
    (old : n < w.next) : (w.undo tried).table n = (w.withScopes tried).table n := by
  have inside : n < (w.withScopes tried).tables.length := by
    rw [← next, next_withScopes]
    exact old
  rw [table, tables_undo count, List.getElem?_append_left inside]
  rfl

theorem map_table_new {tables : List (Scope ι)} (grown : w.tables = tables ++ scopes) :
    ((List.range scopes.length).map (tables.length + ·)).map w.table = scopes := by
  apply List.ext_getElem?
  intro i
  rw [List.map_map, List.getElem?_map]
  by_cases inside : i < scopes.length
  · simp only [List.getElem?_range inside, Option.map_some, Function.comp_apply, table, grown]
    rw [List.getElem?_append_right (Nat.le_add_right _ _), Nat.add_sub_cancel_left,
      List.getElem?_eq_getElem inside]
    rfl
  · rw [List.getElem?_eq_none (Nat.le_of_not_lt inside),
      List.getElem?_eq_none (by simpa using inside)]
    rfl

theorem scopes_undo {tried : Scopes ι} (count : tried.length = w.depth) :
    (w.undo tried).scopes = w.scopes := by
  have new : (w.withScopes tried).tables.length = w.next := next_withScopes
  have found := map_table_new (tables_undo count)
  rwa [new, length_scopes, ← live_undo count] at found

end
end Workspace
end TypedLet
