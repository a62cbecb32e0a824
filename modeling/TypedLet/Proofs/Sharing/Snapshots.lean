import TypedLet.Proofs.Checking.Leaves
import TypedLet.Proofs.Matching.Faults
import TypedLet.Proofs.Workspace.Reach

/-
What stored scopes are worth later. As long as they are not put back, nothing can touch their
tables, and so they come back as they were. Once they are back, the live scopes stand on these
tables, and what happens to a scope from then on happens to the stored one as well.
-/
namespace TypedLet
namespace Workspace

theorem keepsCount_typePass : typePass.KeepsCount := by
  intro task scopes effect performed
  cases performed
  cases task with
  | check tree => exact congrArg List.length (Tree.leaves_infer tree scopes)
  | checkFn decl => exact congrArg List.length (Expr.leaves_checkFn decl scopes)

inductive Use where
  | checking
  | evaluation

namespace Use

def Info : Use → Type
  | checking => Ty
  | evaluation => Value

def Task : Use → Type
  | checking => TypeTask
  | evaluation => ValueTask

def Result : Use → Type
  | checking => Ty
  | evaluation => ValueResult

def passes : (use : Use) → Nat → Pass use.Info use.Task use.Result
  | checking, _ => typePass
  | evaluation, fuel => valuePass fuel

theorem keepsCount (use : Use) (fuel : Nat) : (use.passes fuel).KeepsCount := by
  cases use with
  | checking => exact keepsCount_typePass
  | evaluation => exact keepsCount_valuePass fuel

end Use

def unreplaced (id : String) : Workspace ι → Command ι τ → Prop := fun _ c => c ≠ .snapshot id

/-- Nothing else is stored under the name, and what is stored there is not put back. -/
def unused (id : String) : Workspace ι → Command ι τ → Prop :=
  fun _ c => c ≠ .snapshot id ∧ c ≠ .restore id

def Part.besides (id : String) : Part where
  usable saved := saved.filter (·.1 ≠ id)
  opens entry saved e member := by
    rw [List.mem_filter] at member
    exact (List.mem_cons.mp member.1).imp_right fun old => List.mem_filter.mpr ⟨old, member.2⟩

theorem keeps_besides (id : String) (w : Workspace ι) (c : Command ι τ) (kept : unused id w c) :
    (Part.besides id).Keeps w c := by
  cases c with
  | restore other =>
    intro entry found
    have named : entry.1 = other := by simpa using List.find?_some found
    have apart : entry.1 ≠ id := fun same => kept.2 (by rw [← named, same])
    exact List.mem_filter.mpr ⟨List.mem_of_find?_eq_some found, by simpa using apart⟩
  | _ => trivial

theorem stored_snapshot_of_ne {id other : String} (w : Workspace ι) (apart : other ≠ id) :
    (w.snapshot other).stored id = w.stored id := by
  simp only [stored, snapshot, List.find?_cons]
  rw [decide_eq_false apart]

theorem stored_respected (id : String) :
    Respected (unreplaced id : Workspace ι → Command ι τ → Prop)
      (fun w after => after.stored id = w.stored id) where
  refl _ := rfl
  trans first second := second.trans first
  enter _ := rfl
  leave run := by
    obtain ⟨_, _, _, ⟨_, rfl⟩ | ⟨_, rfl⟩⟩ := leave_ok run <;> rfl
  write _ _ := rfl
  resume _ _ := rfl
  snapshot {w other} kept := stored_snapshot_of_ne w fun same => kept (by rw [same])
  restore _ run := by
    obtain ⟨_, rfl⟩ := restore_ok run
    rfl
  frame run same := by
    obtain ⟨_, rfl⟩ := enterFrame_ok run
    exact same

section

variable {passes : Nat → Pass ι τ ρ} {rule : Workspace ι → Command ι τ → Prop}
  {w now : Workspace ι} {callers waiting : List (Suspended ι)} {id : String}

theorem stored_of_leads (keeps : ∀ fuel, (passes fuel).KeepsCount)
    (leads : Leads passes (unreplaced id) w callers now waiting) :
    now.stored id = w.stored id := by
  induction leads with
  | here => rfl
  | @run now waiting fuel c r _ along ran ih =>
    exact (respected_run (stored_respected id) (keeps fuel) c along ran).trans ih
  | frame _ entered ih =>
    obtain ⟨_, rfl⟩ := enterFrame_ok entered
    exact ih
  | back _ ih => exact ih

theorem stored_snapshot (w : Workspace ι) (id : String) :
    (w.snapshot id).stored id = (List.range w.depth).map (w.next + ·) := by
  simp [stored, snapshot]

theorem map_table_snapshot (w : Workspace ι) (id : String) :
    ((w.snapshot id).stored id).map (w.snapshot id).table = w.scopes := by
  have grown : (w.snapshot id).tables = w.tables ++ w.scopes := rfl
  have found := map_table_new grown
  rwa [length_scopes, ← next, ← stored_snapshot w id] at found

theorem notMem_reachAll_snapshot (bound : ∀ n ∈ w.reachAll .whole callers, n < w.next) :
    ∀ n ∈ (w.snapshot id).stored id, n ∉ (w.snapshot id).reachAll (.besides id) callers := by
  intro n member within
  rw [stored_snapshot] at member
  have new := (mem_new member).1
  suffices old : n ∈ w.reachAll .whole callers by
    have := bound n old
    omega
  rw [mem_reachAll] at within ⊢
  refine within.imp_left fun reached => ?_
  rcases mem_reach.mp reached with live | ⟨entry, usable, inside⟩
  · exact mem_reach_of_live live
  · obtain ⟨listed, apart⟩ := List.mem_filter.mp usable
    rcases List.mem_cons.mp listed with rfl | before
    · simp at apart
    · exact mem_reach.mpr (.inr ⟨entry, before, inside⟩)

/-- While the stored scopes are not put back, their tables stay as they are. -/
theorem table_of_unused (keeps : ∀ fuel, (passes fuel).KeepsCount)
    (reached : Leads passes freely start [] w callers)
    (later : Leads passes (unused id) (w.snapshot id) callers now waiting) :
    ∀ n ∈ (w.snapshot id).stored id, now.table n = (w.snapshot id).table n := by
  intro n member
  apply (keepsTo_of_leads keeps (keeps_besides id) later).same n
  · rw [stored_snapshot] at member
    rw [next_snapshot]
    exact (mem_new member).2
  · exact notMem_reachAll_snapshot (bound_of_leads keeps reached) n member

end

/-- Stored scopes can be put back whenever there are as many live ones. They come back as they
    were when nothing has put them back since, and in general exactly when each of their tables
    holds what it held. While the live scopes stand on these tables, as they do once the stored
    scopes are back, putting them back again changes nothing, whatever was declared or assigned
    since. -/
theorem restore_snapshot (use : Use) {w now : Workspace use.Info}
    {callers waiting : List (Suspended use.Info)} {id : String}
    (reached : Leads use.passes freely start [] w callers)
    (later : Leads use.passes (unreplaced id) (w.snapshot id) callers now waiting)
    (deep : now.depth = w.depth) :
    ∃ back, now.restore id = .ok back ∧
      (Leads use.passes (unused id) (w.snapshot id) callers now waiting →
        back.scopes = w.scopes) ∧
      (back.scopes = w.scopes ↔
        ∀ n ∈ now.stored id, now.table n = (w.snapshot id).table n) ∧
      (now.live = now.stored id → back = now) := by
  have same := stored_of_leads use.keepsCount later
  have count : (now.stored id).length = now.depth := by
    rw [same, stored_snapshot, List.length_map, List.length_range, deep]
  have tables : (now.stored id).map now.table = w.scopes ↔
      ∀ n ∈ now.stored id, now.table n = (w.snapshot id).table n := by
    rw [← map_table_snapshot w id, ← same, List.map_inj_left]
  refine ⟨{ now with live := now.stored id }, if_pos count, ?_, tables, ?_⟩
  · intro spared
    apply tables.mpr
    rw [same]
    exact table_of_unused use.keepsCount reached spared
  · intro live
    rw [← live]

/-- The variable of one scope is 0 when the scope is stored. The scope is put back, 1 is
    assigned, and the scope is put back again: the variable is still 1. -/
theorem restore_snapshot_twice :
    ∃ now back : Workspace Value,
      Leads valuePass (unreplaced "s") (holding.snapshot "s") [] now [] ∧
      now.depth = holding.depth ∧ now.restore "s" = .ok back ∧ back.scopes ≠ holding.scopes := by
  have later : Leads valuePass (unreplaced "s") (holding.snapshot "s") [] _ [] :=
    leads_runAll 0 [.restore "s", .assign "x" (.int 1)] .here
      ⟨nofun, fun _ _ _ _ => ⟨nofun, fun _ _ _ _ => trivial⟩⟩ rfl
  obtain ⟨back, run, _, _, stays⟩ :=
    restore_snapshot .evaluation (leads_of_reached reached_holding) later rfl
  refine ⟨_, back, later, rfl, run, fun same => ?_⟩
  rw [stays rfl] at same
  let read (scopes : Scopes Value) : Option Value := (scopes.findVar "x").map (·.info)
  have equal : some (Value.int 1) = some (Value.int 0) := congrArg read same
  cases equal

end Workspace
end TypedLet
