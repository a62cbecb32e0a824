import TypedLet.Proofs.Environment.Lasting
import TypedLet.Proofs.Workspace.Callers

/-
What lasts of the tables of a workspace. Every scope stands on a table: those of the frame, those
of its callers, those that were left and those in store. So a property that lasts through the
operations on scopes is had by all of them, wherever commands lead, as long as the tasks keep it.
-/
namespace TypedLet
namespace Workspace

def All (P : Scope ι → Prop) (w : Workspace ι) : Prop := ∀ s ∈ w.tables, P s

structure Pass.Lasts (P : Scope ι → Prop) (pass : Pass ι τ ρ) : Prop where
  assign : ∀ name v scopes, (∀ s ∈ scopes, P s) → ∀ s ∈ (pass.assign name v scopes).2, P s
  perform : ∀ task scopes effect, (∀ s ∈ scopes, P s) → pass.perform task scopes = some effect →
    (∀ s ∈ effect.scopes, P s) ∧ ∀ s ∈ effect.abandoned, P s

section

variable {P : Scope ι → Prop} {w after inner : Workspace ι}

theorem forall_mem_write : ∀ {ns : List Nat} {scopes : Scopes ι} {tables : List (Scope ι)},
    (∀ s ∈ tables, P s) → (∀ s ∈ scopes, P s) → ∀ s ∈ write ns scopes tables, P s
  | n :: ns, s :: ss, tables, all, new => by
    obtain ⟨here, further⟩ := List.forall_mem_cons.mp new
    have set : ∀ t ∈ tables.set n s, P t := by
      intro t member
      rcases List.mem_or_eq_of_mem_set member with old | rfl
      · exact all t old
      · exact here
    rw [write]
    exact forall_mem_write set further
  | [], scopes, tables, all, new => by
    cases scopes <;> exact all
  | n :: ns, [], tables, all, new => all

theorem All.table (all : w.All P) (empty : P .empty) (n : Nat) : P (w.table n) := by
  rw [Workspace.table]
  cases held : w.tables[n]? with
  | none => exact empty
  | some s => exact all s (List.mem_of_getElem? held)

theorem All.scopes (all : w.All P) (empty : P .empty) : ∀ s ∈ w.scopes, P s := by
  intro s member
  obtain ⟨n, _, rfl⟩ := List.mem_map.mp member
  exact all.table empty n

theorem All.withScopes {scopes : Scopes ι} (all : w.All P) (new : ∀ s ∈ scopes, P s) :
    (w.withScopes scopes).All P := forall_mem_write all new

theorem All.enter (all : w.All P) (empty : P .empty) : w.enter.All P :=
  List.forall_mem_append.mpr ⟨all, List.forall_mem_singleton.mpr empty⟩

theorem All.leave (all : w.All P) (run : w.leave = .ok after) : after.All P := by
  obtain ⟨_, _, _, ⟨_, rfl⟩ | ⟨_, rfl⟩⟩ := leave_ok run <;> exact all

theorem All.snapshot (all : w.All P) (empty : P .empty) (id : String) : (w.snapshot id).All P :=
  List.forall_mem_append.mpr ⟨all, all.scopes empty⟩

theorem All.restore {id : String} (all : w.All P) (run : w.restore id = .ok after) :
    after.All P := by
  obtain ⟨_, rfl⟩ := restore_ok run
  exact all

theorem All.enterFrame {depth : Int} (all : w.All P) (empty : P .empty)
    (run : w.enterFrame depth = .ok inner) : inner.All P := by
  obtain ⟨_, rfl⟩ := enterFrame_ok run
  exact List.forall_mem_append.mpr ⟨all, List.forall_mem_singleton.mpr empty⟩

theorem All.resume {scopes abandoned : Scopes ι} (all : w.All P) (new : ∀ s ∈ scopes, P s)
    (old : ∀ s ∈ abandoned, P s) : (w.resume scopes abandoned).All P := by
  have moved : ∀ s ∈ scopes.outermost abandoned.length, P s :=
    fun s member => new s (List.mem_of_mem_drop member)
  exact List.forall_mem_append.mpr ⟨forall_mem_write (forall_mem_write all new) old, moved⟩

theorem All.changed {change : Except Error (Workspace ι)} (all : w.All P)
    (kept : ∀ after, change = .ok after → after.All P) :
    (changed (ρ := ρ) w change).after.All P := by
  cases change with
  | ok after => exact kept after rfl
  | error e => exact all

theorem All.closeScope {l : Listing ι ρ} (all : l.after.All P) :
    (Workspace.closeScope l).after.All P := by
  unfold Workspace.closeScope
  split
  · next left => exact all.leave left
  · exact all

theorem all_update {f : Scopes ι → Except Error (Scopes ι)} {scopes : Scopes ι}
    (all : ∀ s ∈ scopes, P s) (kept : ∀ after, f scopes = .ok after → ∀ s ∈ after, P s) :
    ∀ s ∈ (Action.update f scopes).2, P s := by
  unfold Action.update
  split
  · next run => exact kept _ run
  · exact all

end

section

variable {P : Scope ι → Prop} {pass : Pass ι τ ρ}

mutual
theorem all_run (lasting : Scope.Lasting P) (lasts : pass.Lasts P) :
    ∀ (c : Command ι τ) {w : Workspace ι} {r : Ran ι (Reply ι ρ)}, w.All P →
      run pass w c = some r → r.after.All P
  | .enter, w, r, all, ran => by
    cases ran
    exact all.enter lasting.empty
  | .leave, w, r, all, ran => by
    cases ran
    exact all.changed fun _ left => all.leave left
  | .declare decl info, w, r, all, ran => by
    cases ran
    have scopes := all.scopes lasting.empty
    exact all.withScopes (all_update scopes fun _ run => Scopes.lasts_declareVar lasting run scopes)
  | .declareFn f, w, r, all, ran => by
    cases ran
    have scopes := all.scopes lasting.empty
    exact all.withScopes (all_update scopes fun _ run => Scopes.lasts_declareFn lasting run scopes)
  | .assign name v, w, r, all, ran => by
    cases ran
    exact all.withScopes (lasts.assign name v w.scopes (all.scopes lasting.empty))
  | .snapshot id, w, r, all, ran => by
    cases ran
    exact all.snapshot lasting.empty id
  | .restore id, w, r, all, ran => by
    cases ran
    exact all.changed fun _ back => all.restore back
  | .find .., w, r, all, ran | .lookup .., w, r, all, ran | .findFn .., w, r, all, ran
  | .lookupFn .., w, r, all, ran | .resolveFn .., w, r, all, ran | .names, w, r, all, ran => by
    cases ran
    exact all
  | .builtin name args, w, r, all, ran => by
    rw [run] at ran
    split at ran <;> cases ran <;> exact all
  | .perform task, w, r, all, ran => by
    obtain ⟨effect, performed, rfl⟩ := Option.map_eq_some_iff.mp ran
    obtain ⟨new, old⟩ := lasts.perform task w.scopes effect (all.scopes lasting.empty) performed
    exact all.resume new fun s member => old s (List.mem_of_mem_drop member)
  | .scope body, w, r, all, ran => by
    obtain ⟨l, ranBody, rfl⟩ := Option.map_eq_some_iff.mp ran
    have inside := all_runAll lasting lasts body (all.enter lasting.empty) ranBody
    exact inside.closeScope
  | .frame depth body, w, r, all, ran => by
    rw [run] at ran
    cases entered : w.enterFrame depth with
    | error e =>
      rw [entered] at ran
      cases ran
      exact all
    | ok inner =>
      rw [entered] at ran
      obtain ⟨l, ranBody, rfl⟩ := Option.map_eq_some_iff.mp ran
      exact all_runAll lasting lasts body (all.enterFrame lasting.empty entered) ranBody
theorem all_runAll (lasting : Scope.Lasting P) (lasts : pass.Lasts P) :
    ∀ (cs : List (Command ι τ)) {w : Workspace ι} {l : Listing ι ρ}, w.All P →
      runAll pass w cs = some l → l.after.All P
  | [], w, l, all, ran => by
    cases ran
    exact all
  | c :: cs, w, l, all, ran => by
    obtain ⟨r, ranFirst, rest⟩ := runAll_cons ran
    have first := all_run lasting lasts c all ranFirst
    rcases rest with ⟨_, last⟩ | ⟨_, others, ranRest, last⟩
    · rw [last]
      exact first
    · rw [last]
      exact all_runAll lasting lasts cs first ranRest
end

end

theorem All.allScopes {P : Scope ι → Prop} (empty : P .empty) : ∀ {callers : List (Suspended ι)}
    {w : Workspace ι}, w.All P → ∀ scopes ∈ w.allScopes callers, ∀ s ∈ scopes, P s
  | [], w, all, scopes, member => by
    rw [List.mem_singleton.mp member]
    exact all.scopes empty
  | caller :: callers, w, all, scopes, member => by
    rcases List.mem_cons.mp member with rfl | further
    · exact all.scopes empty
    · have under : (caller.under w).All P := all
      exact under.allScopes empty scopes further

theorem all_of_reached {P : Scope ι → Prop} {passes : Nat → Pass ι τ ρ}
    (lasting : Scope.Lasting P) (lasts : ∀ fuel, (passes fuel).Lasts P) {w : Workspace ι}
    {callers : List (Suspended ι)} (reached : Reached passes w callers) : w.All P := by
  induction reached with
  | start => exact List.forall_mem_nil _
  | @run w callers fuel c r _ ran ih => exact all_run lasting (lasts fuel) c ih ran
  | frame _ entered ih => exact ih.enterFrame lasting.empty entered

end Workspace
end TypedLet
