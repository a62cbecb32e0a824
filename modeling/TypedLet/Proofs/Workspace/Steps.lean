import TypedLet.Proofs.Workspace.Tables
import TypedLet.Workspace.Command

/-
What commands do to a workspace. The operations that can fail are inverted here once,
and so is the induction on commands: a relation that each operation respects relates
the workspaces before and after every run. A rule can say which of the commands that a
run carries out are to be considered, for some relations hold only while certain scopes
are not put back.
-/
namespace TypedLet
namespace Workspace

section

variable {w after inner : Workspace ι}

theorem leave_ok (run : w.leave = .ok after) :
    ∃ top outer, w.live = top :: outer ∧
      ((outer.length + 1 = w.kept ∧
          after = { w with live := outer, kept := w.kept - 1, left := w.left ++ [top] }) ∨
        (outer.length + 1 ≠ w.kept ∧ after = { w with live := outer })) := by
  rw [leave] at run
  cases stack : w.live with
  | nil =>
    rw [stack] at run
    cases run
  | cons top outer =>
    rw [stack] at run
    simp only [List.length_cons] at run
    refine ⟨top, outer, rfl, ?_⟩
    by_cases mine : outer.length + 1 = w.kept
    · rw [if_pos mine] at run
      cases run
      exact Or.inl ⟨mine, rfl⟩
    · rw [if_neg mine] at run
      cases run
      exact Or.inr ⟨mine, rfl⟩

theorem restore_ok {id : String} (run : w.restore id = .ok after) :
    (w.stored id).length = w.depth ∧ after = { w with live := w.stored id } := by
  rw [restore] at run
  split at run
  · next count =>
    cases run
    exact ⟨count, rfl⟩
  · cases run

theorem enterFrame_ok {depth : Int} (run : w.enterFrame depth = .ok inner) :
    depth.toNat ≤ w.depth ∧
      inner = enter { w with
        live := w.live.drop (w.live.length - depth.toNat), kept := depth.toNat, left := [] } := by
  rw [enterFrame, Scopes.checkFrame] at run
  split at run
  · next d checked =>
    cases run
    split at checked
    · next fits =>
      cases checked
      rw [length_scopes] at fits
      exact ⟨by omega, rfl⟩
    · cases checked
  · cases run

theorem kept_enterFrame {depth : Int} (run : w.enterFrame depth = .ok inner) :
    inner.kept = depth.toNat ∧ inner.left = [] := by
  obtain ⟨_, rfl⟩ := enterFrame_ok run
  exact ⟨rfl, rfl⟩

theorem next_enter (w : Workspace ι) : w.enter.next = w.next + 1 := List.length_append

theorem next_resume {scopes abandoned : Scopes ι} (count : scopes.length = w.depth)
    (fits : abandoned.length ≤ w.depth) :
    (w.resume scopes abandoned).next = w.next + abandoned.length := by
  simp only [resume, List.length_append, length_write, next]
  rw [Scopes.length_outermost scopes abandoned.length (by omega)]

end

/-- Each operation that the rule admits leads to a related workspace, and what a frame does
    is as much done under it. -/
structure Respected (rule : Workspace ι → Command ι τ → Prop)
    (R : Workspace ι → Workspace ι → Prop) : Prop where
  refl : ∀ w, R w w
  trans : ∀ {w after last}, R w after → R after last → R w last
  enter : ∀ w, R w w.enter
  leave : ∀ {w after}, w.leave = .ok after → R w after
  write : ∀ w scopes, R w (w.withScopes scopes)
  resume : ∀ {w scopes abandoned}, scopes.length = w.depth → abandoned.length ≤ w.depth →
    R w (w.resume scopes abandoned)
  snapshot : ∀ {w id}, rule w (.snapshot id) → R w (w.snapshot id)
  restore : ∀ {w after id}, rule w (.restore id) → w.restore id = .ok after → R w after
  frame : ∀ {w inner after depth}, w.enterFrame depth = .ok inner → R inner after →
    R w (w.leaveFrame after depth.toNat)

def Pass.KeepsCount (pass : Pass ι τ ρ) : Prop :=
  ∀ task scopes effect, pass.perform task scopes = some effect →
    effect.scopes.length = scopes.length

mutual
def Along (pass : Pass ι τ ρ) (rule : Workspace ι → Command ι τ → Prop) (w : Workspace ι) :
    Command ι τ → Prop
  | .scope body => AlongAll pass rule w.enter body
  | .frame depth body => ∀ inner, w.enterFrame depth = .ok inner → AlongAll pass rule inner body
  | c => rule w c
def AlongAll (pass : Pass ι τ ρ) (rule : Workspace ι → Command ι τ → Prop) (w : Workspace ι) :
    List (Command ι τ) → Prop
  | [] => True
  | c :: cs => Along pass rule w c ∧
    ∀ r reply, run pass w c = some r → r.answer = .ok reply → AlongAll pass rule r.after cs
end

def freely : Workspace ι → Command ι τ → Prop := fun _ _ => True

section

variable {pass : Pass ι τ ρ} {rule rule' : Workspace ι → Command ι τ → Prop}
  {R : Workspace ι → Workspace ι → Prop} {w : Workspace ι}

theorem Respected.stricter (respected : Respected rule R)
    (stricter : ∀ w c, rule' w c → rule w c) : Respected rule' R :=
  { respected with
    snapshot := fun kept => respected.snapshot (stricter _ _ kept)
    restore := fun kept => respected.restore (stricter _ _ kept) }

mutual
theorem along_of_forall (all : ∀ (w : Workspace ι) (c : Command ι τ), rule w c) :
    ∀ (c : Command ι τ) (w : Workspace ι), Along pass rule w c
  | .scope body, w => alongAll_of_forall all body w.enter
  | .frame _ body, _ => fun inner _ => alongAll_of_forall all body inner
  | .enter, w | .leave, w | .declare .., w | .declareFn .., w | .assign .., w | .snapshot .., w
  | .restore .., w | .find .., w | .lookup .., w | .findFn .., w | .lookupFn .., w
  | .resolveFn .., w | .names, w | .builtin .., w | .perform .., w => all w _
theorem alongAll_of_forall (all : ∀ (w : Workspace ι) (c : Command ι τ), rule w c) :
    ∀ (cs : List (Command ι τ)) (w : Workspace ι), AlongAll pass rule w cs
  | [], _ => trivial
  | c :: cs, w => ⟨along_of_forall all c w, fun r _ _ _ => alongAll_of_forall all cs r.after⟩
end

theorem along_freely (c : Command ι τ) (w : Workspace ι) : Along pass freely w c :=
  along_of_forall (fun _ _ => trivial) c w

theorem alongAll_freely (cs : List (Command ι τ)) (w : Workspace ι) :
    AlongAll pass freely w cs :=
  alongAll_of_forall (fun _ _ => trivial) cs w

theorem runAll_cons {c : Command ι τ} {cs : List (Command ι τ)} {l : Listing ι ρ}
    (ran : runAll pass w (c :: cs) = some l) :
    ∃ r, run pass w c = some r ∧
      ((∃ e, r.answer = .error e) ∧ l.after = r.after ∨
        (∃ reply, r.answer = .ok reply) ∧
          ∃ others, runAll pass r.after cs = some others ∧ l.after = others.after) := by
  obtain ⟨r, first, rest⟩ := Option.bind_eq_some_iff.mp ran
  refine ⟨r, first, ?_⟩
  cases answer : r.answer with
  | error e =>
    rw [answer] at rest
    cases rest
    exact Or.inl ⟨⟨e, rfl⟩, rfl⟩
  | ok reply =>
    rw [answer] at rest
    obtain ⟨others, ranRest, rfl⟩ := Option.map_eq_some_iff.mp rest
    exact Or.inr ⟨⟨reply, rfl⟩, others, ranRest, rfl⟩

theorem respected_changed (respected : Respected rule R) {change : Except Error (Workspace ι)}
    (leads : ∀ after, change = .ok after → R w after) :
    R w (changed (ρ := ρ) w change).after := by
  cases change with
  | ok after => exact leads after rfl
  | error e => exact respected.refl w

theorem respected_closeScope (respected : Respected rule R) {l : Listing ι ρ}
    (leads : R w l.after) : R w (closeScope l).after := by
  unfold closeScope
  split
  · next left => exact respected.trans leads (respected.leave left)
  · exact leads

mutual
theorem respected_run (respected : Respected rule R) (keeps : pass.KeepsCount) :
    ∀ (c : Command ι τ) {w : Workspace ι} {r : Ran ι (Reply ι ρ)}, Along pass rule w c →
      run pass w c = some r → R w r.after
  | .enter, w, r, along, ran => by
    cases ran
    exact respected.enter w
  | .leave, w, r, along, ran => by
    cases ran
    exact respected_changed respected fun _ left => respected.leave left
  | .declare .., w, r, along, ran | .declareFn .., w, r, along, ran
  | .assign .., w, r, along, ran => by
    cases ran
    exact respected.write w _
  | .snapshot id, w, r, along, ran => by
    cases ran
    exact respected.snapshot along
  | .restore id, w, r, along, ran => by
    cases ran
    exact respected_changed respected fun _ back => respected.restore along back
  | .find .., w, r, along, ran | .lookup .., w, r, along, ran | .findFn .., w, r, along, ran
  | .lookupFn .., w, r, along, ran | .resolveFn .., w, r, along, ran
  | .names, w, r, along, ran => by
    cases ran
    exact respected.refl w
  | .builtin name args, w, r, along, ran => by
    rw [run] at ran
    split at ran
    · cases ran
      exact respected.refl w
    · cases ran
      exact respected.refl w
  | .perform task, w, r, along, ran => by
    obtain ⟨effect, performed, rfl⟩ := Option.map_eq_some_iff.mp ran
    -- A task returns as many scopes as it was given, so they go back to the same tables.
    have count : effect.scopes.length = w.depth :=
      (keeps task w.scopes effect performed).trans length_scopes
    apply respected.resume count
    rw [Scopes.outermost, List.length_drop]
    omega
  | .scope body, w, r, along, ran => by
    obtain ⟨l, ranBody, rfl⟩ := Option.map_eq_some_iff.mp ran
    have inside := respected_runAll respected keeps body along ranBody
    exact respected_closeScope respected (respected.trans (respected.enter w) inside)
  | .frame depth body, w, r, along, ran => by
    rw [run] at ran
    cases entered : w.enterFrame depth with
    | error e =>
      rw [entered] at ran
      cases ran
      exact respected.refl w
    | ok inner =>
      rw [entered] at ran
      obtain ⟨l, ranBody, rfl⟩ := Option.map_eq_some_iff.mp ran
      have inside := respected_runAll respected keeps body (along inner entered) ranBody
      exact respected.frame entered inside
theorem respected_runAll (respected : Respected rule R) (keeps : pass.KeepsCount) :
    ∀ (cs : List (Command ι τ)) {w : Workspace ι} {l : Listing ι ρ}, AlongAll pass rule w cs →
      runAll pass w cs = some l → R w l.after
  | [], w, l, along, ran => by
    cases ran
    exact respected.refl w
  | c :: cs, w, l, along, ran => by
    obtain ⟨r, ranFirst, rest⟩ := runAll_cons ran
    have first := respected_run respected keeps c along.1 ranFirst
    rcases rest with ⟨_, last⟩ | ⟨⟨reply, answer⟩, others, ranRest, last⟩
    · rw [last]
      exact first
    · rw [last]
      have next := respected_runAll respected keeps cs (along.2 r reply ranFirst answer) ranRest
      exact respected.trans first next
end

end
end Workspace
end TypedLet
