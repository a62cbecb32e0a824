import TypedLet.Proofs.Workspace.Unshared

/-
What a run can come to touch. A run works on the tables of the live scopes, on new ones, and
on those of stored scopes once it puts them back. No other table changes, and none comes to
stand for a scope of the run. This holds for any part of the store, as long as what is put back
comes from that part.
-/
namespace TypedLet
namespace Workspace

/-- A part of each store. What is stored later opens nothing that was closed. -/
structure Part where
  usable : List (String × List Nat) → List (String × List Nat)
  opens : ∀ entry saved, ∀ e ∈ usable (entry :: saved),
    e = entry ∨ e ∈ usable saved

def Part.Keeps (part : Part) (w : Workspace ι) : Command ι τ → Prop
  | .restore id => ∀ entry, w.saved.find? (·.1 = id) = some entry → entry ∈ part.usable w.saved
  | _ => True

def reach (part : Part) (w : Workspace ι) : List Nat :=
  w.live ++ (part.usable w.saved).flatMap (·.2)

/-- What goes on touches `within` and new tables only, and reaches no others. -/
structure KeepsTo (within : List Nat) (w : Workspace ι) (reached : List Nat)
    (after : Workspace ι) : Prop where
  grows : w.next ≤ after.next
  reach : ∀ n ∈ reached, n ∈ within ∨ w.next ≤ n ∧ n < after.next
  same : ∀ n < w.next, n ∉ within → after.table n = w.table n

structure Within (part : Part) (w after : Workspace ι) : Prop
    extends KeepsTo (w.reach part) w (after.reach part) after where
  left : ∀ n ∈ after.left, n ∈ w.left ∨ n ∈ w.reach part ∨ w.next ≤ n ∧ n < after.next

section

variable {part : Part} {w after inner last : Workspace ι} {within reached further : List Nat}

theorem mem_reach {n : Nat} :
    n ∈ w.reach part ↔ n ∈ w.live ∨ ∃ e ∈ part.usable w.saved, n ∈ e.2 := by
  rw [reach, List.mem_append, List.mem_flatMap]

theorem mem_reach_of_live {n : Nat} (live : n ∈ w.live) : n ∈ w.reach part :=
  mem_reach.mpr (.inl live)

theorem keepsTo_refl (within : List Nat) (w : Workspace ι) : KeepsTo within w within w :=
  ⟨Nat.le_refl _, fun _ => .inl, fun _ _ _ => rfl⟩

theorem KeepsTo.notMem {n : Nat} (keeping : KeepsTo within w reached after) (old : n < w.next)
    (apart : n ∉ within) : n ∉ reached := by
  intro member
  rcases keeping.reach n member with before | new
  · exact apart before
  · omega

theorem keepsTo_trans (first : KeepsTo within w reached after)
    (second : KeepsTo reached after further last) : KeepsTo within w further last where
  grows := Nat.le_trans first.grows second.grows
  reach n member := by
    have start := first.grows
    have grown := second.grows
    rcases second.reach n member with before | new
    · rcases first.reach n before with old | new
      · exact .inl old
      · exact .inr (by omega)
    · exact .inr (by omega)
  same n old apart := by
    rw [second.same n (Nat.lt_of_lt_of_le old first.grows) (first.notMem old apart),
      first.same n old apart]

theorem within_refl (part : Part) (w : Workspace ι) : Within part w w :=
  ⟨keepsTo_refl _ w, fun _ => .inl⟩

theorem within_trans (first : Within part w after) (second : Within part after last) :
    Within part w last where
  toKeepsTo := keepsTo_trans first.toKeepsTo second.toKeepsTo
  left n member := by
    have start := first.grows
    have grown := second.grows
    rcases second.left n member with before | before | new
    · rcases first.left n before with old | old | new
      · exact .inl old
      · exact .inr (.inl old)
      · exact .inr (.inr (by omega))
    · rcases first.reach n before with old | new
      · exact .inr (.inl old)
      · exact .inr (.inr (by omega))
    · exact .inr (.inr (by omega))

theorem table_of_append {n : Nat} (more : List (Scope ι)) (old : n < w.next)
    (grown : after.tables = w.tables ++ more) : after.table n = w.table n := by
  rw [table, grown, List.getElem?_append_left old]
  rfl

theorem within_enter (w : Workspace ι) : Within part w w.enter where
  grows := Nat.le.intro (next_enter w).symm
  reach n member := by
    rw [next_enter]
    rcases List.mem_cons.mp member with new | old
    · exact .inr (by omega)
    · exact .inl old
  left _ := .inl
  same _ old _ := table_of_append [Scope.empty] old rfl

theorem within_leave (run : w.leave = .ok after) : Within part w after := by
  obtain ⟨top, outer, stack, ends⟩ := leave_ok run
  have inside : ∀ n ∈ outer ++ (part.usable w.saved).flatMap (·.2), n ∈ w.reach part := by
    rw [reach, stack]
    exact fun n => List.mem_cons_of_mem top
  rcases ends with ⟨_, rfl⟩ | ⟨_, rfl⟩
  · refine ⟨⟨Nat.le_refl _, fun n => .inl ∘ inside n, fun _ _ _ => rfl⟩, ?_⟩
    intro n member
    rcases List.mem_append.mp member with before | first
    · exact .inl before
    · rw [List.mem_singleton.mp first, mem_reach, stack]
      exact .inr (.inl (.inl List.mem_cons_self))
  · exact ⟨⟨Nat.le_refl _, fun n => .inl ∘ inside n, fun _ _ _ => rfl⟩, fun _ => .inl⟩

theorem within_withScopes (w : Workspace ι) (scopes : Scopes ι) :
    Within part w (w.withScopes scopes) where
  grows := Nat.le_of_eq next_withScopes.symm
  reach _ := .inl
  left _ := .inl
  same _ _ apart := table_withScopes_of_notMem fun live => apart (mem_reach_of_live live)

theorem within_resume {scopes abandoned : Scopes ι} (count : scopes.length = w.depth)
    (fits : abandoned.length ≤ w.depth) : Within part w (w.resume scopes abandoned) where
  grows := Nat.le.intro (next_resume count fits).symm
  reach n member := by
    rw [next_resume count fits]
    rcases mem_reach.mp member with live | stored
    · rcases List.mem_append.mp live with stays | moved
      · exact .inl (mem_reach_of_live (List.mem_of_mem_take stays))
      · obtain ⟨i, inside, rfl⟩ := List.mem_map.mp moved
        rw [List.mem_range] at inside
        simp only [length_write, next]
        exact .inr (by omega)
    · exact .inl (mem_reach.mpr (.inr stored))
  left _ := .inl
  same n old apart := by
    have absent : n ∉ w.live := fun live => apart (mem_reach_of_live live)
    have stays : n ∉ w.live.take (w.live.length - abandoned.length) :=
      fun member => absent (List.mem_of_mem_take member)
    have moved : n ∉ w.live.drop (w.live.length - abandoned.length) :=
      fun member => absent (List.mem_of_mem_drop member)
    simp only [table, resume]
    rw [List.getElem?_append_left (by rwa [length_write, length_write]),
      getElem?_write_of_notMem _ _ _ moved, getElem?_write_of_notMem _ _ _ stays]

theorem next_snapshot (w : Workspace ι) (id : String) :
    (w.snapshot id).next = w.next + w.depth := by
  rw [next, snapshot, List.length_append, length_scopes]
  rfl

theorem mem_new {bound count n : Nat} (member : n ∈ (List.range count).map (bound + ·)) :
    bound ≤ n ∧ n < bound + count := by
  obtain ⟨i, inside, rfl⟩ := List.mem_map.mp member
  rw [List.mem_range] at inside
  omega

theorem within_snapshot (w : Workspace ι) (id : String) : Within part w (w.snapshot id) where
  grows := Nat.le.intro (next_snapshot w id).symm
  reach n member := by
    rw [next_snapshot]
    rcases mem_reach.mp member with live | ⟨e, stored, inside⟩
    · exact .inl (mem_reach_of_live live)
    · rcases part.opens _ _ e stored with rfl | before
      · exact .inr (mem_new inside)
      · exact .inl (mem_reach.mpr (.inr ⟨e, before, inside⟩))
  left _ := .inl
  same _ old _ := table_of_append w.scopes old rfl

theorem mem_reach_of_stored {τ : Type} {id : String} {n : Nat}
    (kept : part.Keeps w (.restore id : Command ι τ)) (member : n ∈ w.stored id) :
    n ∈ w.reach part := by
  rw [stored] at member
  cases found : w.saved.find? (·.1 = id) with
  | none =>
    rw [found] at member
    cases member
  | some entry =>
    rw [found] at member
    exact mem_reach.mpr (.inr ⟨entry, kept entry found, member⟩)

theorem within_restore {τ : Type} {id : String} (kept : part.Keeps w (.restore id : Command ι τ))
    (run : w.restore id = .ok after) : Within part w after := by
  obtain ⟨_, rfl⟩ := restore_ok run
  refine ⟨⟨Nat.le_refl _, ?_, fun _ _ _ => rfl⟩, fun _ => .inl⟩
  intro n member
  rcases mem_reach.mp member with live | stored
  · exact .inl (mem_reach_of_stored kept live)
  · exact .inl (mem_reach.mpr (.inr stored))

theorem within_enterFrame {depth : Int} (run : w.enterFrame depth = .ok inner) :
    Within part w inner := by
  obtain ⟨_, rfl⟩ := enterFrame_ok run
  have below : Within part w { w with
      live := w.live.drop (w.live.length - depth.toNat), kept := depth.toNat, left := [] } := by
    refine ⟨⟨Nat.le_refl _, ?_, fun _ _ _ => rfl⟩, nofun⟩
    intro n member
    rcases mem_reach.mp member with live | stored
    · exact .inl (mem_reach_of_live (List.mem_of_mem_drop live))
    · exact .inl (mem_reach.mpr (.inr stored))
  exact within_trans below (within_enter _)

theorem within_frame {depth : Int} (run : w.enterFrame depth = .ok inner)
    (goes : Within part inner after) : Within part w (w.leaveFrame after depth.toNat) := by
  have start : Within part w inner := within_enterFrame run
  have none := (kept_enterFrame run).2
  have entered := start.grows
  have grown := goes.grows
  have whole := within_trans start goes
  have back : ∀ n ∈ after.left, n ∈ w.reach part ∨ w.next ≤ n ∧ n < after.next := by
    intro n gone
    rcases goes.left n gone with absent | before | new
    · rw [none] at absent
      cases absent
    · rcases start.reach n before with old | new
      · exact .inl old
      · exact .inr (by omega)
    · exact .inr (by omega)
  refine ⟨⟨whole.grows, ?_, whole.same⟩, fun _ => .inl⟩
  intro n member
  rcases mem_reach.mp member with live | stored
  · rcases List.mem_append.mp live with own | common
    · exact .inl (mem_reach_of_live (List.mem_of_mem_take own))
    · rcases List.mem_append.mp common with gone | kept
      · exact back n gone
      · exact whole.reach n (mem_reach_of_live (List.mem_of_mem_drop kept))
  · exact whole.reach n (mem_reach.mpr (.inr stored))

theorem within_respected (part : Part) :
    Respected (part.Keeps : Workspace ι → Command ι τ → Prop) (Within part) where
  refl := within_refl part
  trans := within_trans
  enter := within_enter
  leave := within_leave
  write := within_withScopes
  resume := within_resume
  snapshot _ := within_snapshot _ _
  restore := within_restore
  frame := within_frame

end

section

variable {passes : Nat → Pass ι τ ρ} {rule : Workspace ι → Command ι τ → Prop} {part : Part}
  {w now : Workspace ι} {callers waiting : List (Suspended ι)}

def reachAll (part : Part) (w : Workspace ι) (callers : List (Suspended ι)) : List Nat :=
  w.reach part ++ w.left ++ behindAll callers

theorem mem_reachAll {n : Nat} : n ∈ w.reachAll part callers ↔
    n ∈ w.reach part ∨ n ∈ w.left ∨ n ∈ behindAll callers := by
  rw [reachAll, List.mem_append, List.mem_append, or_assoc]

theorem keepsTo_of_within (step : Within part w now) (callers : List (Suspended ι)) :
    KeepsTo (w.reachAll part callers) w (now.reachAll part callers) now where
  grows := step.grows
  reach n member := by
    rcases mem_reachAll.mp member with live | left | behind
    · exact (step.reach n live).imp_left fun old => mem_reachAll.mpr (.inl old)
    · rcases step.left n left with old | old | new
      · exact .inl (mem_reachAll.mpr (.inr (.inl old)))
      · exact .inl (mem_reachAll.mpr (.inl old))
      · exact .inr new
    · exact .inl (mem_reachAll.mpr (.inr (.inr behind)))
  same n old apart := step.same n old fun member => apart (mem_reachAll.mpr (.inl member))

theorem keepsTo_enterFrame {d : Int} (entered : w.enterFrame d = .ok now) :
    KeepsTo (w.reachAll part callers) w (now.reachAll part (⟨w, d.toNat⟩ :: callers)) now := by
  have start : Within part w now := within_enterFrame entered
  have none := (kept_enterFrame entered).2
  refine ⟨start.grows, ?_, ?_⟩
  · intro n member
    rcases mem_reachAll.mp member with live | left | behind
    · exact (start.reach n live).imp_left fun old => mem_reachAll.mpr (.inl old)
    · rw [none] at left
      cases left
    · rcases List.mem_append.mp behind with here | further
      · rcases List.mem_append.mp here with own | left
        · have live := List.mem_of_mem_take own
          exact .inl (mem_reachAll.mpr (.inl (mem_reach_of_live live)))
        · exact .inl (mem_reachAll.mpr (.inr (.inl left)))
      · exact .inl (mem_reachAll.mpr (.inr (.inr further)))
  · exact fun n old apart => start.same n old fun member => apart (mem_reachAll.mpr (.inl member))

theorem keepsTo_under (caller : Suspended ι) :
    KeepsTo (w.reachAll part (caller :: callers)) w
      ((caller.under w).reachAll part callers) (caller.under w) := by
  refine ⟨Nat.le_refl _, ?_, fun _ _ _ => rfl⟩
  intro n member
  have behind : ∀ {n}, n ∈ caller.workspace.behind caller.depth →
      n ∈ w.reachAll part (caller :: callers) :=
    fun here => mem_reachAll.mpr (.inr (.inr (List.mem_append_left _ here)))
  rcases mem_reachAll.mp member with reached | left | further
  · rcases mem_reach.mp reached with live | stored
    · rcases List.mem_append.mp live with own | common
      · exact .inl (behind (List.mem_append_left _ own))
      · rcases List.mem_append.mp common with gone | kept
        · exact .inl (mem_reachAll.mpr (.inr (.inl gone)))
        · have live := List.mem_of_mem_drop kept
          exact .inl (mem_reachAll.mpr (.inl (mem_reach_of_live live)))
    · exact .inl (mem_reachAll.mpr (.inl (mem_reach.mpr (.inr stored))))
  · exact .inl (behind (List.mem_append_right _ left))
  · exact .inl (mem_reachAll.mpr (.inr (.inr (List.mem_append_right _ further))))

/-- Wherever commands lead, all that was out of reach is as it was. -/
theorem keepsTo_of_leads (keeps : ∀ fuel, (passes fuel).KeepsCount)
    (stricter : ∀ w c, rule w c → part.Keeps w c)
    (leads : Leads passes rule w callers now waiting) :
    KeepsTo (w.reachAll part callers) w (now.reachAll part waiting) now := by
  induction leads with
  | here => exact keepsTo_refl _ w
  | @run now waiting fuel c r _ along ran ih =>
    have respected := (within_respected part).stricter stricter
    have step := respected_run respected (keeps fuel) c along ran
    exact keepsTo_trans ih (keepsTo_of_within step waiting)
  | frame _ entered ih => exact keepsTo_trans ih (keepsTo_enterFrame entered)
  | @back now caller waiting _ ih => exact keepsTo_trans ih (keepsTo_under caller)

def Part.whole : Part := ⟨id, fun _ _ _ => List.mem_cons.mp⟩

theorem keeps_of_usable (all : part.usable w.saved = w.saved) (c : Command ι τ) :
    part.Keeps w c := by
  cases c with
  | restore id =>
    intro entry found
    rw [all]
    exact List.mem_of_find?_eq_some found
  | _ => trivial

theorem bound_of_leads (keeps : ∀ fuel, (passes fuel).KeepsCount)
    (leads : Leads passes rule start [] now waiting) :
    ∀ n ∈ now.reachAll .whole waiting, n < now.next := by
  have all : ∀ w c, rule w c → Part.whole.Keeps w c := fun _ c _ => keeps_of_usable rfl c
  have keeping := keepsTo_of_leads keeps all leads
  intro n member
  rcases keeping.reach n member with none | ⟨_, made⟩
  · cases none
  · exact made

end
end Workspace
end TypedLet
