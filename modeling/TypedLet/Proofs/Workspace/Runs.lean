import TypedLet.Proofs.Workspace.Levels
import TypedLet.Proofs.Workspace.Steps

/-
No command takes a table off its level. There is one law for each operation on a
workspace, and so every run goes on as they do.
-/
namespace TypedLet
namespace Workspace

section

variable {level level' : Nat → Nat} {w after inner : Workspace ι}

theorem moves_tables (settled : Settled level w) {tables : List (Scope ι)}
    (count : tables.length = w.next) : Moves level level w { w with tables } :=
  ⟨settled_tables settled (Nat.le_of_eq count.symm) fun _ _ => rfl, fun _ _ => rfl,
    Nat.le_of_eq count.symm, rfl⟩

theorem moves_enter (settled : Settled level w) :
    Moves level (levels level w.next w.depth) w w.enter where
  settled := by
    have grows : w.next ≤ (w.tables ++ [Scope.empty]).length :=
      Nat.le.intro (next_enter w).symm
    have same : ∀ n < w.next, levels level w.next w.depth n = level n := levels_of_lt w.depth
    obtain ⟨live, common, kept, saved⟩ := settled_tables settled grows same
    have new : Stacked (levels level w.next w.depth) w.enter.next w.enter.live := by
      refine ⟨⟨?_, ?_⟩, live⟩
      · rw [next_enter]
        exact Nat.lt_succ_self w.next
      · rw [levels, if_neg (Nat.lt_irrefl _), Nat.sub_self]
        rfl
    refine ⟨new, ?_, Nat.le_succ_of_le kept, saved⟩
    have deeper : w.enter.live.length - w.kept = w.live.length - w.kept + 1 := by
      have kept := settled.kept
      simp only [enter, depth, List.length_cons] at kept ⊢
      omega
    change Stacked _ _ (w.left ++ w.enter.live.drop (w.enter.live.length - w.kept))
    rw [deeper]
    exact common
  same := levels_of_lt w.depth
  grows := Nat.le.intro (next_enter w).symm
  common := rfl

theorem moves_leave (settled : Settled level w) (run : w.leave = .ok after) :
    Moves level level w after := by
  obtain ⟨top, outer, stack, ends⟩ := leave_ok run
  obtain ⟨live, common, kept, saved⟩ := settled
  rw [stack] at live
  simp only [shared, depth, stack, List.length_cons] at common kept
  rcases ends with ⟨mine, rfl⟩ | ⟨mine, rfl⟩
  · have none : outer.length - (w.kept - 1) = 0 := by omega
    refine ⟨⟨live.2, ?_, ?_, saved⟩, fun _ _ => rfl, Nat.le_refl _, ?_⟩
    · rw [← mine, Nat.sub_self, List.drop_zero] at common
      change Stacked level w.next (w.left ++ [top] ++ outer.drop (outer.length - (w.kept - 1)))
      rw [none, List.drop_zero, List.append_assoc]
      exact common
    · change w.kept - 1 ≤ outer.length
      omega
    · change w.kept - 1 + (w.left ++ [top]).length = w.kept + w.left.length
      rw [List.length_append, List.length_singleton]
      omega
  · have deeper : outer.length + 1 - w.kept = outer.length - w.kept + 1 := by omega
    refine ⟨⟨live.2, ?_, ?_, saved⟩, fun _ _ => rfl, Nat.le_refl _, rfl⟩
    · rw [deeper, List.drop_succ_cons] at common
      exact common
    · change w.kept ≤ outer.length
      omega

theorem moves_withScopes (settled : Settled level w) (scopes : Scopes ι) :
    Moves level level w (w.withScopes scopes) :=
  moves_tables settled (length_write w.live scopes w.tables)

theorem moves_resume (settled : Settled level w) {scopes abandoned : Scopes ι}
    (count : scopes.length = w.depth) (fits : abandoned.length ≤ w.depth) :
    Moves level (levels level w.next (abandoned.length - 1)) w (w.resume scopes abandoned) := by
  have size : (w.resume scopes abandoned).tables.length = w.next + abandoned.length :=
    next_resume count fits
  have old : (write (w.live.drop (w.live.length - abandoned.length)) abandoned
      (write (w.live.take (w.live.length - abandoned.length)) scopes w.tables)).length =
        w.next := by
    rw [length_write, length_write, next]
  have more : w.next ≤ (w.resume scopes abandoned).tables.length := by omega
  have same : ∀ n < w.next, levels level w.next (abandoned.length - 1) n = level n :=
    levels_of_lt (abandoned.length - 1)
  have grown := settled_tables settled more same
  have below : (w.live.drop (w.live.length - abandoned.length)).length = abandoned.length := by
    rw [depth] at fits
    rw [List.length_drop]
    omega
  refine ⟨settled_live grown ?_ ?_, same, more, rfl⟩
  · have split := grown.live
    rw [← List.take_append_drop (w.live.length - abandoned.length) w.live] at split
    have instead : Stacked (levels level w.next (abandoned.length - 1))
        (w.next + abandoned.length) ((List.range abandoned.length).map (w.next + ·)) :=
      stacked_new abandoned.length
    rw [← size] at instead
    simp only [old]
    apply stacked_swap split instead
    rw [List.length_map, List.length_range, below]
  · rw [depth] at fits
    simp only [depth, List.length_append, List.length_take, List.length_map, List.length_range]
    omega

theorem moves_snapshot (settled : Settled level w) (id : String) :
    Moves level (levels level w.next (w.depth - 1)) w (w.snapshot id) := by
  have size : (w.tables ++ w.scopes).length = w.next + w.depth := by
    rw [List.length_append, length_scopes, next]
  have more : w.next ≤ (w.tables ++ w.scopes).length := by omega
  have same : ∀ n < w.next, levels level w.next (w.depth - 1) n = level n :=
    levels_of_lt (w.depth - 1)
  obtain ⟨live, common, kept, saved⟩ := settled_tables settled more same
  refine ⟨⟨live, common, kept, List.forall_mem_cons.mpr ⟨?_, saved⟩⟩, same, more, rfl⟩
  have new : Stacked (levels level w.next (w.depth - 1)) (w.next + w.depth)
      ((List.range w.depth).map (w.next + ·)) := stacked_new w.depth
  rw [← size] at new
  exact new

theorem stacked_stored (settled : Settled level w) (id : String) :
    Stacked level w.next (w.stored id) := by
  rw [stored]
  cases found : w.saved.find? (·.1 = id) with
  | none => trivial
  | some entry => exact settled.saved entry (List.mem_of_find?_eq_some found)

theorem moves_restore (settled : Settled level w) {id : String} (run : w.restore id = .ok after) :
    Moves level level w after := by
  obtain ⟨count, rfl⟩ := restore_ok run
  exact ⟨settled_live settled (stacked_stored settled id) count, fun _ _ => rfl, Nat.le_refl _, rfl⟩

theorem settled_enterFrame (settled : Settled level w) {depth : Int}
    (run : w.enterFrame depth = .ok inner) :
    ∃ level', Settled level' inner ∧ Moves level level' w (w.leaveFrame inner depth.toNat) := by
  obtain ⟨fits, rfl⟩ := enterFrame_ok run
  let base : Workspace ι := { w with
    live := w.live.drop (w.live.length - depth.toNat), kept := depth.toNat, left := [] }
  have tall : base.live.length = depth.toNat := by
    rw [Workspace.depth] at fits
    rw [List.length_drop]
    omega
  have whole : base.live.length - base.kept = 0 := by
    rw [tall]
    exact Nat.sub_self _
  -- The outermost scopes alone stand at their levels too.
  have stands : Settled level base := by
    have live := stacked_drop settled.live (w.live.length - depth.toNat)
    refine ⟨live, ?_, Nat.le_of_eq tall.symm, settled.saved⟩
    rw [shared, whole]
    exact live
  obtain ⟨entered, same, grows, _⟩ := moves_enter stands
  refine ⟨_, entered, ?_, same, grows, rfl⟩
  -- A frame that is left at once has added an empty table and nothing else.
  have back : w.leaveFrame base.enter depth.toNat =
      { w with tables := w.tables ++ [Scope.empty] } := by
    have one : base.enter.live.length - base.enter.kept = 1 := by
      change base.live.length + 1 - depth.toNat = 1
      omega
    simp only [leaveFrame, one]
    change { w with
      tables := w.tables ++ [Scope.empty]
      live := w.live.take (w.live.length - depth.toNat) ++
        w.live.drop (w.live.length - depth.toNat) } = _
    rw [List.take_append_drop]
  rw [back]
  exact settled_tables settled grows same

theorem moves_leaveFrame (w : Workspace ι) (depth : Nat) (settled : Settled level inner)
    (under : Settled level (w.leaveFrame inner depth)) (moves : Moves level level' inner after) :
    Moves level level' (w.leaveFrame inner depth) (w.leaveFrame after depth) := by
  have under : Settled level' { w.leaveFrame inner depth with tables := after.tables } :=
    settled_tables under moves.grows moves.same
  have count : after.shared.length = inner.shared.length := by
    rw [length_shared moves.settled, length_shared settled, moves.common]
  have live : Stacked level' after.next (w.leaveFrame after depth).live :=
    stacked_swap under.live moves.settled.shared count
  have tall : (w.leaveFrame after depth).live.length = (w.leaveFrame inner depth).live.length := by
    change (w.live.take _ ++ after.shared).length = (w.live.take _ ++ inner.shared).length
    rw [List.length_append, List.length_append, count]
  have goal := settled_live under live tall
  exact ⟨⟨goal.live, goal.shared, goal.kept, moves.settled.saved⟩, moves.same, moves.grows, rfl⟩

end

theorem goes_respected :
    Respected (freely : Workspace ι → Command ι τ → Prop) Goes where
  refl w level settled := ⟨level, moves_refl settled⟩
  trans first second level settled := by
    obtain ⟨level', moves⟩ := first level settled
    obtain ⟨level'', next⟩ := second level' moves.settled
    exact ⟨level'', moves_trans moves next⟩
  enter w level settled := ⟨_, moves_enter settled⟩
  leave left level settled := ⟨level, moves_leave settled left⟩
  write w scopes level settled := ⟨level, moves_withScopes settled scopes⟩
  resume count fits level settled := ⟨_, moves_resume settled count fits⟩
  snapshot _ level settled := ⟨_, moves_snapshot settled _⟩
  restore _ back level settled := ⟨level, moves_restore settled back⟩
  frame {w inner after depth} entered goes level settled := by
    obtain ⟨level', inside, under⟩ := settled_enterFrame settled entered
    obtain ⟨level'', moves⟩ := goes level' inside
    exact ⟨level'', moves_trans under (moves_leaveFrame w _ inside under.settled moves)⟩

section

variable {pass : Pass ι τ ρ} {level : Nat → Nat} {w : Workspace ι}

theorem moves_run (keeps : pass.KeepsCount) {c : Command ι τ} {r : Ran ι (Reply ι ρ)}
    (settled : Settled level w) (ran : run pass w c = some r) :
    ∃ level', Moves level level' w r.after :=
  respected_run goes_respected keeps c (along_freely c w) ran level settled

theorem moves_runAll (keeps : pass.KeepsCount) {cs : List (Command ι τ)} {l : Listing ι ρ}
    (settled : Settled level w) (ran : runAll pass w cs = some l) :
    ∃ level', Moves level level' w l.after :=
  respected_runAll goes_respected keeps cs (alongAll_freely cs w) ran level settled

end

end Workspace
end TypedLet
