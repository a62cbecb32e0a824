import TypedLet.Proofs.Workspace.Callers

/-
Sharing comes from the store alone. As long as nothing was stored, no table stands
for two scopes, neither of one caller nor of two.
-/
namespace TypedLet
namespace Workspace

/-- Nothing was stored yet, or each table stands at most once among the live scopes,
    those that the frame has left and `others`. -/
def Lone (others : List Nat) (w : Workspace ι) : Prop :=
  w.saved = [] → ∀ n,
    w.live.count n + w.left.count n + others.count n ≤ if n < w.next then 1 else 0

structure Apart (w after : Workspace ι) : Prop where
  unsaved : after.saved = [] → w.saved = []
  lone : ∀ others, Lone others w → Lone others after

section

variable {w after inner : Workspace ι}

theorem apart_refl (w : Workspace ι) : Apart w w := ⟨id, fun _ => id⟩

theorem apart_trans {last : Workspace ι} (first : Apart w after) (second : Apart after last) :
    Apart w last :=
  ⟨first.unsaved ∘ second.unsaved, fun others => second.lone others ∘ first.lone others⟩

theorem apart_withScopes (scopes : Scopes ι) : Apart w (w.withScopes scopes) where
  unsaved := id
  lone others lone none n := by
    rw [next_withScopes]
    exact lone none n

theorem apart_enter (w : Workspace ι) : Apart w w.enter where
  unsaved := id
  lone others lone none n := by
    have before := lone none n
    rw [next_enter]
    simp only [enter, List.count_cons, beq_iff_eq] at before ⊢
    split at before <;> split <;> split <;> omega

theorem apart_leave (run : w.leave = .ok after) : Apart w after := by
  obtain ⟨top, outer, stack, ⟨_, rfl⟩ | ⟨_, rfl⟩⟩ := leave_ok run
  · refine ⟨id, fun others lone none n => ?_⟩
    have before := lone none n
    rw [stack] at before
    simp only [List.count_cons, List.count_append, List.count_nil] at before ⊢
    change _ ≤ if n < w.next then 1 else 0
    omega
  · refine ⟨id, fun others lone none n => ?_⟩
    have before := lone none n
    rw [stack] at before
    rw [List.count_cons] at before
    change outer.count n + w.left.count n + _ ≤ if n < w.next then 1 else 0
    omega

theorem count_new (bound count n : Nat) : ((List.range count).map (bound + ·)).count n ≤
    if bound ≤ n ∧ n < bound + count then 1 else 0 := by
  rw [← List.range'_eq_map_range]
  split
  · exact List.nodup_iff_count.mp List.nodup_range' n
  · next outside =>
    have absent : n ∉ List.range' bound count := by
      rw [List.mem_range'_1]
      exact outside
    exact Nat.le_of_eq (List.count_eq_zero.mpr absent)

theorem apart_resume {scopes abandoned : Scopes ι} (count : scopes.length = w.depth)
    (fits : abandoned.length ≤ w.depth) : Apart w (w.resume scopes abandoned) where
  unsaved := id
  lone others lone none n := by
    have before := lone none n
    have stay : (w.live.take (w.live.length - abandoned.length)).count n ≤ w.live.count n :=
      (List.take_sublist _ _).count_le n
    have new := count_new w.next abandoned.length n
    rw [next_resume count fits]
    simp only [resume, List.count_append, length_write]
    rw [next] at before new ⊢
    split at before <;> split at new <;> split <;> omega

theorem apart_snapshot (w : Workspace ι) (id : String) : Apart w (w.snapshot id) :=
  ⟨nofun, fun _ _ => nofun⟩

theorem apart_restore {id : String} (run : w.restore id = .ok after) : Apart w after := by
  obtain ⟨count, rfl⟩ := restore_ok run
  refine ⟨fun none => none, fun others lone none n => ?_⟩
  have nothing : w.stored id = [] := by
    change w.saved = [] at none
    rw [stored, none]
    rfl
  have empty : w.live = [] := by
    rw [nothing] at count
    exact List.length_eq_zero_iff.mp count.symm
  have before := lone none n
  rw [empty] at before
  rw [nothing]
  exact before

def behind (w : Workspace ι) (depth : Nat) : List Nat :=
  w.live.take (w.live.length - depth) ++ w.left

theorem lone_enterFrame {depth : Int} (run : w.enterFrame depth = .ok inner) :
    (inner.saved = [] → w.saved = []) ∧
      ∀ others, Lone others w → Lone (w.behind depth.toNat ++ others) inner := by
  obtain ⟨_, rfl⟩ := enterFrame_ok run
  refine ⟨id, fun others lone => ?_⟩
  apply (apart_enter _).lone
  intro none n
  have before := lone none n
  have whole := congrArg (List.count n)
    (List.take_append_drop (w.live.length - depth.toNat) w.live)
  rw [List.count_append] at whole
  simp only [behind, List.count_append, List.count_nil]
  change _ ≤ if n < w.next then 1 else 0
  omega

theorem apart_frame {depth : Int} (run : w.enterFrame depth = .ok inner)
    (goes : Apart inner after) : Apart w (w.leaveFrame after depth.toNat) where
  unsaved := (lone_enterFrame run).1 ∘ goes.unsaved
  lone others lone none n := by
    have last := goes.lone _ ((lone_enterFrame run).2 others lone) none n
    have rest : (after.live.drop (after.live.length - after.kept)).count n ≤ after.live.count n :=
      (List.drop_sublist _ _).count_le n
    simp only [behind, leaveFrame, List.count_append] at last ⊢
    change _ ≤ if n < after.next then 1 else 0
    omega

theorem apart_respected :
    Respected (freely : Workspace ι → Command ι τ → Prop) Apart where
  refl := apart_refl
  trans := apart_trans
  enter := apart_enter
  leave := apart_leave
  write _ := apart_withScopes
  resume := apart_resume
  snapshot _ := apart_snapshot _ _
  restore _ := apart_restore
  frame := apart_frame

def behindAll : List (Suspended ι) → List Nat
  | [] => []
  | caller :: callers => caller.workspace.behind caller.depth ++ behindAll callers

theorem mem_of_aside : ∀ {callers : List (Suspended ι)} {w : Workspace ι},
    ∀ n ∈ w.aside callers, n ∈ w.left ∨ n ∈ behindAll callers
  | [], w => by nofun
  | caller :: callers, w => by
    intro n member
    rcases List.mem_append.mp member with here | further
    · rcases List.mem_append.mp here with own | left
      · exact Or.inr (List.mem_append_left _ (List.mem_append_left _ own))
      · exact Or.inl left
    · rcases mem_of_aside n further with left | behind
      · exact Or.inr (List.mem_append_left _ (List.mem_append_right _ left))
      · exact Or.inr (List.mem_append_right _ behind)

theorem lone_of_reached {passes : Nat → Pass ι τ ρ} (keeps : ∀ fuel, (passes fuel).KeepsCount)
    {callers : List (Suspended ι)} (reached : Reached passes w callers) :
    Lone (behindAll callers) w := by
  induction reached with
  | start => intro _ n; exact Nat.zero_le _
  | @run w callers fuel c r _ ran ih =>
    exact (respected_run apart_respected (keeps fuel) c (along_freely c w) ran).lone _ ih
  | frame _ entered ih => exact (lone_enterFrame entered).2 _ ih

/-- Without a store, no table of a live scope is set aside. -/
theorem not_aside_of_unsaved {passes : Nat → Pass ι τ ρ}
    (keeps : ∀ fuel, (passes fuel).KeepsCount) {callers : List (Suspended ι)}
    (reached : Reached passes w callers) (unsaved : w.saved = []) :
    ∀ n ∈ w.live, n ∉ w.aside callers := by
  intro n live aside
  have once := lone_of_reached keeps reached unsaved n
  have here := List.count_pos_iff.mpr live
  rcases mem_of_aside n aside with left | behind
  · have there := List.count_pos_iff.mpr left
    split at once <;> omega
  · have there := List.count_pos_iff.mpr behind
    split at once <;> omega

end
end Workspace
end TypedLet
