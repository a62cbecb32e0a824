import TypedLet.Proofs.Workspace.Tables

/-
Which tables can stand on one another. Each table has a level, the number of
scopes outside of the one it was made for, and no command puts it at another:
stored scopes come back at the depth they were stored at. So no two of the live
scopes ever share a table, whatever was put back before.
-/
namespace TypedLet
namespace Workspace

/-- Numbers of tables below `bound` as the scopes of a stack, innermost first,
    each at its level. -/
def Stacked (level : Nat → Nat) (bound : Nat) : List Nat → Prop
  | [] => True
  | n :: outer => (n < bound ∧ level n = outer.length) ∧ Stacked level bound outer

section

variable {level level' : Nat → Nat} {bound bound' : Nat} {upper lower other : List Nat}

theorem stacked_mono (stacked : Stacked level bound lower) (grows : bound ≤ bound')
    (same : ∀ n < bound, level' n = level n) : Stacked level' bound' lower := by
  induction lower with
  | nil => trivial
  | cons n outer ih =>
    obtain ⟨⟨fits, height⟩, rest⟩ := stacked
    exact ⟨⟨Nat.lt_of_lt_of_le fits grows, (same n fits).trans height⟩, ih rest⟩

theorem stacked_of_append (stacked : Stacked level bound (upper ++ lower)) :
    Stacked level bound lower := by
  induction upper with
  | nil => exact stacked
  | cons n outer ih => exact ih stacked.2

theorem stacked_drop (stacked : Stacked level bound lower) (count : Nat) :
    Stacked level bound (lower.drop count) := by
  rw [← List.take_append_drop count lower] at stacked
  exact stacked_of_append stacked

theorem stacked_swap (stacked : Stacked level bound (upper ++ lower))
    (instead : Stacked level bound other) (count : other.length = lower.length) :
    Stacked level bound (upper ++ other) := by
  induction upper with
  | nil => exact instead
  | cons n outer ih =>
    obtain ⟨⟨fits, height⟩, rest⟩ := stacked
    have tall : (outer ++ other).length = (outer ++ lower).length := by
      rw [List.length_append, List.length_append, count]
    exact ⟨⟨fits, height.trans tall.symm⟩, ih rest⟩

theorem bound_of_stacked (stacked : Stacked level bound lower) : ∀ n ∈ lower, n < bound := by
  induction lower with
  | nil => nofun
  | cons n outer ih => exact List.forall_mem_cons.mpr ⟨stacked.1.1, ih stacked.2⟩

theorem level_of_stacked (stacked : Stacked level bound lower) :
    ∀ n ∈ lower, level n < lower.length := by
  induction lower with
  | nil => nofun
  | cons n outer ih =>
    obtain ⟨⟨_, height⟩, rest⟩ := stacked
    intro m member
    rw [List.length_cons]
    rcases List.mem_cons.mp member with rfl | later
    · omega
    · have := ih rest m later
      omega

theorem nodup_of_stacked (stacked : Stacked level bound lower) : lower.Nodup := by
  induction lower with
  | nil => exact List.nodup_nil
  | cons n outer ih =>
    obtain ⟨⟨_, height⟩, rest⟩ := stacked
    apply List.nodup_cons.mpr
    refine ⟨?_, ih rest⟩
    intro member
    have := level_of_stacked rest n member
    omega

def levels (level : Nat → Nat) (bound top n : Nat) : Nat :=
  if n < bound then level n else top - (n - bound)

theorem levels_of_lt (top : Nat) : ∀ n < bound, levels level bound top n = level n := by
  intro n old
  rw [levels, if_pos old]

theorem stacked_new (count : Nat) :
    Stacked (levels level bound (count - 1)) (bound + count)
      ((List.range count).map (bound + ·)) := by
  have further : ∀ rest i, i + rest = count →
      Stacked (levels level bound (count - 1)) (bound + count) (List.range' (bound + i) rest) := by
    intro rest
    induction rest with
    | zero => intro i _; trivial
    | succ rest ih =>
      intro i sum
      rw [List.range'_succ]
      refine ⟨⟨by omega, ?_⟩, ih (i + 1) (by omega)⟩
      rw [levels, if_neg (by omega), List.length_range']
      omega
  rw [← List.range'_eq_map_range]
  exact further count 0 (Nat.zero_add count)

end

def shared (w : Workspace ι) : List Nat := w.left ++ w.live.drop (w.live.length - w.kept)

structure Settled (level : Nat → Nat) (w : Workspace ι) : Prop where
  live : Stacked level w.next w.live
  shared : Stacked level w.next w.shared
  kept : w.kept ≤ w.depth
  saved : ∀ s ∈ w.saved, Stacked level w.next s.2

/-- How a workspace goes on: tables keep their levels, and a frame keeps as many
    scopes in common with its caller. -/
structure Moves (level level' : Nat → Nat) (w after : Workspace ι) : Prop where
  settled : Settled level' after
  same : ∀ n < w.next, level' n = level n
  grows : w.next ≤ after.next
  common : after.kept + after.left.length = w.kept + w.left.length

def Goes (w after : Workspace ι) : Prop :=
  ∀ level, Settled level w → ∃ level', Moves level level' w after

section

variable {level level' : Nat → Nat} {w after : Workspace ι}

theorem length_shared (settled : Settled level w) : w.shared.length = w.kept + w.left.length := by
  have kept := settled.kept
  simp only [shared, depth, List.length_append, List.length_drop] at kept ⊢
  omega

theorem settled_start (level : Nat → Nat) : Settled level (start : Workspace ι) where
  live := trivial
  shared := trivial
  kept := Nat.le_refl 0
  saved := by nofun

theorem moves_refl (settled : Settled level w) : Moves level level w w :=
  ⟨settled, fun _ _ => rfl, Nat.le_refl _, rfl⟩

theorem moves_trans {level'' : Nat → Nat} {last : Workspace ι} (first : Moves level level' w after)
    (second : Moves level' level'' after last) : Moves level level'' w last := by
  refine ⟨second.settled, ?_, Nat.le_trans first.grows second.grows,
    second.common.trans first.common⟩
  intro n old
  rw [second.same n (Nat.lt_of_lt_of_le old first.grows), first.same n old]

theorem settled_tables (settled : Settled level w) {tables : List (Scope ι)}
    (grows : w.next ≤ tables.length) (same : ∀ n < w.next, level' n = level n) :
    Settled level' { w with tables } where
  live := stacked_mono settled.live grows same
  shared := stacked_mono settled.shared grows same
  kept := settled.kept
  saved s member := stacked_mono (settled.saved s member) grows same

theorem settled_live (settled : Settled level w) {live : List Nat}
    (stacked : Stacked level w.next live) (count : live.length = w.depth) :
    Settled level { w with live } where
  live := stacked
  shared := by
    rw [depth] at count
    apply stacked_swap settled.shared (stacked_drop stacked _)
    rw [List.length_drop, List.length_drop, count]
  kept := by
    have kept := settled.kept
    rwa [← count] at kept
  saved := settled.saved

end
end Workspace
end TypedLet
