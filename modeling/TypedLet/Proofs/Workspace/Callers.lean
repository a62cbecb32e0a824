import TypedLet.Proofs.Workspace.Runs

/-
Callers under a frame. While a frame runs, its callers wait for it, each with
scopes of its own on top of those it has in common with the frame. What a caller
finds when the frame ends is what the tables of its scopes then hold.
-/
namespace TypedLet
namespace Workspace

/-- A caller, as it was when it entered a frame on its `depth` outermost scopes. -/
structure Suspended (ι : Type) where
  workspace : Workspace ι
  depth : Nat

def Suspended.under (caller : Suspended ι) (w : Workspace ι) : Workspace ι :=
  caller.workspace.leaveFrame w caller.depth

/-- The workspaces that commands lead to, with the callers that wait under them,
    the nearest first. -/
inductive Reached (passes : Nat → Pass ι τ ρ) : Workspace ι → List (Suspended ι) → Prop
  | start : Reached passes start []
  | run {w callers fuel c r} : Reached passes w callers → run (passes fuel) w c = some r →
      Reached passes r.after callers
  | frame {w callers d inner} : Reached passes w callers → w.enterFrame d = .ok inner →
      Reached passes inner (⟨w, d.toNat⟩ :: callers)

theorem reached_runAll {passes : Nat → Pass ι τ ρ} (fuel : Nat) {callers : List (Suspended ι)} :
    ∀ (cs : List (Command ι τ)) {w : Workspace ι} {l : Listing ι ρ}, Reached passes w callers →
      runAll (passes fuel) w cs = some l → Reached passes l.after callers
  | [], w, l, reached, ran => by
    cases ran
    exact reached
  | c :: cs, w, l, reached, ran => by
    obtain ⟨r, ranFirst, rest⟩ := runAll_cons ran
    have first := Reached.run reached ranFirst
    rcases rest with ⟨_, last⟩ | ⟨_, others, ranRest, last⟩
    · rw [last]
      exact first
    · rw [last]
      exact reached_runAll fuel cs first ranRest

/-- Where commands that keep a rule can lead from a workspace and its callers. Frames are
    entered and left on the way, also the frame that the workspace itself is in. -/
inductive Leads (passes : Nat → Pass ι τ ρ) (rule : Workspace ι → Command ι τ → Prop)
    (w : Workspace ι) (callers : List (Suspended ι)) :
    Workspace ι → List (Suspended ι) → Prop
  | here : Leads passes rule w callers w callers
  | run {now waiting fuel c r} : Leads passes rule w callers now waiting →
      Along (passes fuel) rule now c → run (passes fuel) now c = some r →
      Leads passes rule w callers r.after waiting
  | frame {now waiting d inner} : Leads passes rule w callers now waiting →
      now.enterFrame d = .ok inner → Leads passes rule w callers inner (⟨now, d.toNat⟩ :: waiting)
  | back {now caller waiting} : Leads passes rule w callers now (caller :: waiting) →
      Leads passes rule w callers (caller.under now) waiting

section

variable {passes : Nat → Pass ι τ ρ} {rule : Workspace ι → Command ι τ → Prop}
  {w : Workspace ι} {callers waiting : List (Suspended ι)}

theorem leads_of_reached (reached : Reached passes w callers) :
    Leads passes freely start [] w callers := by
  induction reached with
  | start => exact .here
  | run _ ran ih => exact .run ih (along_freely _ _) ran
  | frame _ entered ih => exact .frame ih entered

theorem leads_runAll (fuel : Nat) : ∀ (cs : List (Command ι τ)) {now : Workspace ι}
    {l : Listing ι ρ}, Leads passes rule w callers now waiting →
      AlongAll (passes fuel) rule now cs → runAll (passes fuel) now cs = some l →
      Leads passes rule w callers l.after waiting
  | [], now, l, leads, along, ran => by
    cases ran
    exact leads
  | c :: cs, now, l, leads, along, ran => by
    obtain ⟨r, ranFirst, rest⟩ := runAll_cons ran
    have first := Leads.run leads along.1 ranFirst
    rcases rest with ⟨_, last⟩ | ⟨⟨reply, answer⟩, others, ranRest, last⟩
    · rw [last]
      exact first
    · rw [last]
      exact leads_runAll fuel cs first (along.2 r reply ranFirst answer) ranRest

end

def allScopes (w : Workspace ι) : List (Suspended ι) → List (Scopes ι)
  | [] => [w.scopes]
  | caller :: callers => w.scopes :: (caller.under w).allScopes callers

theorem head?_allScopes (w : Workspace ι) (callers : List (Suspended ι)) :
    (w.allScopes callers).head? = some w.scopes := by
  cases callers <;> rfl

/-- The tables of scopes that a caller has and the frame above it has not: those
    the caller set aside, and those that the frame has left. -/
def aside (w : Workspace ι) : List (Suspended ι) → List Nat
  | [] => []
  | caller :: callers =>
    caller.workspace.live.take (caller.workspace.live.length - caller.depth) ++ w.left ++
      (caller.under w).aside callers

def Chained (level : Nat → Nat) (w : Workspace ι) : List (Suspended ι) → Prop
  | [] => True
  | caller :: callers => Settled level (caller.under w) ∧ Chained level (caller.under w) callers

section

variable {level level' : Nat → Nat} {callers : List (Suspended ι)}

theorem chained_of_moves : ∀ {callers : List (Suspended ι)} {w after : Workspace ι},
    Settled level w → Moves level level' w after → Chained level w callers →
      Chained level' after callers
  | [], w, after, settled, moves, chained => trivial
  | caller :: callers, w, after, settled, moves, chained => by
    obtain ⟨under, rest⟩ := chained
    have next := moves_leaveFrame caller.workspace caller.depth settled under moves
    exact ⟨next.settled, chained_of_moves under next rest⟩

theorem settled_of_leads {passes : Nat → Pass ι τ ρ} (keeps : ∀ fuel, (passes fuel).KeepsCount)
    {rule : Workspace ι → Command ι τ → Prop} {w : Workspace ι}
    (leads : Leads passes rule start [] w callers) :
    ∃ level, Settled level w ∧ Chained level w callers := by
  induction leads with
  | here => exact ⟨fun _ => 0, settled_start _, trivial⟩
  | @run w callers fuel c r _ _ ran ih =>
    obtain ⟨level, settled, chained⟩ := ih
    obtain ⟨level', moves⟩ := moves_run (keeps fuel) settled ran
    exact ⟨level', moves.settled, chained_of_moves settled moves chained⟩
  | frame _ entered ih =>
    obtain ⟨level, settled, chained⟩ := ih
    obtain ⟨level', inside, moves⟩ := settled_enterFrame settled entered
    exact ⟨level', inside, moves.settled, chained_of_moves settled moves chained⟩
  | back _ ih =>
    obtain ⟨level, _, under, chained⟩ := ih
    exact ⟨level, under, chained⟩

theorem settled_of_reached {passes : Nat → Pass ι τ ρ} (keeps : ∀ fuel, (passes fuel).KeepsCount)
    {w : Workspace ι} (reached : Reached passes w callers) :
    ∃ level, Settled level w ∧ Chained level w callers :=
  settled_of_leads keeps (leads_of_reached reached)

theorem bound_of_aside : ∀ {callers : List (Suspended ι)} {w : Workspace ι}, Settled level w →
    Chained level w callers → ∀ n ∈ w.aside callers, n < w.next
  | [], w, settled, chained => by nofun
  | caller :: callers, w, settled, chained => by
    obtain ⟨under, rest⟩ := chained
    intro n member
    rcases List.mem_append.mp member with here | further
    · rcases List.mem_append.mp here with own | left
      · exact bound_of_stacked under.live n (List.mem_append_left _ own)
      · exact bound_of_stacked settled.shared n (List.mem_append_left _ left)
    · exact bound_of_aside under rest n further

end

theorem scopes_under (caller : Suspended ι) (w : Workspace ι) :
    (caller.under w).scopes =
      (caller.workspace.live.take (caller.workspace.live.length - caller.depth) ++ w.left).map
        w.table ++ w.scopes.drop (w.live.length - w.kept) := by
  simp only [scopes, Suspended.under, leaveFrame, List.map_append, List.map_drop,
    List.append_assoc]
  rfl

theorem allScopes_eq_iff {after w : Workspace ι} (scopes : after.scopes = w.scopes)
    (kept : after.kept = w.kept) (left : after.left = w.left) :
    ∀ callers, after.allScopes callers = w.allScopes callers ↔
      ∀ n ∈ w.aside callers, after.table n = w.table n := by
  intro callers
  induction callers generalizing after w with
  | nil => simp [allScopes, aside, scopes]
  | cons caller callers ih =>
    have tall : after.live.length = w.live.length := by
      have := congrArg List.length scopes
      rwa [length_scopes, length_scopes] at this
    -- The caller has its own tables and those that the frame has left; the rest it shares with it.
    have same : (caller.under after).scopes = (caller.under w).scopes ↔
        ∀ n ∈ caller.workspace.live.take (caller.workspace.live.length - caller.depth) ++ w.left,
          after.table n = w.table n := by
      rw [scopes_under, scopes_under, scopes, tall, kept, left, List.append_left_inj,
        List.map_inj_left]
    rw [allScopes, allScopes, scopes, List.cons_eq_cons, aside, List.forall_mem_append, ← same]
    constructor
    · rintro ⟨_, all⟩
      have head : (caller.under after).scopes = (caller.under w).scopes := by
        have own := congrArg List.head? all
        rw [head?_allScopes, head?_allScopes] at own
        exact Option.some.inj own
      exact ⟨head, (ih head rfl rfl).mp all⟩
    · rintro ⟨head, tables⟩
      exact ⟨rfl, (ih head rfl rfl).mpr tables⟩

end Workspace
end TypedLet
