import TypedLet.Proofs.Matching.Faults
import TypedLet.Proofs.Workspace.Reach

/-
What a frame does to its caller. The caller's own scopes are out of the frame's reach. Of those
that the two have in common the caller finds what the frame saw in them last, and that is, of a
scope that the frame has left, what it held then. This needs a proviso: a scope that was put back
stands on the table of the stored one, and once the frame has left it, the same stored scope can
be put back again for another one, which then writes into the table of the scope that was left.
-/
namespace TypedLet
namespace Workspace

/-- A scope that a frame leaves while its caller keeps it: its table, what it holds then, and
    what is in store. -/
structure Parting (ι : Type) where
  table : Nat
  scope : Scope ι
  saved : List (String × List Nat)

def Parting.Unstored (part : Part) (p : Parting ι) : Prop :=
  ∀ entry ∈ part.usable p.saved, p.table ∉ entry.2

/-- The innermost scope, if to leave it is to part from one of the caller's scopes. -/
def parting (w : Workspace ι) : List (Parting ι) :=
  match w.live with
  | [] => []
  | top :: outer => if outer.length + 1 = w.kept then [⟨top, w.table top, w.saved⟩] else []

mutual
def partings (pass : Pass ι τ ρ) (w : Workspace ι) : Command ι τ → List (Parting ι)
  | .leave => w.parting
  | .scope body => partingsAll pass w.enter body ++
      (runAll pass w.enter body).elim [] fun l => l.after.parting
  | _ => []
def partingsAll (pass : Pass ι τ ρ) (w : Workspace ι) : List (Command ι τ) → List (Parting ι)
  | [] => []
  | c :: cs => partings pass w c ++
      (run pass w c).elim [] fun r =>
        match r.answer with
        | .ok _ => partingsAll pass r.after cs
        | .error _ => []
end

/-- The scopes that were left on the way, in their order. Those that stood on no table in the
    part of the store are still as they were left. -/
structure Parted (part : Part) (w after : Workspace ι) (parted : List (Parting ι)) : Prop where
  left : after.left = w.left ++ parted.map (·.table)
  lasting : ∀ p ∈ parted, p.Unstored part →
    p.table < after.next ∧ p.table ∉ after.reach part ∧ after.table p.table = p.scope

section

variable {part : Part} {w middle after : Workspace ι} {level : Nat → Nat}
  {parted further : List (Parting ι)}

theorem parted_nil (same : after.left = w.left) : Parted part w after [] :=
  ⟨by rw [same, List.map_nil, List.append_nil], nofun⟩

theorem parted_append (first : Parted part w middle parted)
    (second : Parted part middle after further)
    (within : Within part middle after) : Parted part w after (parted ++ further) where
  left := by rw [second.left, first.left, List.map_append, List.append_assoc]
  lasting p member unstored := by
    rcases List.mem_append.mp member with before | later
    · obtain ⟨made, apart, same⟩ := first.lasting p before unstored
      refine ⟨Nat.lt_of_lt_of_le made within.grows, within.notMem made apart, ?_⟩
      rw [within.same _ made apart, same]
    · exact second.lasting p later unstored

theorem parted_leave (settled : Settled level w) (run : w.leave = .ok after) :
    Parted part w after w.parting := by
  obtain ⟨top, outer, stack, ends⟩ := leave_ok run
  have live := settled.live
  rw [parting, stack]
  rw [stack] at live
  rcases ends with ⟨mine, rfl⟩ | ⟨other, rfl⟩
  · simp only [if_pos mine]
    refine ⟨rfl, ?_⟩
    intro p member unstored
    rw [List.mem_singleton.mp member] at unstored ⊢
    refine ⟨live.1.1, ?_, rfl⟩
    rw [mem_reach]
    rintro (again | ⟨entry, usable, inside⟩)
    · exact (List.nodup_cons.mp (nodup_of_stacked live)).1 again
    · exact unstored entry usable inside
  · simp only [if_neg other]
    exact parted_nil rfl

theorem parted_leave_failed {e : Error} (run : w.leave = .error e) : w.parting = [] := by
  rw [parting]
  cases stack : w.live with
  | nil => rfl
  | cons top outer =>
    rw [leave, stack] at run
    dsimp only at run
    split at run <;> cases run

end

section

variable {pass : Pass ι τ ρ} {part : Part}

mutual
theorem parted_run (keeps : pass.KeepsCount) : ∀ (c : Command ι τ) {level : Nat → Nat}
    {w : Workspace ι} {r : Ran ι (Reply ι ρ)}, Settled level w → Along pass part.Keeps w c →
      run pass w c = some r → Parted part w r.after (partings pass w c)
  | .leave, level, w, r, settled, along, ran => by
    cases ran
    rw [partings]
    cases left : w.leave with
    | ok after => exact parted_leave settled left
    | error e =>
      rw [parted_leave_failed left]
      exact parted_nil rfl
  | .scope body, level, w, r, settled, along, ran => by
    obtain ⟨l, ranBody, rfl⟩ := Option.map_eq_some_iff.mp ran
    have entered := (moves_enter settled).settled
    -- The new scope is none of the caller's, so it makes no difference to what was left.
    obtain ⟨left, lasting⟩ := parted_runAll keeps body entered along ranBody
    have inside : Parted part w l.after (partingsAll pass w.enter body) := ⟨left, lasting⟩
    obtain ⟨level', moves⟩ := moves_runAll keeps entered ranBody
    rw [partings, ranBody]
    unfold closeScope
    split
    · next outer left =>
      exact parted_append inside (parted_leave moves.settled left) (within_leave left)
    · next e left =>
      change Parted part w l.after (_ ++ l.after.parting)
      rw [parted_leave_failed left, List.append_nil]
      exact inside
  | .restore id, level, w, r, settled, along, ran => by
    cases ran
    cases back : w.restore id with
    | ok after =>
      obtain ⟨_, rfl⟩ := restore_ok back
      exact parted_nil rfl
    | error e => exact parted_nil rfl
  | .builtin name args, level, w, r, settled, along, ran => by
    rw [run] at ran
    split at ran <;> cases ran <;> exact parted_nil rfl
  | .perform task, level, w, r, settled, along, ran => by
    obtain ⟨effect, performed, rfl⟩ := Option.map_eq_some_iff.mp ran
    exact parted_nil rfl
  | .frame depth body, level, w, r, settled, along, ran => by
    rw [run] at ran
    cases entered : w.enterFrame depth with
    | error e =>
      rw [entered] at ran
      cases ran
      exact parted_nil rfl
    | ok inner =>
      rw [entered] at ran
      obtain ⟨l, ranBody, rfl⟩ := Option.map_eq_some_iff.mp ran
      exact parted_nil rfl
  | .enter, level, w, r, settled, along, ran | .declare .., level, w, r, settled, along, ran
  | .declareFn .., level, w, r, settled, along, ran | .assign .., level, w, r, settled, along, ran
  | .snapshot .., level, w, r, settled, along, ran | .find .., level, w, r, settled, along, ran
  | .lookup .., level, w, r, settled, along, ran | .findFn .., level, w, r, settled, along, ran
  | .lookupFn .., level, w, r, settled, along, ran
  | .resolveFn .., level, w, r, settled, along, ran | .names, level, w, r, settled, along, ran => by
    cases ran
    exact parted_nil rfl
theorem parted_runAll (keeps : pass.KeepsCount) : ∀ (cs : List (Command ι τ)) {level : Nat → Nat}
    {w : Workspace ι} {l : Listing ι ρ}, Settled level w → AlongAll pass part.Keeps w cs →
      runAll pass w cs = some l → Parted part w l.after (partingsAll pass w cs)
  | [], level, w, l, settled, along, ran => by
    cases ran
    exact parted_nil rfl
  | c :: cs, level, w, l, settled, along, ran => by
    obtain ⟨r, ranFirst, rest⟩ := runAll_cons ran
    have first := parted_run keeps c settled along.1 ranFirst
    rw [partingsAll, ranFirst]
    rcases rest with ⟨⟨e, answer⟩, last⟩ | ⟨⟨reply, answer⟩, others, ranRest, last⟩
    · simp only [Option.elim, answer, List.append_nil, last]
      exact first
    · simp only [Option.elim, answer, last]
      obtain ⟨level', moves⟩ := moves_run keeps settled ranFirst
      have along' := along.2 r reply ranFirst answer
      have next := parted_runAll keeps cs moves.settled along' ranRest
      have within := respected_runAll (within_respected part) keeps cs along' ranRest
      exact parted_append first next within
end

end

/-- What the frame has seen last of the scopes that it has in common with its caller, innermost
    first: of those that it has left, what they held then, and of the others what they hold. -/
def lastSeen (parted : List (Parting ι)) (inside : Workspace ι) : Scopes ι :=
  parted.map (·.scope) ++ inside.scopes.outermost inside.kept

def Part.since (count : Nat) : Part where
  usable saved := saved.take (saved.length - count)
  opens entry saved e member := by
    by_cases more : count ≤ saved.length
    · have longer : (entry :: saved).length - count = saved.length - count + 1 := by
        rw [List.length_cons]
        omega
      rw [longer, List.take_succ_cons] at member
      exact List.mem_cons.mp member
    · have none : (entry :: saved).length - count = 0 := by
        rw [List.length_cons]
        omega
      rw [none] at member
      cases member

theorem since_zero_keeps (w : Workspace ι) (c : Command ι τ) : (Part.since 0).Keeps w c :=
  keeps_of_usable List.take_length c

section

variable {pass : Pass ι τ ρ} {w inner : Workspace ι} {level : Nat → Nat} {depth : Nat}

/-- The caller's own scopes are not within reach of a frame that puts back only what was stored
    since. -/
theorem notMem_reach_enterFrame (settled : Settled level w)
    (entered : w.enterFrame depth = .ok inner) :
    ∀ n ∈ w.live.take (w.live.length - depth), n ∉ inner.reach (.since w.saved.length) := by
  obtain ⟨_, rfl⟩ := enterFrame_ok entered
  intro n own reached
  have once := nodup_of_stacked settled.live
  rw [← List.take_append_drop (w.live.length - depth) w.live, List.nodup_append] at once
  rcases mem_reach.mp reached with live | ⟨entry, usable, _⟩
  · rcases List.mem_cons.mp live with new | common
    · have old := bound_of_stacked settled.live n (List.mem_of_mem_take own)
      rw [new] at old
      exact Nat.lt_irrefl _ old
    · exact once.2.2 n own n common rfl
  · have none : w.saved.length - w.saved.length = 0 := Nat.sub_self _
    change entry ∈ w.saved.take (w.saved.length - w.saved.length) at usable
    rw [none] at usable
    cases usable

theorem enterFrame_of_le (pos : 0 < depth) (fits : depth ≤ w.depth) :
    ∃ inner, w.enterFrame depth = .ok inner := by
  rw [← length_scopes] at fits
  rw [enterFrame, Scopes.checkFrame_of_le pos fits]
  exact ⟨_, rfl⟩

theorem scopes_leaveFrame {after : Workspace ι} (common : after.shared.length = depth) :
    (w.leaveFrame after depth).scopes.innermost depth =
        (w.live.take (w.live.length - depth)).map after.table ∧
      (w.leaveFrame after depth).scopes.outermost depth = after.shared.map after.table := by
  have parts : (w.leaveFrame after depth).scopes =
      (w.live.take (w.live.length - depth)).map after.table ++ after.shared.map after.table :=
    List.map_append
  have count : (after.shared.map after.table).length = depth := by rw [List.length_map, common]
  rw [parts, ← count]
  exact ⟨Scopes.innermost_append_length _ _, Scopes.outermost_append_length _ _⟩

theorem map_table_shared (w : Workspace ι) :
    w.shared.map w.table = w.left.map w.table ++ w.scopes.outermost w.kept := by
  rw [shared, List.map_append, List.map_drop, Scopes.outermost, length_scopes]
  rfl

theorem map_table_own {after : Workspace ι} (settled : Settled level w)
    (entered : w.enterFrame depth = .ok inner)
    (within : Within (.since w.saved.length) inner after) :
    (w.live.take (w.live.length - depth)).map after.table = w.scopes.innermost depth := by
  have start : Within .whole w inner := within_enterFrame entered
  rw [Scopes.innermost, length_scopes, scopes, ← List.map_take]
  apply List.map_inj_left.mpr
  intro n own
  have live : n ∈ w.live := List.mem_of_mem_take own
  have old := bound_of_stacked settled.live n live
  have apart := notMem_reach_enterFrame settled entered n own
  rw [within.same n (Nat.lt_of_lt_of_le old start.grows) apart]
  obtain ⟨_, rfl⟩ := enterFrame_ok entered
  exact table_of_append [Scope.empty] old rfl

end

section

variable {w after : Workspace ι} {parted : List (Parting ι)} {level : Nat → Nat} {depth : Nat}

theorem length_outermost_kept (settled : Settled level after) :
    (after.scopes.outermost after.kept).length = after.kept := by
  apply Scopes.length_outermost
  rw [length_scopes]
  exact settled.kept

theorem length_lastSeen (settled : Settled level after)
    (left : after.left = parted.map (·.table)) :
    (lastSeen parted after).length = after.shared.length := by
  rw [lastSeen, List.length_append, List.length_map, length_outermost_kept settled,
    length_shared settled, left, List.length_map, Nat.add_comm]

theorem outermost_kept_leaveFrame (w : Workspace ι) (depth : Nat)
    (settled : Settled level after) :
    (w.leaveFrame after depth).scopes.outermost after.kept =
      after.scopes.outermost after.kept := by
  have parts := scopes_under ⟨w, depth⟩ after
  change (w.leaveFrame after depth).scopes = _ ++ after.scopes.drop (after.depth - after.kept)
    at parts
  rw [← length_scopes, ← Scopes.outermost] at parts
  have cut := Scopes.outermost_append_length
    ((w.live.take (w.live.length - depth) ++ after.left).map after.table)
    (after.scopes.outermost after.kept)
  rwa [length_outermost_kept settled, ← parts] at cut

theorem depth_leaveFrame (common : after.shared.length = depth) (fits : depth ≤ w.depth) :
    (w.leaveFrame after depth).depth = w.depth := by
  rw [Workspace.depth] at fits ⊢
  change (w.live.take (w.live.length - depth) ++ after.shared).length = w.live.length
  rw [List.length_append, List.length_take, common]
  omega

/-- What the caller finds is what the frame has seen last, except in the tables of the scopes
    that were left. -/
theorem outermost_leaveFrame_iff (common : after.shared.length = depth)
    (left : after.left = parted.map (·.table)) :
    (w.leaveFrame after depth).scopes.outermost depth = lastSeen parted after ↔
      ∀ p ∈ parted, after.table p.table = p.scope := by
  rw [(scopes_leaveFrame common).2, map_table_shared, lastSeen, List.append_left_inj, left,
    List.map_map, List.map_inj_left]
  rfl

end

/-- What a frame on the `d` outermost scopes leaves to its caller, however its commands end, as
    long as they put back only what was stored in the frame. The caller has as many scopes as
    before, and its own ones are as they were. Of the `d` others, those that the frame still had
    hold what they held in the frame at its end. All of them hold what the frame saw in them last
    when it left none while that stood on the table of a stored scope, and in general exactly
    when the tables of those that it left hold what they held then. -/
theorem frame_effect {w : Workspace Value} {callers : List (Suspended Value)} {fuel d : Nat}
    {body : List (Command Value ValueTask)} {r : Ran Value (Reply Value ValueResult)}
    (reached : Leads valuePass freely start [] w callers) (pos : 0 < d) (fits : d ≤ w.depth)
    (own : Along (valuePass fuel) (Part.since w.saved.length).Keeps w (.frame d body))
    (ran : run (valuePass fuel) w (.frame d body) = some r) :
    ∃ inner l, w.enterFrame d = .ok inner ∧ runAll (valuePass fuel) inner body = some l ∧
      r.answer = .ok (.nested l.replies l.after.scopes l.failure) ∧
      r.after.depth = w.depth ∧
      r.after.scopes.innermost d = w.scopes.innermost d ∧
      r.after.scopes.outermost l.after.kept = l.after.scopes.outermost l.after.kept ∧
      let parted := partingsAll (valuePass fuel) inner body
      (lastSeen parted l.after).length = d ∧
      ((∀ p ∈ parted, p.Unstored (.since w.saved.length)) →
        r.after.scopes.outermost d = lastSeen parted l.after) ∧
      (r.after.scopes.outermost d = lastSeen parted l.after ↔
        ∀ p ∈ parted, l.after.table p.table = p.scope) := by
  obtain ⟨inner, entered⟩ := enterFrame_of_le pos fits
  rw [run, entered] at ran
  obtain ⟨l, ranBody, rfl⟩ := Option.map_eq_some_iff.mp ran
  -- Which tables stand at which level is known of the caller, then of the frame as it starts, and
  -- then of the frame as its commands leave it.
  have along := own inner entered
  obtain ⟨level, settled, _⟩ := settled_of_leads keepsCount_valuePass reached
  obtain ⟨level', start, _⟩ := settled_enterFrame settled entered
  have keeps := keepsCount_valuePass fuel
  obtain ⟨level'', moves⟩ := moves_runAll keeps start ranBody
  have within := respected_runAll (within_respected (Part.since w.saved.length)) keeps body along
    ranBody
  have parted := parted_runAll keeps body start along ranBody
  obtain ⟨kept, none⟩ := kept_enterFrame entered
  have common : l.after.shared.length = d := by
    rw [length_shared moves.settled, moves.common, kept, none]
    rfl
  -- The scopes that were left are listed in the order in which the frame parted from them.
  have left : l.after.left = (partingsAll (valuePass fuel) inner body).map (·.table) := by
    rw [parted.left, none, List.nil_append]
  have found := outermost_leaveFrame_iff (w := w) common left
  refine ⟨inner, l, entered, ranBody, rfl, depth_leaveFrame common fits, ?_, ?_, ?_, ?_, found⟩
  · exact (scopes_leaveFrame common).1.trans (map_table_own settled entered within)
  · exact outermost_kept_leaveFrame w d moves.settled
  · rw [length_lastSeen moves.settled left, common]
  · intro unstored
    exact found.mpr fun p member => (parted.lasting p member (unstored p member)).2.2

/-- The frame has one scope with `x = 0` in common with its caller. It puts a stored copy of its
    scopes back, leaves them, enters two new ones and puts the copy back for these. There the
    match `(x, 1) := (5, 2)` fails and is undone, but the caller finds 5 in its scope. -/
theorem frame_effect_put_back_twice :
    let pattern : Expr := .tuple [.var "x" none, .literal (.int 1) none] none
    let body : List (Command Value ValueTask) :=
      [.snapshot "s", .restore "s", .leave, .leave, .enter, .enter, .restore "s",
        .perform (.tryMatch pattern (Value.tupleOf [.int 5, .int 2]))]
    ∃ r inner l, run (valuePass 0) holding (.frame 1 body) = some r ∧
      holding.enterFrame 1 = .ok inner ∧ runAll (valuePass 0) inner body = some l ∧
      r.after.scopes.outermost 1 ≠ lastSeen (partingsAll (valuePass 0) inner body) l.after := by
  intro pattern body
  have ran : run (valuePass 0) holding (.frame 1 body) = some _ := rfl
  obtain ⟨inner, l, entered, ranBody, _, _, _, _, _, _, condition⟩ :=
    frame_effect (d := 1) (leads_of_reached reached_holding) (by decide) (by decide)
      (along_of_forall since_zero_keeps _ _) ran
  refine ⟨_, inner, l, ran, entered, ranBody, fun same => ?_⟩
  cases entered
  cases ranBody
  have lasting := condition.mp same ⟨3, xZero, [("s", [2, 3])]⟩ List.mem_cons_self
  let read (s : Scope Value) : Option Value := (s.findVar "x").map (·.info)
  have equal : some (Value.int 5) = some (Value.int 0) := congrArg read lasting
  cases equal

end Workspace
end TypedLet
