import TypedLet.Proofs.Iteration.Counting
import TypedLet.Proofs.Iteration.Termination

/-
The rounds of a for loop, counted. Where the body does not assign the loop variable, that
variable stands through every run of the body, whatever the body declares, calls, nests or
matches; only the loop moves it, by one each time. It is below the goal whenever it is moved,
so it does not wrap. So the rounds are as many as there are integers from the start up to the
goal, the k-th of them starts at the k-th integer, and only a run of the body that fails or
does not end leaves some of them out.
-/
namespace TypedLet

namespace Eval

/-- A loop, together with the machines at which its body starts, in order. -/
def watchLoop (cond : Eval Bool) (body : Eval Unit) : Nat → Machine → Outcome Unit × List Machine
  | 0, _ => (.outOfFuel, [])
  | fuel + 1, m =>
    match cond m with
    | .done true middle =>
      match body middle with
      | .done _ after =>
        let (ending, later) := watchLoop cond body fuel after
        (ending, middle :: later)
      | .failed e after => (.failed e after, [middle])
      | .outOfFuel => (.outOfFuel, [middle])
    | .done false after => (.done () after, [])
    | .failed e after => (.failed e after, [])
    | .outOfFuel => (.outOfFuel, [])

theorem watchLoop_fst (cond : Eval Bool) (body : Eval Unit) (fuel : Nat) :
    ∀ m, (watchLoop cond body fuel m).1 = loop cond body fuel m := by
  induction fuel with
  | zero => intro m; rfl
  | succ fuel ih =>
    intro m
    unfold watchLoop loop
    cases cond m with
    | done again middle =>
      cases again with
      | true =>
        cases run : body middle with
        | done u after => simp only [run, ih]
        | failed e after => simp only [run]
        | outOfFuel => simp only [run]
      | false => rfl
    | failed e after => rfl
    | outOfFuel => rfl

section

variable {cond : Eval Bool} {body body' : Eval Unit} {fuel fuel' : Nat} {m middle after : Machine}
  {e : Error}

theorem watchLoop_stop (test : cond m = .done false after) :
    watchLoop cond body (fuel + 1) m = (.done () after, []) := by
  simp only [watchLoop, test]

theorem watchLoop_round (test : cond m = .done true middle) (run : body middle = .done () after) :
    watchLoop cond body (fuel + 1) m =
      ((watchLoop cond body fuel after).1, middle :: (watchLoop cond body fuel after).2) := by
  simp only [watchLoop, test, run]

theorem watchLoop_failed (test : cond m = .done true middle) (run : body middle = .failed e after) :
    watchLoop cond body (fuel + 1) m = (.failed e after, [middle]) := by
  simp only [watchLoop, test, run]

theorem watchLoop_first (test : cond m = .done true middle) (body : Eval Unit) (fuel : Nat) :
    ∃ later, (watchLoop cond body (fuel + 1) m).2 = middle :: later := by
  cases run : body middle with
  | done u after => exact ⟨_, congrArg Prod.snd (watchLoop_round test run)⟩
  | failed e after => exact ⟨[], congrArg Prod.snd (watchLoop_failed test run)⟩
  | outOfFuel => exact ⟨[], by simp only [watchLoop, test, run]⟩

theorem watchLoop_grows (grows : Grows body body') (le : fuel ≤ fuel') :
    (watchLoop cond body fuel m).2 <+: (watchLoop cond body' fuel' m).2 := by
  induction fuel generalizing fuel' m with
  | zero => exact List.nil_prefix
  | succ fuel ih =>
    cases fuel' with
    | zero => cases le
    | succ fuel' =>
      cases test : cond m with
      | done again middle =>
        cases again with
        | true =>
          obtain ⟨later, first⟩ := watchLoop_first test body' fuel'
          cases run : body middle with
          | done u after =>
            have run' := (Outcome.eq_of_grows (grows middle) (run ▸ nofun)).trans run
            rw [watchLoop_round test run, watchLoop_round test run']
            exact (List.prefix_cons_inj middle).mpr (ih (Nat.le_of_succ_le_succ le))
          | failed e after =>
            rw [watchLoop_failed test run, first]
            exact List.prefix_append [middle] later
          | outOfFuel =>
            have spent : (watchLoop cond body (fuel + 1) m).2 = [middle] := by
              simp only [watchLoop, test, run]
            rw [spent, first]
            exact List.prefix_append [middle] later
        | false => simp only [watchLoop, test, List.nil_prefix]
      | failed e after => simp only [watchLoop, test, List.nil_prefix]
      | outOfFuel => simp only [watchLoop, test, List.nil_prefix]

theorem watchLoop_done (grows : Grows body body') (le : fuel ≤ fuel')
    (ended : (watchLoop cond body fuel m).1 = .done () after) :
    (watchLoop cond body' fuel' m).1 = .done () after := by
  rw [watchLoop_fst] at ended ⊢
  have more := grows_loop (grows_same cond) grows le m
  exact (Outcome.eq_of_grows more (ended ▸ nofun)).trans ended

end

section Counter

variable {loop : VarDecl} {body : Expr} {i j c : Int64} {m : Machine}

def At (loop : VarDecl) (c : Int64) (m : Machine) : Prop :=
  ∃ rest, m.scopes = Scope.ofVar loop (.int c) :: rest

def round (loop : VarDecl) (body : Expr) (fuel : Nat) : Eval Unit := do
  let _ ← body.eval fuel
  advance loop

theorem grows_round {fuel fuel' : Nat} (le : fuel ≤ fuel') :
    Grows (round loop body fuel) (round loop body fuel') :=
  grows_bind (Expr.grows_eval le body) fun _ => grows_same _

theorem below_at (here : At loop c m) (j : Int64) :
    below loop (.int j) m = .done (decide (c < j)) m := by
  obtain ⟨rest, stack⟩ := here
  rw [below, bind_of_done (read_of_some (Expr.findVar_counter stack))]
  change Outcome.done (decide ((Value.int c).compare (.int j) = some .lt)) m = _
  congr 1
  rw [decide_eq_decide]
  constructor
  · intro less
    obtain ⟨_, same, smaller⟩ := int_of_compare less
    cases same
    exact smaller
  · intro smaller
    simp [Value.compare, Value.order, smaller]

theorem maintains_at (free : loop.name ∉ body.assigned) (fuel : Nat) :
    Maintains (At loop c) (body.eval fuel) := by
  rintro m ⟨rest, stack⟩
  have carried : Carries loop.name (.int c) 0 (List.length rest) m := by
    rw [Carries, stack]
    exact Carried.of_top (Scope.findVar_ofVar loop _) (List.forall_mem_nil _)
  have back : ∀ after : Machine, Carries loop.name (.int c) 0 (List.length rest) after ∧
      Scopes.outline after.scopes = Scopes.outline m.scopes → At loop c after := by
    rintro after ⟨carries, look⟩
    rw [stack] at look
    cases stack' : after.scopes with
    | nil => rw [stack'] at look; cases look
    | cons s rest' =>
      rw [stack'] at look
      obtain ⟨w, rfl⟩ := Scope.ofVar_of_outline (List.cons.inj look).1
      obtain ⟨b, found, held⟩ := carries.findVar
      rw [Expr.findVar_counter stack'] at found
      obtain rfl := Option.some.inj found
      exact ⟨rest', by rw [stack', ← held, Binding.info_of]⟩
  have both := Outcome.holds_and (Expr.carries_eval fuel body 0 free m carried)
    (Expr.keeps_eval fuel body m)
  exact Outcome.holds_mono both (fun _ => back) fun _ => back

theorem advance_at (here : At loop c m) : ∃ after, advance loop m = .done () after ∧
    At loop (c + 1) after := by
  obtain ⟨rest, stack⟩ := here
  refine ⟨{ m with scopes := Scope.ofVar loop (.int (c + 1)) :: rest }, ?_, rest, rfl⟩
  rw [advance, bind_of_done (read_of_some (Expr.findVar_counter stack))]
  exact assign_of_some (Expr.assign_counter stack _)

theorem round_cases (free : loop.name ∉ body.assigned) (here : At loop c m) (fuel : Nat) :
    (∃ v middle after, body.eval fuel m = .done v middle ∧
      round loop body fuel m = .done () after ∧ At loop (c + 1) after) ∨
    (∃ e after, body.eval fuel m = .failed e after ∧
      round loop body fuel m = .failed e after ∧ At loop c after) ∨
    (body.eval fuel m = .outOfFuel ∧ round loop body fuel m = .outOfFuel) := by
  have kept := maintains_at free fuel m here
  cases run : body.eval fuel m with
  | done v middle =>
    rw [run] at kept
    obtain ⟨after, moved, there⟩ := advance_at kept
    exact .inl ⟨v, middle, after, rfl, (bind_of_done run).trans moved, there⟩
  | failed e after =>
    rw [run] at kept
    exact .inr (.inl ⟨e, after, rfl, bind_of_failed run, kept⟩)
  | outOfFuel => exact .inr (.inr ⟨rfl, bind_of_outOfFuel run⟩)

/-- The `k`-th round starts with the variable at `i + k`, which is below `j`. -/
def Counts (loop : VarDecl) (i j : Int64) (k : Nat) (m : Machine) : Prop :=
  ∃ c, At loop c m ∧ c.toInt = i.toInt + k ∧ c < j

def steps (i j : Int64) : Nat := (j.toInt - i.toInt).toNat

structure Counted (loop : VarDecl) (i j : Int64) (body : Expr) (fuel : Nat)
    (watched : Outcome Unit × List Machine) : Prop where
  few : watched.2.length ≤ steps i j
  starts : ∀ k m, watched.2[k]? = some m → Counts loop i j k m
  done : ∀ after, watched.1 = .done () after →
    watched.2.length = steps i j ∧ ∃ c, At loop c after
  failed : ∀ e after, watched.1 = .failed e after →
    (∃ c, At loop c after) ∧
      ∃ last, watched.2.getLast? = some last ∧ body.eval fuel last = .failed e after

theorem counted_stop {fuel : Nat} {body : Expr} (here : At loop c m) (stop : ¬ c < j) :
    Counted loop c j body fuel (.done () m, []) := by
  have none : steps c j = 0 := by
    have order := Int64.lt_iff_toInt_lt.not.mp stop
    rw [steps]
    omega
  refine ⟨Nat.zero_le _, nofun, ?_, fun _ _ same => nomatch same⟩
  rintro after same
  cases same
  exact ⟨none.symm, c, here⟩

theorem counts_first (here : At loop c m) (less : c < j) : Counts loop c j 0 m :=
  ⟨c, here, by omega, less⟩

theorem steps_succ (less : c < j) : steps c j = steps (c + 1) j + 1 := by
  have order := Int64.lt_iff_toInt_lt.mp less
  rw [steps, steps, toInt_add_one less]
  omega

theorem counts_later {k : Nat} (less : c < j) (later : Counts loop (c + 1) j k m) :
    Counts loop c j (k + 1) m := by
  obtain ⟨d, here, value, below⟩ := later
  rw [toInt_add_one less] at value
  exact ⟨d, here, by omega, below⟩

theorem counted_last {o : Outcome Unit} {fuel : Nat} (here : At loop c m) (less : c < j)
    (unfinished : ∀ after, o ≠ .done () after)
    (failed : ∀ e after, o = .failed e after →
      (∃ c, At loop c after) ∧ body.eval fuel m = .failed e after) :
    Counted loop c j body fuel (o, [m]) := by
  refine ⟨?_, ?_, fun after ended => absurd ended (unfinished after), ?_⟩
  · rw [steps_succ less]
    exact Nat.le_add_left 1 _
  · intro k begun found
    cases k with
    | zero =>
      cases found
      exact counts_first here less
    | succ k => cases found
  · intro e after ended
    obtain ⟨there, run⟩ := failed e after ended
    exact ⟨there, m, rfl, run⟩

theorem counted_watchLoop (free : loop.name ∉ body.assigned) (fuel rounds : Nat) :
    ∀ {c m}, At loop c m → Counted loop c j body fuel
      (watchLoop (below loop (.int j)) (round loop body fuel) rounds m) := by
  -- On the fuel of the loop: a round leads to the same loop with the variable one further.
  induction rounds with
  | zero =>
    exact fun _ => ⟨Nat.zero_le _, nofun, (fun _ same => nomatch same), fun _ _ same =>
      nomatch same⟩
  | succ rounds ih =>
    intro c m here
    have test := below_at here j
    by_cases less : c < j
    · rw [decide_eq_true less] at test
      rcases round_cases free here fuel with
        ⟨v, middle, after, ran, turned, there⟩ | ⟨e, after, ran, turned, there⟩ | ⟨ran, turned⟩
      · obtain ⟨few, starts, done, failed⟩ := ih there
        have more := steps_succ less
        rw [watchLoop_round test turned]
        refine ⟨?_, ?_, ?_, ?_⟩
        · rw [List.length_cons, more]
          exact Nat.succ_le_succ few
        · intro k begun found
          cases k with
          | zero =>
            cases found
            exact counts_first here less
          | succ k => exact counts_later less (starts k begun found)
        · intro last ended
          obtain ⟨count, rest⟩ := done last ended
          exact ⟨by rw [List.length_cons, count, more], rest⟩
        · intro e last ended
          obtain ⟨rest, start, final, run⟩ := failed e last ended
          refine ⟨rest, start, ?_, run⟩
          rw [List.getLast?_cons, final]
          rfl
      · rw [watchLoop_failed test turned]
        refine counted_last here less nofun ?_
        rintro e' after' ended
        cases ended
        exact ⟨⟨c, there⟩, ran⟩
      · have spent : watchLoop (below loop (.int j)) (round loop body fuel) (rounds + 1) m =
            (.outOfFuel, [m]) := by
          simp only [watchLoop, test, turned]
        rw [spent]
        exact counted_last here less (fun _ same => nomatch same) fun _ _ same => nomatch same
    · rw [decide_eq_false less] at test
      rw [watchLoop_stop test]
      exact counted_stop here less

/-- A loop comes to its end when every run of the body that it starts does. -/
theorem ends_watchLoop (free : loop.name ∉ body.assigned) {n : Nat} :
    ∀ {c m}, At loop c m → steps c j = n →
      (∀ fuel, ∀ begun ∈ (watchLoop (below loop (.int j)) (round loop body fuel) fuel m).2,
        ∃ fuel' v after, body.eval fuel' begun = .done v after) →
      ∃ fuel after,
        (watchLoop (below loop (.int j)) (round loop body fuel) fuel m).1 = .done () after := by
  induction n with
  | zero =>
    intro c m here count _
    have test := below_at here j
    have stop : ¬ c < j := fun less => by
      rw [steps_succ less] at count
      cases count
    rw [decide_eq_false stop] at test
    exact ⟨1, m, congrArg Prod.fst (watchLoop_stop test)⟩
  | succ n ih =>
    intro c m here count finish
    have test := below_at here j
    have less : c < j := by
      by_contra stop
      have order := Int64.lt_iff_toInt_lt.not.mp stop
      rw [steps] at count
      omega
    rw [decide_eq_true less] at test
    obtain ⟨later, first⟩ := watchLoop_first test (round loop body 1) 0
    obtain ⟨fuel, v, middle, ran⟩ := finish 1 m (first ▸ List.mem_cons_self)
    have turns : ∀ fuel', fuel ≤ fuel' → ∃ after, round loop body fuel' m = .done () after ∧
        At loop (c + 1) after := by
      intro fuel' le
      have more := Outcome.eq_of_grows (Expr.grows_eval le body m) (ran ▸ nofun)
      rcases round_cases free here fuel' with ⟨_, _, after, _, turned, there⟩ | ⟨_, _, other, _⟩ |
        ⟨other, _⟩
      · exact ⟨after, turned, there⟩
      · rw [more, ran] at other
        cases other
      · rw [more, ran] at other
        cases other
    obtain ⟨after, turned, there⟩ := turns fuel (Nat.le_refl _)
    have same : ∀ {fuel'}, fuel ≤ fuel' → round loop body fuel' m = .done () after := fun le =>
      (Outcome.eq_of_grows (grows_round le m) (turned ▸ nofun)).trans turned
    have fewer : steps (c + 1) j = n := by
      rw [steps_succ less] at count
      exact Nat.succ.inj count
    -- The rounds after this one are rounds of the whole loop, once there is fuel for this one.
    obtain ⟨fuel', last, ended⟩ := ih there fewer (by
      intro fuel' begun started
      apply finish (max fuel fuel' + 1)
      rw [watchLoop_round test (same (by omega))]
      apply List.mem_cons_of_mem
      exact (watchLoop_grows (grows_round (by omega)) (by omega)).subset started)
    refine ⟨max fuel fuel' + 1, last, ?_⟩
    rw [watchLoop_round test (same (by omega))]
    exact watchLoop_done (grows_round (by omega)) (by omega) ended

end Counter
end Eval

namespace Expr

open Eval

variable {loop : VarDecl} {goal body : Expr} {m : Machine}

def begin (loop : VarDecl) (goal : Expr) (fuel : Nat) : Eval Value := do
  let start ← loop.value.eval fuel
  let bound ← goal.eval fuel
  declare (.var loop) start
  Pure.pure bound

def rounds (loop : VarDecl) (goal body : Expr) (fuel : Nat) (m : Machine) : List Machine :=
  match begin loop goal fuel { m with scopes := Scope.empty :: m.scopes } with
  | .done bound begun => (watchLoop (below loop bound) (round loop body fuel) fuel begun).2
  | _ => []

theorem eval_forTo (loop : VarDecl) (goal body : Expr) (span : Option Span) (fuel : Nat) :
    (forTo loop goal body span).eval (fuel + 1) =
      inScope (begin loop goal fuel >>= fun bound =>
        Eval.loop (below loop bound) (round loop body fuel) fuel) >>= fun _ => Pure.pure .void := by
  simp only [begin, bind_assoc]
  rfl

theorem eval_forTo_watched (loop : VarDecl) (goal body : Expr) (span : Option Span) (fuel : Nat) :
    (forTo loop goal body span).eval (fuel + 1) =
      inScope (begin loop goal fuel >>= fun bound begun =>
        (watchLoop (below loop bound) (round loop body fuel) fuel begun).1) >>= fun _ =>
          Pure.pure .void := by
  have watched : ∀ bound, Eval.loop (below loop bound) (round loop body fuel) fuel =
      fun begun => (watchLoop (below loop bound) (round loop body fuel) fuel begun).1 :=
    fun bound => funext fun begun => (watchLoop_fst _ _ fuel begun).symm
  simp only [eval_forTo, watched]

theorem empty_of_outline {scopes rest : Scopes Value}
    (look : scopes.outline = Scopes.outline (Scope.empty :: rest)) :
    ∃ outer, scopes = Scope.empty :: outer := by
  cases scopes with
  | nil => cases look
  | cons s outer =>
    obtain ⟨vars, fns⟩ := s
    obtain ⟨none, rfl⟩ := Scope.mk.inj (List.cons.inj look).1
    obtain rfl := List.map_eq_nil_iff.mp none
    exact ⟨outer, rfl⟩

theorem EndsAs.outline {e : Expr} {v : Value} {after : Machine}
    (ends : e.EndsAs m (.done v after)) : after.scopes.outline = m.scopes.outline := by
  obtain ⟨_, fuel, run⟩ := ends
  have kept := keeps_eval fuel e m
  rw [run] at kept
  exact kept

theorem grows_begin {fuel fuel' : Nat} (le : fuel ≤ fuel') :
    Grows (begin loop goal fuel) (begin loop goal fuel') :=
  grows_bind (grows_eval le _) fun _ => grows_bind (grows_eval le _) fun _ => grows_same _

variable {i j : Int64} {first second : Machine}

theorem begin_at
    (start : loop.value.EndsAs { m with scopes := Scope.empty :: m.scopes } (.done (.int i) first))
    (bound : goal.EndsAs first (.done (.int j) second)) :
    ∃ begun, At loop i begun ∧
      ∃ fuel, begin loop goal fuel { m with scopes := Scope.empty :: m.scopes } =
        .done (.int j) begun := by
  obtain ⟨rest, stack⟩ := empty_of_outline (bound.outline.trans start.outline)
  have declared : declare (.var loop) (.int i) second =
      .done () { second with scopes := Scope.ofVar loop (.int i) :: rest } :=
    declare_of_free stack rfl
  obtain ⟨_, fuel, run⟩ := start
  obtain ⟨_, fuel', run'⟩ := bound
  have run := Outcome.eq_of_grows (grows_eval (Nat.le_max_left fuel fuel') _ _) (run ▸ nofun)
    |>.trans run
  have run' := Outcome.eq_of_grows (grows_eval (Nat.le_max_right fuel fuel') _ _) (run' ▸ nofun)
    |>.trans run'
  refine ⟨{ second with scopes := Scope.ofVar loop (.int i) :: rest }, ⟨rest, rfl⟩,
    max fuel fuel', ?_⟩
  rw [begin, bind_of_done run, bind_of_done run', bind_of_done declared]
  rfl

theorem begin_of_le {fuel fuel' : Nat} {v : Value} {begun : Machine}
    (run : begin loop goal fuel m = .done v begun) (le : fuel ≤ fuel') :
    begin loop goal fuel' m = .done v begun :=
  (Outcome.eq_of_grows (grows_begin le m) (run ▸ nofun)).trans run

theorem begin_cases {fuel₀ : Nat} {v : Value} {begun : Machine}
    (run : begin loop goal fuel₀ m = .done v begun) (fuel : Nat) :
    begin loop goal fuel m = .outOfFuel ∨ begin loop goal fuel m = .done v begun := by
  rcases Nat.le_total fuel fuel₀ with le | le
  · rcases grows_begin le m with spent | same
    · exact .inl spent
    · exact .inr (same.symm.trans run)
  · exact .inr (begin_of_le run le)

section Ends

variable {fuel : Nat} {begun after : Machine} {e : Error}
  (run : begin loop goal fuel { m with scopes := Scope.empty :: m.scopes } = .done (.int j) begun)
include run

theorem rounds_of_begin : rounds loop goal body fuel m =
    (watchLoop (below loop (.int j)) (round loop body fuel) fuel begun).2 := by
  simp only [rounds, run]

theorem eval_forTo_of_begin (free : loop.name ∉ body.assigned) (here : At loop i begun)
    (span : Option Span) :
    (∃ last after, (watchLoop (below loop (.int j)) (round loop body fuel) fuel begun).1 =
        .done () last ∧ (forTo loop goal body span).eval (fuel + 1) m = .done .void after) ∨
    (∃ e last after, (watchLoop (below loop (.int j)) (round loop body fuel) fuel begun).1 =
        .failed e last ∧ (forTo loop goal body span).eval (fuel + 1) m = .failed e after) ∨
    (watchLoop (below loop (.int j)) (round loop body fuel) fuel begun).1 = .outOfFuel ∧
      (forTo loop goal body span).eval (fuel + 1) m = .outOfFuel := by
  have counted := counted_watchLoop (j := j) free fuel fuel here
  have inside : (begin loop goal fuel >>= fun bound =>
      Eval.loop (below loop bound) (round loop body fuel) fuel)
        { m with scopes := Scope.empty :: m.scopes } =
      (watchLoop (below loop (.int j)) (round loop body fuel) fuel begun).1 :=
    (bind_of_done run).trans (watchLoop_fst _ _ fuel begun).symm
  rw [eval_forTo]
  cases ending : (watchLoop (below loop (.int j)) (round loop body fuel) fuel begun).1 with
  | done u last =>
    obtain ⟨_, c, rest, stack⟩ := counted.done last ending
    exact .inl ⟨last, _, rfl, bind_of_done (inScope_of_done (inside.trans ending) stack)⟩
  | failed e last =>
    obtain ⟨⟨c, rest, stack⟩, _⟩ := counted.failed e last ending
    exact .inr (.inl ⟨e, last, _, rfl,
      bind_of_failed (inScope_of_failed (inside.trans ending) stack)⟩)
  | outOfFuel =>
    exact .inr (.inr ⟨rfl, bind_of_outOfFuel (inScope_of_outOfFuel (inside.trans ending))⟩)

end Ends

/-- A for loop from the integer `i` to the integer `j`, whose body does not assign the loop
    variable. It is the loop whose rounds are watched. There are no more rounds than integers
    from `i` up to `j`. The `k`-th starts with the variable at `i + k`, the body leaves it there,
    and the next integer is no wrapped one. A loop that returns has made all the rounds and
    returns nothing; one that fails does so in the last round that it started, by an error of the
    body. And when every run of the body that is started returns, the loop does. -/
theorem forTo_counts (free : loop.name ∉ body.assigned)
    (start : loop.value.EndsAs { m with scopes := Scope.empty :: m.scopes } (.done (.int i) first))
    (bound : goal.EndsAs first (.done (.int j) second)) (span : Option Span) :
    (∀ fuel,
      (forTo loop goal body span).eval (fuel + 1) =
        inScope (begin loop goal fuel >>= fun bound begun =>
          (watchLoop (below loop bound) (round loop body fuel) fuel begun).1) >>= (fun _ =>
            Pure.pure .void) ∧
      (rounds loop goal body fuel m).length ≤ (j.toInt - i.toInt).toNat ∧
      (∀ (k : Nat) begun, (rounds loop goal body fuel m)[k]? = some begun → ∃ c : Int64,
        c.toInt = i.toInt + k ∧ (c + 1).toInt = c.toInt + 1 ∧ At loop c begun ∧
        ∀ fuel' v after, body.eval fuel' begun = .done v after → At loop c after) ∧
      (∀ v after, (forTo loop goal body span).eval (fuel + 1) m = .done v after →
        v = .void ∧ (rounds loop goal body fuel m).length = (j.toInt - i.toInt).toNat) ∧
      ∀ e after, (forTo loop goal body span).eval (fuel + 1) m = .failed e after →
        ∃ last after', (rounds loop goal body fuel m).getLast? = some last ∧
          body.eval fuel last = .failed e after') ∧
    ((∀ fuel, ∀ begun ∈ rounds loop goal body fuel m,
        ∃ v after, body.EndsAs begun (.done v after)) →
      ∃ fuel after, (forTo loop goal body span).eval (fuel + 1) m = .done .void after) := by
  obtain ⟨begun, here, fuel₀, run₀⟩ := begin_at start bound
  refine ⟨fun fuel => ⟨eval_forTo_watched loop goal body span fuel, ?_⟩, fun finish => ?_⟩
  -- The bounds may still run out of fuel, and then there are no rounds.
  · rcases begin_cases run₀ fuel with spent | run
    · have none : rounds loop goal body fuel m = [] := by simp only [rounds, spent]
      have eval : (forTo loop goal body span).eval (fuel + 1) m = .outOfFuel := by
        rw [eval_forTo]
        exact bind_of_outOfFuel (inScope_of_outOfFuel (bind_of_outOfFuel spent))
      rw [none, eval]
      exact ⟨Nat.zero_le _, nofun, (fun _ _ same => nomatch same), fun _ _ same => nomatch same⟩
    · obtain ⟨few, starts, done, failed⟩ := counted_watchLoop (j := j) free fuel fuel here
      have ends := eval_forTo_of_begin run free here span
      rw [rounds_of_begin run]
      refine ⟨few, ?_, ?_, ?_⟩
      · intro k first started
        obtain ⟨c, there, value, less⟩ := starts k first started
        refine ⟨c, value, toInt_add_one less, there, ?_⟩
        intro fuel' v after ran
        have kept := maintains_at free fuel' first there
        rw [ran] at kept
        exact kept
      · intro v after eval
        rcases ends with ⟨last, _, ending, eval'⟩ | ⟨_, _, _, _, eval'⟩ | ⟨_, eval'⟩ <;>
          rw [eval] at eval' <;> cases eval'
        exact ⟨rfl, (done last ending).1⟩
      · intro e after eval
        rcases ends with ⟨_, _, _, eval'⟩ | ⟨_, last, _, ending, eval'⟩ | ⟨_, eval'⟩ <;>
          rw [eval] at eval' <;> cases eval'
        obtain ⟨_, begun', final, ran⟩ := failed e last ending
        exact ⟨begun', last, final, ran⟩
  -- The rounds of the watched loop start with some fuel; the runs of their bodies end with more.
  · obtain ⟨fuel, last, ended⟩ := ends_watchLoop (j := j) free here rfl (by
      intro fuel begun' started
      have run := begin_of_le run₀ (Nat.le_max_right fuel fuel₀)
      have more : begun' ∈ rounds loop goal body (max fuel fuel₀) m := by
        rw [rounds_of_begin run]
        exact (watchLoop_grows (grows_round (Nat.le_max_left fuel fuel₀))
          (Nat.le_max_left fuel fuel₀)).subset started
      obtain ⟨v, after, _, ran⟩ := finish _ begun' more
      exact ⟨_, v, after, ran.choose_spec⟩)
    have run := begin_of_le run₀ (Nat.le_max_right fuel fuel₀)
    have ended := watchLoop_done (grows_round (Nat.le_max_left fuel fuel₀))
      (Nat.le_max_left fuel fuel₀) ended
    rcases eval_forTo_of_begin run free here span with ⟨_, after, _, eval⟩ |
      ⟨_, _, _, ending, _⟩ | ⟨ending, _⟩
    · exact ⟨_, after, eval⟩
    · rw [ended] at ending
      cases ending
    · rw [ended] at ending
      cases ending

/-- There are three rounds from 0 to 3, although the first one moves the variable that is the
    goal. -/
theorem forTo_counts_moved_goal :
    fromZero.name ∉ sumUp.assigned ∧
    (forTo fromZero (var "n" none) sumUp none).eval 5 (sumMachine 3 0) =
      .done .void (sumMachine 1 3) ∧
    (rounds fromZero (var "n" none) sumUp 4 (sumMachine 3 0)).length = 3 := by
  have free : fromZero.name ∉ sumUp.assigned := by decide
  have run : (forTo fromZero (var "n" none) sumUp none).eval 5 (sumMachine 3 0) =
      .done .void (sumMachine 1 3) := rfl
  let entered : Machine :=
    { sumMachine 3 0 with scopes := Scope.empty :: (sumMachine 3 0).scopes }
  have start : fromZero.value.EndsAs entered (.done (.int 0) entered) := ⟨nofun, 1, rfl⟩
  have bound : (var "n" none).EndsAs entered (.done (.int 3) entered) := ⟨nofun, 1, rfl⟩
  exact ⟨free, run, (((forTo_counts free start bound none).1 4).2.2.2.1 _ _ run).2⟩

end Expr
end TypedLet
