import TypedLet.Proofs.Evaluation.Exits
import TypedLet.Proofs.Evaluation.Fuel
import TypedLet.Proofs.Iteration.Standing

/-
Programs that end. Without functions and while loops only for loops could run for ever, and a
for loop whose body does not assign its variable does not: the variable stands while the body
runs, so each round makes it larger by one and brings it closer to the goal, which is fixed.
This needs no types. A variable that is no integer, or that can not be compared with the
goal, ends the loop in the first round; and while the variable is below the goal it is not
the largest integer, so it does not wrap.
-/
namespace TypedLet

open Scopes

namespace Expr

mutual
/-- There are no while loops, no functions are declared, and no loop assigns its own
    variable. Nothing is asked of patterns, which are matched and never run. -/
def Bounded : Expr → Prop
  | literal _ _ | var _ _ => True
  | group body _ => AllBounded body
  | letIn vars fns body _ => VarsBounded vars ∧ fns = [] ∧ AllBounded body
  | assign _ value _ _ => value.Bounded
  | matchWith _ value _ => value.Bounded
  | call _ args _ => AllBounded args
  | ifElse cond whenTrue whenFalse _ =>
    cond.Bounded ∧ whenTrue.Bounded ∧ whenFalse.Bounded
  | whileDo _ _ _ => False
  | forTo ⟨name, start, _⟩ goal body _ =>
    start.Bounded ∧ goal.Bounded ∧ body.Bounded ∧ name ∉ body.assigned
  | binary left _ right _ => left.Bounded ∧ right.Bounded
  | unary _ operand _ => operand.Bounded
  | cast operand _ _ => operand.Bounded
  | array items _ _ _ => AllBounded items
  | tuple items _ => AllBounded items
def AllBounded : List Expr → Prop
  | [] => True
  | e :: es => e.Bounded ∧ AllBounded es
def VarsBounded : List VarDecl → Prop
  | [] => True
  | ⟨_, value, _⟩ :: rest => value.Bounded ∧ VarsBounded rest
end

end Expr

def Tree.Bounded : Tree → Prop
  | .expr e => e.Bounded
  | .block body => Expr.AllBounded body

def FnFree (m : Machine) : Prop := ∀ s ∈ m.scopes, s.fns = []

namespace Eval

theorem maintains_fnFree {x : Eval α} (keeps : Keeps x) : Maintains FnFree x := by
  intro m free
  have back : ∀ after : Machine, outline after.scopes = outline m.scopes → FnFree after := by
    intro after look s member
    have seen : s.mapInfo (fun _ => ()) ∈ outline after.scopes := List.mem_map_of_mem member
    rw [look] at seen
    obtain ⟨t, there, same⟩ := List.mem_map.mp seen
    have fns : t.fns = s.fns := Scope.fns_of_mapInfo same
    exact fns ▸ free t there
  exact Outcome.holds_mono (keeps m) (fun _ => back) fun _ => back

theorem maintains_fnFree_declare (decl : Declaration) (v : Value) :
    Maintains FnFree (declare decl v) := by
  intro m free
  apply holds_update
  · intro scopes run
    cases stack : m.scopes with
    | nil => rw [stack] at run; cases run
    | cons s rest =>
      rw [stack] at run
      obtain ⟨_, rfl⟩ := declareVar_cons_ok_iff.mp run
      rw [FnFree, stack] at free
      obtain ⟨here, others⟩ := List.forall_mem_cons.mp free
      exact List.forall_mem_cons.mpr ⟨here, others⟩
  · intro _ _
    exact free

/-- Enough fuel brings the run to an end, from each machine with the invariant, and the
    invariant holds there again. -/
structure Finishes (I : Machine → Prop) (X : Nat → Eval α) : Prop where
  grows : ∀ {fuel fuel' : Nat}, fuel ≤ fuel' → Grows (X fuel) (X fuel')
  maintains : ∀ fuel, Maintains I (X fuel)
  ends : ∀ m, I m → ∃ fuel, X fuel m ≠ .outOfFuel

namespace Finishes

variable {I : Machine → Prop}

theorem of_total {x : Eval α} (keeps : Maintains I x) (total : ∀ m, x m ≠ .outOfFuel) :
    Finishes I fun _ => x :=
  ⟨fun _ => grows_same x, fun _ => keeps, fun m _ => ⟨0, total m⟩⟩

theorem pure (a : α) : Finishes I fun _ => (Pure.pure a : Eval α) :=
  of_total (maintains_pure a) nofun

theorem ofExcept (r : Except Error α) : Finishes I fun _ => Eval.ofExcept r := by
  apply of_total (maintains_ofExcept r)
  intro m
  cases r <;> nofun

theorem ofFault (r : Except Fault α) : Finishes I fun _ => Eval.ofFault r := by
  apply of_total (maintains_ofFault r)
  intro m
  cases r <;> nofun

theorem fail (cause : Fault) (span : Option Span) :
    Finishes I fun _ => (Eval.fail cause span : Eval α) :=
  of_total (maintains_fail cause span) nofun

theorem read (name : String) (span : Option Span) : Finishes I fun _ => Eval.read name span := by
  apply of_total (maintains_read name span)
  intro m
  unfold Eval.read
  split <;> nofun

theorem onScopes {x : Action Value α} (maintains : Maintains I (Eval.onScopes x)) :
    Finishes I fun _ => Eval.onScopes x := by
  apply of_total maintains
  intro m
  unfold Eval.onScopes
  split <;> nofun

theorem bind {X : Nat → Eval α} {F : Nat → α → Eval β} (first : Finishes I X)
    (next : ∀ a, Finishes I fun fuel => F fuel a) : Finishes I fun fuel => X fuel >>= F fuel := by
  refine ⟨fun le => grows_bind (first.grows le) fun a => (next a).grows le,
    fun fuel => maintains_bind (first.maintains fuel) fun a => (next a).maintains fuel, ?_⟩
  intro m start
  obtain ⟨fuel, ended⟩ := first.ends m start
  cases run : X fuel m with
  | done a after =>
    have held := first.maintains fuel m start
    rw [run] at held
    obtain ⟨fuel', ended'⟩ := (next a).ends after held
    have more := first.grows (Nat.le_max_left fuel fuel') m
    have more' := (next a).grows (Nat.le_max_right fuel fuel') after
    refine ⟨max fuel fuel', ?_⟩
    rw [bind_of_done ((Outcome.eq_of_grows more ended).trans run),
      Outcome.eq_of_grows more' ended']
    exact ended'
  | failed e after =>
    refine ⟨fuel, ?_⟩
    rw [bind_of_failed run]
    nofun
  | outOfFuel => exact absurd run ended

theorem ends_succ {X Y : Nat → Eval α} (next : ∀ fuel, Y (fuel + 1) = X fuel)
    (finishes : Finishes I X) (m : Machine) (start : I m) : ∃ fuel, Y fuel m ≠ .outOfFuel := by
  obtain ⟨fuel, ended⟩ := finishes.ends m start
  exact ⟨fuel + 1, by rw [next]; exact ended⟩

theorem inScope {X : Nat → Eval α} (inner : Finishes FnFree X)
    (keeps : ∀ fuel, KeepsOuter (X fuel)) : Finishes FnFree fun fuel => Eval.inScope (X fuel) := by
  refine ⟨fun le => grows_inScope (inner.grows le),
    fun fuel => maintains_fnFree (keeps_inScope (keeps fuel)), ?_⟩
  intro m free
  have entered : FnFree { m with scopes := Scope.empty :: m.scopes } :=
    List.forall_mem_cons.mpr ⟨rfl, free⟩
  obtain ⟨fuel, ended⟩ := inner.ends _ entered
  refine ⟨fuel, ?_⟩
  unfold Eval.inScope closing
  cases run : X fuel { m with scopes := Scope.empty :: m.scopes } with
  | done a after => dsimp only; split <;> nofun
  | failed e after => dsimp only; split <;> nofun
  | outOfFuel => exact absurd run ended

/-- A loop ends when each round brings something down. -/
theorem ends_loop {cond : Eval Bool} {Y : Nat → Eval Unit} (μ : Machine → Nat)
    (grows : ∀ {fuel fuel' : Nat}, fuel ≤ fuel' → Grows (Y fuel) (Y fuel'))
    (test : ∀ m, cond m ≠ .outOfFuel)
    (round : ∀ m middle, I m → cond m = .done true middle →
      (∃ fuel, Y fuel middle ≠ .outOfFuel) ∧
        ∀ fuel after, Y fuel middle = .done () after → I after ∧ μ after < μ m) :
    ∀ m, I m → ∃ fuel, Eval.loop cond (Y fuel) fuel m ≠ .outOfFuel := by
  intro m
  induction count : μ m using Nat.strongRecOn generalizing m with
  | ind k ih =>
    intro start
    cases tested : cond m with
    | outOfFuel => exact absurd tested (test m)
    | failed e after =>
      refine ⟨1, ?_⟩
      rw [loop_succ, bind_of_failed tested]
      nofun
    | done again middle =>
      cases again with
      | false =>
        refine ⟨1, ?_⟩
        rw [loop_succ, bind_of_done tested]
        nofun
      | true =>
        obtain ⟨⟨fuel, ended⟩, down⟩ := round m middle start tested
        cases run : Y fuel middle with
        | outOfFuel => exact absurd run ended
        | failed e after =>
          have more := Outcome.eq_of_grows (grows (Nat.le_succ fuel) middle) ended
          refine ⟨fuel + 1, ?_⟩
          rw [loop_succ, bind_of_done tested, if_pos rfl, bind_of_failed (more.trans run)]
          nofun
        | done u after =>
          obtain ⟨held, less⟩ := down fuel after run
          obtain ⟨fuel', ended'⟩ := ih (μ after) (count ▸ less) after rfl held
          -- Fuel for this round and for all the others.
          have more := Outcome.eq_of_grows
            (grows (by omega : fuel ≤ max fuel fuel' + 1) middle) ended
          have later := Outcome.eq_of_grows (grows_loop (grows_same cond)
            (grows (by omega : fuel' ≤ max fuel fuel' + 1))
            (by omega : fuel' ≤ max fuel fuel') after) ended'
          refine ⟨max fuel fuel' + 1, ?_⟩
          rw [loop_succ, bind_of_done tested, if_pos rfl, bind_of_done (more.trans run), later]
          exact ended'

end Finishes

section Counter

variable {loop : VarDecl} {bound : Value} {m after : Machine}

def left : Value → Value → Nat
  | .int i, .int j => (j.toInt - i.toInt).toNat
  | _, _ => 0

def roundsLeft (loop : VarDecl) (bound : Value) (m : Machine) : Nat :=
  match m.scopes.findVar loop.name with
  | some b => left b.info bound
  | none => 0

theorem below_total (loop : VarDecl) (bound : Value) (m : Machine) :
    below loop bound m ≠ .outOfFuel := by
  have total : Finishes (fun _ => True) fun _ => below loop bound := by
    apply (Finishes.read _ _).bind
    intro v
    exact (Finishes.ofExcept _).bind fun _ => Finishes.ofFault _
  obtain ⟨_, ended⟩ := total.ends m trivial
  exact ended

theorem finishes_advance (loop : VarDecl) : Finishes FnFree fun _ => advance loop := by
  apply (Finishes.read _ _).bind
  intro v
  apply (Finishes.ofExcept _).bind
  intro next
  exact Finishes.onScopes (maintains_fnFree (keeps_assign loop.name next))

theorem below_true (run : below loop bound m = .done true after) :
    after = m ∧ ∃ b, m.scopes.findVar loop.name = some b ∧ b.info.compare bound = some .lt := by
  unfold below at run
  cases found : m.scopes.findVar loop.name with
  | none =>
    rw [bind_of_failed (read_of_none found)] at run
    cases run
  | some b =>
    rw [bind_of_done (read_of_some found)] at run
    change Outcome.done (decide (b.info.compare bound = some .lt)) m = .done true after at run
    obtain ⟨less, rfl⟩ := Outcome.done.inj run
    exact ⟨rfl, b, rfl, of_decide_eq_true less⟩

theorem advance_done {b : Binding Value} (found : m.scopes.findVar loop.name = some b)
    (run : advance loop m = .done () after) :
    ∃ c, BinaryOp.add.apply b.info (.int 1) = .ok c.info ∧
      after.scopes.findVar loop.name = some c := by
  unfold advance at run
  rw [bind_of_done (read_of_some found)] at run
  cases added : BinaryOp.add.apply b.info (.int 1) with
  | error e =>
    rw [added] at run
    cases run
  | ok next =>
    rw [added] at run
    change assign loop.name next m = .done () after at run
    cases set : m.scopes.assign? loop.name next with
    | none =>
      rw [assign_of_none set] at run
      cases run
    | some scopes =>
      rw [assign_of_some set] at run
      cases run
      refine ⟨{ b with info := next }, rfl, ?_⟩
      rw [overwrite_of_assign? set, Scopes.findVar_overwrite, found]
      simp [Scope.only]

theorem int_of_compare {i : Int64} (less : (Value.int i).compare bound = some .lt) :
    ∃ j, bound = .int j ∧ i < j := by
  cases bound with
  | int j =>
    refine ⟨j, rfl, ?_⟩
    rw [Value.compare, Value.order] at less
    split at less
    · next smaller => simpa using smaller
    · split at less
      · cases less
      · split at less <;> cases less
  | _ => cases less

theorem toInt_add_one {i j : Int64} (less : i < j) : (i + 1).toInt = i.toInt + 1 := by
  have smaller := Int64.lt_iff_toInt_lt.mp less
  have top := Int64.toInt_lt j
  have bottom := Int64.le_toInt i
  rw [Int64.toInt_add, Int64.toInt_one, Int.bmod_eq_of_le] <;> omega

theorem left_lt {v next : Value} (less : v.compare bound = some .lt)
    (added : BinaryOp.add.apply v (.int 1) = .ok next) : left next bound < left v bound := by
  cases v with
  | int i =>
    cases added
    obtain ⟨j, rfl, smaller⟩ := int_of_compare less
    have order := Int64.lt_iff_toInt_lt.mp smaller
    rw [left, left, toInt_add_one smaller]
    omega
  | _ => cases added

/-- Without functions nothing in the innermost scope assigns its variables. -/
theorem carries_of_atop (free : FnFree m) (top : Atop loop.name m) :
    ∃ b outer, m.scopes.findVar loop.name = some b ∧ Carries loop.name b.info 0 outer m := by
  obtain ⟨s, rest, stack, found⟩ := top
  obtain ⟨b, here⟩ := Option.isSome_iff_exists.mp found
  rw [FnFree, stack] at free
  have bare : s.fns = [] := free s List.mem_cons_self
  have stands : Carried loop.name b.info 0 (List.length rest) m.scopes := by
    rw [stack]
    apply Carried.of_top here
    rw [bare]
    exact List.forall_mem_nil _
  refine ⟨b, List.length rest, ?_, stands⟩
  rw [stack, Scopes.findVar, here]

theorem finishes_rounds {body : Expr} (unassigned : loop.name ∉ body.assigned)
    (finishes : Finishes FnFree fun fuel => body.eval fuel) (bound : Value) :
    Finishes (fun m => FnFree m ∧ Atop loop.name m) fun fuel =>
      Eval.loop (below loop bound)
        (do
          let _ ← body.eval fuel
          advance loop)
        fuel := by
  have keeps := fun fuel => Expr.keeps_eval fuel body
  have rounds : ∀ fuel, Keeps (do
      let _ ← body.eval fuel
      advance loop) := fun fuel => keeps_bind (keeps fuel) fun _ => keeps_advance loop
  have grows : ∀ {fuel fuel' : Nat}, fuel ≤ fuel' → Grows
      (do
        let _ ← body.eval fuel
        advance loop)
      (do
        let _ ← body.eval fuel'
        advance loop) := fun le => grows_bind (finishes.grows le) fun _ => grows_same _
  have both : ∀ {x : Eval Unit}, Keeps x →
      Maintains (fun m => FnFree m ∧ Atop loop.name m) x := fun keeps =>
    maintains_and (maintains_fnFree keeps) (maintains_atop keeps loop.name)
  refine ⟨fun le => grows_loop (grows_same _) (grows le) le,
    fun fuel => both (keeps_loop (keeps_below loop bound) (rounds fuel) fuel), ?_⟩
  apply Finishes.ends_loop (roundsLeft loop bound) grows (below_total loop bound)
  rintro m middle ⟨free, top⟩ tested
  obtain ⟨rfl, b, found, less⟩ := below_true tested
  refine ⟨(finishes.bind fun _ => finishes_advance loop).ends middle free, ?_⟩
  intro fuel after run
  have held := both (rounds fuel) middle ⟨free, top⟩
  rw [run] at held
  refine ⟨held, ?_⟩
  obtain ⟨_, turned, ran, advanced⟩ := bind_done_iff.mp run
  -- The body leaves the variable as it is, and then it is one more.
  obtain ⟨_, outer, same, carries⟩ := carries_of_atop free top
  obtain rfl := Option.some.inj (found.symm.trans same)
  have stands := Expr.carries_eval fuel body 0 unassigned middle carries
  rw [ran] at stands
  obtain ⟨c, found', kept⟩ := stands.findVar
  obtain ⟨d, added, found''⟩ := advance_done found' advanced
  rw [kept] at added
  rw [roundsLeft, roundsLeft, found, found'']
  exact left_lt less added

theorem finishes_loop {body : Expr} (unassigned : loop.name ∉ body.assigned)
    (finishes : Finishes FnFree fun fuel => body.eval fuel) (start bound : Value) :
    Finishes FnFree (fun fuel => do
      declare (.var loop) start
      Eval.loop (below loop bound)
        (do
          let _ ← body.eval fuel
          advance loop)
        fuel) := by
  have rounds := finishes_rounds unassigned finishes bound
  refine ⟨fun le => grows_bind (grows_same _) fun _ => rounds.grows le, fun fuel => ?_, ?_⟩
  · apply maintains_bind (maintains_fnFree_declare _ start)
    intro _
    apply maintains_fnFree
    apply keeps_loop (keeps_below loop bound)
    exact keeps_bind (Expr.keeps_eval fuel body) fun _ => keeps_advance loop
  · intro m free
    have kept := maintains_fnFree_declare (.var loop) start m free
    have top := atop_declare (.var loop) start m
    cases declared : declare (.var loop) start m with
    | done u begun =>
      rw [declared] at kept top
      obtain ⟨fuel, ended⟩ := rounds.ends begun ⟨kept, top⟩
      refine ⟨fuel, ?_⟩
      rw [bind_of_done declared]
      exact ended
    | failed e after =>
      refine ⟨0, ?_⟩
      rw [bind_of_failed declared]
      nofun
    | outOfFuel =>
      have total := Finishes.onScopes (maintains_fnFree_declare (.var loop) start)
      obtain ⟨_, ended⟩ := total.ends m free
      exact absurd declared ended

end Counter

section Parts

variable {es : List Expr}

theorem finishes_all (each : ∀ e ∈ es, Finishes FnFree fun fuel => e.eval fuel) :
    Finishes FnFree fun fuel => all (Expr.eval fuel) es := by
  induction es with
  | nil => exact Finishes.pure []
  | cons e es ih =>
    obtain ⟨first, others⟩ := List.forall_mem_cons.mp each
    apply first.bind
    intro v
    exact (ih others).bind fun _ => Finishes.pure _

theorem finishes_row (each : ∀ e ∈ es, Finishes FnFree fun fuel => e.eval fuel) :
    Finishes FnFree fun fuel => row (Expr.eval fuel) es :=
  (finishes_all each).bind fun _ => Finishes.pure _

theorem finishes_declareVars {vars : List VarDecl}
    (each : ∀ d ∈ vars, Finishes FnFree fun fuel => d.value.eval fuel) :
    Finishes FnFree fun fuel => declareVars (Expr.eval fuel) vars := by
  induction vars with
  | nil => exact Finishes.pure ()
  | cons d ds ih =>
    obtain ⟨first, others⟩ := List.forall_mem_cons.mp each
    apply first.bind
    intro v
    exact (Finishes.onScopes (maintains_fnFree_declare _ v)).bind fun _ => ih others

theorem finishes_tryMatch (p : Expr) (v : Value) : Finishes FnFree fun _ => tryMatch p v := by
  apply Finishes.of_total (maintains_fnFree (keeps_tryMatch p v))
  intro m
  unfold tryMatch
  split <;> nofun

theorem finishes_call (name : String) (args : List Value) :
    Finishes FnFree fun fuel => call (Expr.eval fuel) name args := by
  refine ⟨fun le => grows_call (Expr.grows_eval le) name args,
    fun fuel => maintains_fnFree (keeps_call (Expr.keeps_eval fuel) name args), ?_⟩
  intro m free
  have none : m.scopes.resolveFn name = none := by
    cases found : m.scopes.resolveFn name with
    | none => rfl
    | some r =>
      obtain ⟨s, member, declared, _⟩ := mem_of_resolveFn found
      rw [free s member] at declared
      cases declared
  refine ⟨0, ?_⟩
  unfold call
  rw [none]
  unfold callBuiltin
  cases answer : Builtin.callNamed name args <;> nofun

end Parts
end Eval

namespace Expr

open Eval

theorem finishes_of_step {e : Expr} {X : Nat → Eval Value} (step : Finishes FnFree X)
    (next : ∀ fuel, e.eval (fuel + 1) = X fuel) : Finishes FnFree fun fuel => e.eval fuel :=
  ⟨fun le => grows_eval le e, fun fuel => maintains_fnFree (keeps_eval fuel e),
    Finishes.ends_succ next step⟩

mutual
theorem finishes_eval : ∀ e : Expr, e.Bounded → Finishes FnFree fun fuel => e.eval fuel
  | literal v _, _ => finishes_of_step (Finishes.pure v) fun _ => rfl
  | var name span, _ => finishes_of_step (Finishes.read name span) fun _ => rfl
  | group body _, bounded =>
    finishes_of_step (finishes_row (finishes_each body bounded)) fun _ => rfl
  | letIn vars _ body _, ⟨varsBounded, noFns, bodyBounded⟩ => by
    subst noFns
    refine finishes_of_step (Finishes.inScope ?_ fun fuel =>
      keepsOuter_let (keeps_eval fuel) vars [] body) fun _ => rfl
    apply (finishes_declareVars (finishes_eachVar vars varsBounded)).bind
    intro _
    apply (Finishes.pure ()).bind
    intro _
    exact finishes_row (finishes_each body bodyBounded)
  | assign name value _ _, bounded => by
    refine finishes_of_step ((finishes_eval value bounded).bind fun v => ?_) fun _ => rfl
    exact (Finishes.onScopes (maintains_fnFree (keeps_assign name v))).bind fun _ =>
      Finishes.pure v
  | matchWith pattern value _, bounded => by
    refine finishes_of_step ((finishes_eval value bounded).bind fun v => ?_) fun _ => rfl
    exact (finishes_tryMatch pattern v).bind fun _ => Finishes.pure _
  | call name args _, bounded => by
    refine finishes_of_step ((finishes_all (finishes_each args bounded)).bind fun vs => ?_)
      fun _ => rfl
    exact finishes_call name vs
  | ifElse cond whenTrue whenFalse _, ⟨condBounded, trueBounded, falseBounded⟩ => by
    refine finishes_of_step ((finishes_eval cond condBounded).bind fun v => ?_) fun _ => rfl
    apply (Finishes.ofFault _).bind
    intro b
    cases b with
    | true => exact finishes_eval whenTrue trueBounded
    | false => exact finishes_eval whenFalse falseBounded
  | forTo ⟨name, start, declSpan⟩ goal body _, ⟨startBounded, goalBounded, bodyBounded, free⟩ => by
    refine finishes_of_step (Finishes.bind ?_ fun _ => Finishes.pure Value.void) fun _ => rfl
    refine Finishes.inScope ?_ fun fuel =>
      keepsOuter_for (keeps_eval fuel) ⟨name, start, declSpan⟩ goal body fuel
    apply (finishes_eval start startBounded).bind
    intro first
    apply (finishes_eval goal goalBounded).bind
    intro bound
    exact finishes_loop free (finishes_eval body bodyBounded) first bound
  | binary left op right _, ⟨leftBounded, rightBounded⟩ => by
    refine finishes_of_step ((finishes_eval left leftBounded).bind fun v => ?_) fun _ => rfl
    exact (finishes_eval right rightBounded).bind fun w => Finishes.ofExcept _
  | unary op operand _, bounded =>
    finishes_of_step ((finishes_eval operand bounded).bind fun v => Finishes.ofExcept _)
      fun _ => rfl
  | cast operand target _, bounded =>
    finishes_of_step ((finishes_eval operand bounded).bind fun v => Finishes.ofFault _)
      fun _ => rfl
  | array items element _ span, bounded => by
    refine finishes_of_step ((finishes_all (finishes_each items bounded)).bind fun vs => ?_)
      fun _ => rfl
    cases element with
    | some t => exact Finishes.pure _
    | none =>
      cases vs with
      | nil => exact Finishes.fail _ _
      | cons v vs => exact Finishes.pure _
  | tuple items _, bounded =>
    finishes_of_step ((finishes_all (finishes_each items bounded)).bind fun vs =>
      Finishes.pure _) fun _ => rfl
theorem finishes_each : ∀ es : List Expr, AllBounded es →
    ∀ e ∈ es, Finishes FnFree fun fuel => e.eval fuel
  | [], _ => List.forall_mem_nil _
  | e :: es, ⟨first, others⟩ =>
    List.forall_mem_cons.mpr ⟨finishes_eval e first, finishes_each es others⟩
theorem finishes_eachVar : ∀ vars : List VarDecl, VarsBounded vars →
    ∀ d ∈ vars, Finishes FnFree fun fuel => d.value.eval fuel
  | [], _ => List.forall_mem_nil _
  | ⟨_, value, _⟩ :: rest, ⟨first, others⟩ =>
    List.forall_mem_cons.mpr ⟨finishes_eval value first, finishes_eachVar rest others⟩
end

end Expr

/-- A program without while loops and functions whose loops leave their variables alone comes
    to an end: with a value, or with an error of evaluation. It need not be accepted. -/
theorem Tree.bounded_ends {tree : Tree} (bounded : tree.Bounded) : ∃ fuel,
    (∃ v after, tree.eval fuel (Machine.start []) = .done v after) ∨
      ∃ e after, tree.eval fuel (Machine.start []) = .failed e after ∧ e.AtRuntime := by
  have finishes : Eval.Finishes FnFree fun fuel => tree.eval fuel := by
    cases tree with
    | expr e => exact Expr.finishes_eval e bounded
    | block body => exact Eval.finishes_row (Expr.finishes_each body bounded)
  obtain ⟨fuel, ended⟩ := finishes.ends (Machine.start []) (List.forall_mem_nil _)
  have exits := tree.exits_eval fuel (Machine.start [])
  cases run : tree.eval fuel (Machine.start []) with
  | done v after => exact ⟨fuel, .inl ⟨v, after, run⟩⟩
  | failed e after =>
    rw [run] at exits
    exact ⟨fuel, .inr ⟨e, after, run, exits⟩⟩
  | outOfFuel => exact absurd run ended

/-- `let var n := 3 in for i := 0 to n do for i := 0 to i do n := n + 1 end`, where the inner
    loop has a variable of the same name and moves what the goal was read from. -/
def nestedLoops : Tree :=
  let zero := Expr.literal (.int 0) none
  let one := Expr.literal (.int 1) none
  let n := Expr.var "n" none
  let inner := Expr.forTo ⟨"i", zero, none⟩ (.var "i" none)
    (.assign "n" (.binary n .add one none) none none) none
  .expr (.letIn [⟨"n", .literal (.int 3) none, none⟩] []
    [.forTo ⟨"i", zero, none⟩ n inner none] none)

theorem Tree.bounded_ends_nested : nestedLoops.Bounded ∧ ∃ fuel,
    (∃ v after, nestedLoops.eval fuel (Machine.start []) = .done v after) ∨
      ∃ e after, nestedLoops.eval fuel (Machine.start []) = .failed e after ∧ e.AtRuntime := by
  have inner : "i" ∉ ["n"] := by decide
  have bounded : nestedLoops.Bounded :=
    ⟨⟨trivial, trivial⟩, rfl,
      ⟨trivial, trivial, ⟨trivial, trivial, ⟨trivial, trivial⟩, inner⟩, inner⟩, trivial⟩
  exact ⟨bounded, bounded_ends bounded⟩

end TypedLet
