import TypedLet.Proofs.Evaluation.Contents
import TypedLet.Proofs.Evaluation.Fuel
import TypedLet.Proofs.Iteration.Expansion

/-
The runs of a for loop and of its expansion, side by side. Start and goal are evaluated on
stacks that differ in the innermost scope only, and there in variables that they do not use.
In the loops both counters carry the same and all scopes outside are the same, but for the
one with the two extra variables. The body keeps it so: it cannot see that scope, and what
is said of the counter where it is declared does not matter for a run.
-/
namespace TypedLet

open Scopes

def Topped (t t' : Scope Value) (m m' : Machine) : Prop :=
  ∃ rest, m.scopes = t :: rest ∧ m'.scopes = t' :: rest ∧ m.output = m'.output

/-- Two counters that carry the same. Under the second one stands an extra scope. -/
def Counting (d d' : VarDecl) (extra : Scope Value) (m m' : Machine) : Prop :=
  ∃ v rest, m.scopes = Scope.ofVar d v :: rest ∧ m'.scopes = Scope.ofVar d' v :: extra :: rest ∧
    m.output = m'.output

theorem Scope.ofVar_of_outline {d : VarDecl} {v : Value} {s : Scope Value}
    (look : s.mapInfo (fun _ => ()) = (Scope.ofVar d v).mapInfo fun _ => ()) :
    ∃ w, s = Scope.ofVar d w := by
  obtain ⟨vars, functions⟩ := s
  obtain ⟨declared, rfl⟩ := Scope.mk.inj look
  obtain ⟨b, rfl, same⟩ := List.map_eq_singleton_iff.mp declared
  have decl : b.decl = .var d := (Binding.mk.inj same).2.1
  have entry : b = .of (.var d) b.info := Binding.ext_decl decl rfl
  exact ⟨b.info, Scope.ext_fns (congrArg (fun b => [b]) entry) rfl⟩

namespace Eval

theorem bind_at {x y : Eval α} {f : α → Eval β} {m : Machine} (same : x m = y m) :
    (x >>= f) m = (y >>= f) m := by
  change Eval.bind x f m = Eval.bind y f m
  unfold Eval.bind
  rw [same]

theorem inScope_bind_pure (x : Eval α) (b : β) :
    (inScope x >>= fun _ => Pure.pure b) = inScope (x >>= fun _ => Pure.pure b) := by
  funext m
  let inside : Machine := { m with scopes := Scope.empty :: m.scopes }
  change Eval.bind (inScope x) _ m = inScope (x >>= _) m
  unfold Eval.bind inScope closing
  cases run : x inside with
  | done a after =>
    have later : (x >>= fun _ => Pure.pure b) inside = .done b after := bind_of_done run
    simp only [inside] at later
    rw [later]
    dsimp only
    cases after.scopes.leave <;> rfl
  | failed e after =>
    have later : (x >>= fun _ => Pure.pure b) inside = .failed e after := bind_of_failed run
    simp only [inside] at later
    rw [later]
    dsimp only
    cases after.scopes.leave <;> rfl
  | outOfFuel =>
    have later : (x >>= fun _ => Pure.pure b) inside = .outOfFuel := bind_of_outOfFuel run
    simp only [inside] at later
    rw [later]

def forWith (bounds rounds : Expr → Eval Value) (fuel : Nat) (loop : VarDecl) (goal body : Expr) :
    Eval Value := do
  inScope do
    let start ← bounds loop.value
    let bound ← bounds goal
    declare (.var loop) start
    Eval.loop (below loop bound)
      (do
        let _ ← rounds body
        advance loop)
      fuel
  Pure.pure .void

theorem grows_forWith {bounds bounds' rounds rounds' : Expr → Eval Value} {fuel fuel' : Nat}
    (first : ∀ e, Grows (bounds e) (bounds' e)) (each : ∀ e, Grows (rounds e) (rounds' e))
    (le : fuel ≤ fuel') (loop : VarDecl) (goal body : Expr) :
    Grows (forWith bounds rounds fuel loop goal body)
      (forWith bounds' rounds' fuel' loop goal body) := by
  apply grows_bind _ fun _ => grows_same _
  apply grows_inScope
  apply grows_bind (first loop.value)
  intro start
  apply grows_bind (first goal)
  intro bound
  apply grows_bind (grows_same _)
  intro _
  apply grows_loop (grows_same _) _ le
  exact grows_bind (each body) fun _ => grows_same _

end Eval

namespace Expr

open Eval

variable {P : String → Prop} {t t' extra : Scope Value} {d d' : VarDecl} {e : Expr}

theorem agree_topped (hides : Hides P [t]) (hides' : Hides P [t']) (avoids : Avoids P e)
    (fuel : Nat) : Agree (Topped t t') (e.eval fuel) (e.eval fuel) := by
  rintro m m' ⟨rest, stack, stack', output⟩
  let bare : Machine := { m with scopes := rest }
  have before : Beside P [t] 0 rest.length bare m := by
    refine ⟨?_, rfl⟩
    rw [stack]
    exact inserted_here [t] rest
  have before' : Beside P [t'] 0 rest.length bare m' := by
    refine ⟨?_, output⟩
    rw [stack']
    exact inserted_here [t'] rest
  have alike := weakens_eval fuel hides avoids bare m before
  have alike' := weakens_eval fuel hides' avoids bare m' before'
  apply (alike.swap.trans alike').mono
  rintro after after' ⟨base, ⟨⟨upper, lower, here, there, none, _⟩, printed⟩,
    ⟨⟨upper', lower', here', there', none', _⟩, printed'⟩⟩
  obtain rfl := List.length_eq_zero_iff.mp none
  obtain rfl := List.length_eq_zero_iff.mp none'
  obtain rfl : lower = lower' := here.symm.trans here'
  exact ⟨lower, there, there', printed.symm.trans printed'⟩

theorem agree_counting (named : d.name = d'.name) (hides : Hides P [extra]) (avoids : Avoids P e)
    (fuel : Nat) : Agree (Counting d d' extra) (e.eval fuel) (e.eval fuel) := by
  rintro m m' ⟨v, rest, stack, stack', output⟩
  -- In between stands a machine with the second counter and without the extra scope.
  let middle : Machine := { m with scopes := Scope.ofVar d' v :: rest }
  have same : SameContents m middle := by
    refine ⟨?_, rfl⟩
    rw [stack]
    simp [middle, Scope.contents, Scope.fns, Scope.ofVar, Binding.content, Declaration.name, named]
  have beside : Beside P [extra] 1 rest.length middle m' := by
    refine ⟨?_, output⟩
    rw [stack']
    exact (inserted_here [extra] rest).cons (List.forall_mem_nil _)
  have first := (ofContents_eval fuel e m middle same).along (keeps_eval fuel e m)
  have second := (weakens_eval fuel hides avoids middle m' beside).along (keeps_eval fuel e middle)
  apply (first.trans second).mono
  rintro after after' ⟨base, ⟨⟨held, printed⟩, look⟩,
    ⟨⟨upper, lower, here, there, one, _⟩, printed'⟩, look'⟩
  obtain ⟨s, rfl⟩ := List.length_eq_one_iff.mp one
  rw [here] at held look'
  rw [stack] at look
  obtain ⟨top', below'⟩ := List.cons.inj look'
  obtain ⟨w, rfl⟩ := Scope.ofVar_of_outline top'
  obtain ⟨s, outer, here', first, outside⟩ := uncons_of_contents held.symm
  rw [here'] at look
  obtain ⟨top, below⟩ := List.cons.inj look
  obtain ⟨u, rfl⟩ := Scope.ofVar_of_outline top
  obtain rfl : lower = outer := eq_of_contents outside (below'.trans below.symm)
  obtain rfl : w = u := (Prod.mk.inj (List.cons.inj (Prod.mk.inj first).1).1).2
  exact ⟨w, lower, here', there, printed.trans printed'⟩

theorem eval_binary_of_done {left right : Expr} {v w : Value} {fuel : Nat} {m : Machine}
    (first : left.eval fuel m = .done v m) (second : right.eval fuel m = .done w m)
    (op : BinaryOp) (span : Option Span) :
    (binary left op right span).eval (fuel + 1) m = ofExcept (op.apply v w) m := by
  rw [eval, bind_of_done first, bind_of_done second]

theorem eval_var_of_some {name : String} {span : Option Span} {b : Binding Value} {m : Machine}
    (found : m.scopes.findVar name = some b) (fuel : Nat) :
    (var name span).eval (fuel + 1) m = .done b.info m := read_of_some found

theorem eval_letVar {e : Expr} {v : Value} {fuel : Nat} {m : Machine} {span : Option Span}
    (value : d.value.eval fuel { m with scopes := Scope.empty :: m.scopes } =
      .done v { m with scopes := Scope.empty :: m.scopes }) :
    (letIn [d] [] [e] span).eval (fuel + 1) m =
      closing (e.eval fuel)
        (fun after => after.scopes.leave.map fun scopes => { after with scopes })
        { m with scopes := Scope.ofVar d v :: m.scopes } := by
  have declared : declareVars (Expr.eval fuel) [d] { m with scopes := Scope.empty :: m.scopes } =
      .done () { m with scopes := Scope.ofVar d v :: m.scopes } := bind_of_done value
  rw [eval]
  unfold inScope closing
  rw [bind_of_done declared, row_singleton]
  rfl

section Rounds

variable {loop : VarDecl} {bound : Value} {g : String} {start : Value} {ds dg : VarDecl}
  {span : Option Span} {goal body : Expr}

def bounds (ds dg : VarDecl) (start bound : Value) : Scope Value :=
  ⟨[.of (.var ds) start, .of (.var dg) bound], []⟩

theorem hides_bounds (ds dg : VarDecl) (start bound : Value) :
    Hides (fun n => n = ds.name ∨ n = dg.name) [bounds ds dg start bound] := by
  refine List.forall_mem_singleton.mpr ⟨rfl, ?_⟩
  exact List.forall_mem_cons.mpr ⟨.inl rfl, List.forall_mem_singleton.mpr (.inr rfl)⟩

theorem FreshFor.avoids {s : String} (fresh : FreshFor s g loop goal body)
    (part : e ∈ [loop.value, goal, body]) : Avoids (fun n => n = s ∨ n = g) e := by
  obtain ⟨noStart, noGoal⟩ := fresh.unused e part
  rintro n used (rfl | rfl)
  · exact noStart used
  · exact noGoal used

theorem findVar_counter {v : Value} {scopes rest : Scopes Value}
    (stack : scopes = Scope.ofVar d v :: rest) : scopes.findVar d.name = some (.of (.var d) v) := by
  rw [stack, findVar_ofVar]

theorem assign_counter {v : Value} {scopes rest : Scopes Value}
    (stack : scopes = Scope.ofVar d v :: rest) (w : Value) :
    scopes.assign? d.name w = some (Scope.ofVar d w :: rest) := by
  rw [stack, Scopes.assign?, Scope.findVar_ofVar, Scope.setVar_ofVar]

theorem findVar_goal {v : Value} {scopes rest : Scopes Value} (apart : ds.name ≠ dg.name)
    (other : d.name ≠ dg.name)
    (stack : scopes = Scope.ofVar d v :: bounds ds dg start bound :: rest) :
    scopes.findVar dg.name = some (.of (.var dg) bound) := by
  rw [stack]
  simp [Scopes.findVar, Scope.findVar, Scope.ofVar, bounds, Declaration.name, apart, other]

theorem agree_test (apart : ds.name ≠ dg.name) (other : d.name ≠ dg.name) (fuel : Nat) :
    Agree (Counting loop d (bounds ds dg start bound)) (below loop bound)
      ((binary (var d.name span) .lt (var dg.name span) span).eval (fuel + 2) >>= test) := by
  intro m m' related
  obtain ⟨v, rest, stack, stack', output⟩ := related
  have counter := findVar_counter stack
  have counter' := findVar_counter stack'
  have goal := findVar_goal apart other stack'
  have compared : (binary (var d.name span) .lt (var dg.name span) span).eval (fuel + 2) m' =
      ofExcept (BinaryOp.lt.apply v bound) m' :=
    eval_binary_of_done (eval_var_of_some counter' fuel) (eval_var_of_some goal fuel) .lt span
  have left : below loop bound m = (ofExcept (BinaryOp.lt.apply v bound) >>= test) m :=
    bind_of_done (read_of_some counter)
  rw [left, bind_at compared]
  exact agree_bind (agree_ofExcept _) (fun _ => agree_ofFault _) m m'
    ⟨v, rest, stack, stack', output⟩

theorem agree_next (fuel : Nat) :
    Agree (Counting loop d extra) (advance loop)
      ((assign d.name (binary (var d.name span) .add (literal (.int 1) span) span) span span).eval
        (fuel + 3) >>= fun _ => Pure.pure ()) := by
  intro m m' related
  obtain ⟨v, rest, stack, stack', output⟩ := related
  have counter := findVar_counter stack
  have counter' := findVar_counter stack'
  have added : (binary (var d.name span) .add (literal (.int 1) span) span).eval (fuel + 2) m' =
      ofExcept (BinaryOp.add.apply v (.int 1)) m' :=
    eval_binary_of_done (eval_var_of_some counter' fuel) rfl .add span
  have left : advance loop m =
      (ofExcept (BinaryOp.add.apply v (.int 1)) >>= Eval.assign loop.name) m :=
    bind_of_done (read_of_some counter)
  have right : ((assign d.name (binary (var d.name span) .add (literal (.int 1) span) span) span
      span).eval (fuel + 3) >>= fun _ => Pure.pure ()) m' =
      (ofExcept (BinaryOp.add.apply v (.int 1)) >>= Eval.assign d.name) m' := by
    rw [eval, bind_assoc, bind_at added]
    simp
  rw [left, right]
  refine agree_bind (agree_ofExcept _) (fun w => ?_) m m' ⟨v, rest, stack, stack', output⟩
  rintro after after' ⟨u, outer, here, here', printed⟩
  rw [assign_of_some (assign_counter here w), assign_of_some (assign_counter here' w)]
  exact ⟨rfl, w, outer, rfl, rfl, printed⟩

theorem agree_round (named : loop.name = d.name) (hides : Hides P [extra])
    (avoids : Avoids P body) (fuel : Nat) :
    Agree (Counting loop d extra)
      (do
        let _ ← body.eval (fuel + 3)
        advance loop)
      (do
        let _ ← (countUp d.name body span).eval (fuel + 4)) := by
  have parts : (do
      let _ ← (countUp d.name body span).eval (fuel + 4)) =
      body.eval (fuel + 3) >>= fun _ =>
        (assign d.name (binary (var d.name span) .add (literal (.int 1) span) span) span span).eval
          (fuel + 3) >>= fun _ => Pure.pure () := by
    rw [countUp, eval]
    simp only [row, all, bind_assoc]
    rfl
  rw [parts]
  exact agree_bind (agree_counting named hides avoids _) fun _ => agree_next fuel

theorem alike_loops (fresh : FreshFor ds.name dg.name loop goal body) (fuel : Nat)
    {m m' : Machine} {rest : Scopes Value} (stack : m.scopes = Scope.empty :: rest)
    (stack' : m'.scopes = bounds ds dg start bound :: rest) (output : m.output = m'.output) :
    ((do
      declare (.var loop) start
      Eval.loop (below loop bound)
        (do
          let _ ← body.eval (fuel + 3)
          advance loop)
        (fuel + 4)
      Pure.pure Value.void) m).Alike
      (fun after after' => ∃ t t', Topped t t' after after')
      ((letIn [⟨loop.name, var ds.name span, span⟩] []
        [whileDo (binary (var loop.name span) .lt (var dg.name span) span)
          (countUp loop.name body span) span] span).eval (fuel + 6) m') := by
  let d : VarDecl := ⟨loop.name, var ds.name span, span⟩
  let begun : Machine := { m with scopes := Scope.ofVar loop start :: rest }
  have declared : declare (.var loop) start m = .done () begun := declare_of_free stack rfl
  let inside : Machine := { m' with scopes := Scope.empty :: m'.scopes }
  have found : inside.scopes.findVar ds.name = some (.of (.var ds) start) := by
    simp only [inside, stack']
    simp [findVar, Scope.findVar, Scope.empty, bounds, Declaration.name]
  have copied : d.value.eval (fuel + 5) inside = .done start inside := read_of_some found
  rw [bind_of_done declared, eval_letVar copied, ← closing_ok (_ >>= _) begun]
  -- Now the two counters carry the same, and tests and rounds keep it so.
  have counting : Counting loop d (bounds ds dg start bound) begun
      { m' with scopes := Scope.ofVar d start :: m'.scopes } := by
    refine ⟨start, rest, rfl, ?_, output⟩
    rw [stack']
  have hides := hides_bounds ds dg start bound
  have avoids : Avoids (fun n => n = ds.name ∨ n = dg.name) body := fresh.avoids (by simp)
  have testing : Agree (Counting loop d (bounds ds dg start bound)) (below loop bound)
      ((binary (var d.name span) .lt (var dg.name span) span).eval (fuel + 4) >>= test) :=
    agree_test (d := d) fresh.apart fresh.goal_ne.symm (fuel + 2)
  have rounds : Agree (Counting loop d (bounds ds dg start bound)) _
      (do
        let _ ← (countUp d.name body span).eval (fuel + 4)) :=
    agree_round (d := d) (rfl : loop.name = d.name) hides avoids fuel
  have looping := agree_bind (agree_loop testing rounds (fuel + 4)) fun _ => agree_pure Value.void
  apply alike_closing (looping _ _ counting)
  rintro after after' ⟨v, outer, here, here', printed⟩
  refine ⟨after, { after' with scopes := bounds ds dg start bound :: outer }, rfl, ?_,
    Scope.ofVar loop v, bounds ds dg start bound, outer, here, rfl, printed⟩
  rw [here']
  rfl

end Rounds

variable {s g : String} {loop : VarDecl} {goal body : Expr}

theorem hides_empty (P : String → Prop) : Hides P [(Scope.empty : Scope Value)] :=
  List.forall_mem_singleton.mpr ⟨rfl, List.forall_mem_nil _⟩

theorem alike_inScope_topped {x x' : Eval α} {m m' : Machine}
    (run : (x { m with scopes := Scope.empty :: m.scopes }).Alike
      (fun after after' => ∃ t t', Topped t t' after after')
      (x' { m' with scopes := Scope.empty :: m'.scopes })) :
    (inScope x m).Alike SameStack (inScope x' m') := by
  unfold inScope
  apply alike_closing run
  rintro after after' ⟨t, t', rest, here, here', printed⟩
  rw [here, here']
  exact ⟨_, _, rfl, rfl, rfl, printed⟩

theorem alike_asWhile (fresh : FreshFor s g loop goal body) (span : Option Span) (fuel : Nat)
    (m : Machine) :
    (forWith (Expr.eval (fuel + 6)) (Expr.eval (fuel + 3)) (fuel + 4) loop goal body m).Alike
      SameStack ((asWhile s g loop goal body span).eval (fuel + 7) m) := by
  let ds : VarDecl := ⟨s, loop.value, span⟩
  let dg : VarDecl := ⟨g, goal, span⟩
  have weaker : ∀ {t t' : Scope Value} (after after' : Machine), Topped t t' after after' →
      ∃ t t', Topped t t' after after' := fun after after' topped => ⟨_, _, topped⟩
  rw [forWith, inScope_bind_pure, asWhile, eval, row_singleton]
  apply alike_inScope_topped
  simp only [declareVars, bind_assoc]
  have bounded := agree_topped (hides_empty _) (hides_empty _) (avoids_none loop.value) (fuel + 6)
  apply alike_bind (bounded _ _ ⟨m.scopes, rfl, rfl, rfl⟩) weaker
  rintro start after after' - ⟨rest, here, here', output⟩
  let started : Machine := { after' with scopes := Scope.ofVar ds start :: rest }
  have declared : declare (.var ds) start after' = .done () started := declare_of_free here' rfl
  rw [bind_of_done declared]
  have apart : Avoids (· = s) goal := by
    rintro n used rfl
    exact (fresh.unused goal (by simp)).1 used
  have aimed := agree_topped (hides_empty _) (hides_ofVar ds start) apart (fuel + 6)
  apply alike_bind (aimed after started ⟨rest, here, rfl, output⟩) weaker
  rintro bound last last' - ⟨outer, there, there', printed⟩
  have free : (Scope.ofVar ds start).findVar g = none := by
    simp [Scope.findVar, Scope.ofVar, Declaration.name, ds, fresh.apart]
  let aiming : Machine := { last' with scopes := bounds ds dg start bound :: outer }
  have declared' : declare (.var dg) bound last' = .done () aiming := declare_of_free there' free
  rw [bind_of_done declared']
  have loops : FreshFor ds.name dg.name loop goal body := fresh
  exact alike_loops loops fuel there (rfl : aiming.scopes = bounds ds dg start bound :: outer)
    printed

/-- A for loop is its expansion, for whatever fresh names. The one is accepted where the
    other is, both without a result, and on every machine each end of the one is one of the
    other: with the same result or error, in the same scopes and with the same output. -/
theorem forTo_asWhile (fresh : FreshFor s g loop goal body) (span span' : Option Span) :
    (∀ Γ t, Infers Γ (forTo loop goal body span) t ↔
      Infers Γ (asWhile s g loop goal body span') t) ∧
    (∀ Γ t, Infers Γ (forTo loop goal body span) t → t = .void) ∧
    ∀ m, (∀ o, (forTo loop goal body span).EndsAs m o →
        ∃ o', (asWhile s g loop goal body span').EndsAs m o' ∧ o.Alike SameStack o') ∧
      ∀ o', (asWhile s g loop goal body span').EndsAs m o' →
        ∃ o, (forTo loop goal body span).EndsAs m o ∧ o.Alike SameStack o' := by
  have loops : ∀ fuel, (forTo loop goal body span).eval (fuel + 1) =
      forWith (Expr.eval fuel) (Expr.eval fuel) fuel loop goal body := fun _ => rfl
  refine ⟨fun Γ t => ?_, fun Γ t accepted => ?_, fun m => ⟨fun o => ?_, fun o' => ?_⟩⟩
  · rw [← hasType_iff, ← hasType_iff]
    exact (hasType_asWhile fresh ⟨Γ, rfl⟩ span).symm
  · exact (infers_forTo.mp accepted).1
  · rintro ⟨ended, fuel, rfl⟩
    cases fuel with
    | zero => exact absurd rfl ended
    | succ fuel =>
      rw [loops] at ended ⊢
      have more := grows_forWith (grows_eval (by omega : fuel ≤ fuel + 6))
        (grows_eval (by omega : fuel ≤ fuel + 3)) (by omega : fuel ≤ fuel + 4) loop goal body m
      have alike := alike_asWhile fresh span' fuel m
      rw [Outcome.eq_of_grows more ended] at alike
      exact ⟨_, ⟨alike.ended ended, _, rfl⟩, alike⟩
  · rintro ⟨ended, fuel, rfl⟩
    have more := grows_eval (by omega : fuel ≤ fuel + 7) (asWhile s g loop goal body span') m
    have alike := alike_asWhile fresh span' fuel m
    rw [Outcome.eq_of_grows more ended] at alike
    have rest := grows_forWith (fun e => grows_same (e.eval (fuel + 6)))
      (grows_eval (by omega : fuel + 3 ≤ fuel + 6)) (by omega : fuel + 4 ≤ fuel + 6)
      loop goal body m
    refine ⟨_, ⟨alike.swap.ended ended, fuel + 7, ?_⟩, alike⟩
    rw [loops]
    exact Outcome.eq_of_grows rest (alike.swap.ended ended)

def sumMachine (n total : Int64) : Machine :=
  .start [⟨[.of (.var ⟨"n", literal (.int 3) none, none⟩) (.int n),
    .of (.var ⟨"total", literal (.int 0) none, none⟩) (.int total)], []⟩]

def fromZero : VarDecl := ⟨"x", literal (.int 0) none, none⟩

/-- `(n := 1, total := total + x)` -/
def sumUp : Expr :=
  group [assign "n" (literal (.int 1) none) none none,
    assign "total" (binary (var "total" none) .add (var "x" none) none) none none] none

/-- The goal `n` is taken once, so that setting it to 1 ends neither loop. -/
theorem forTo_asWhile_moved_goal :
    FreshFor "s" "g" fromZero (var "n" none) sumUp ∧
    (forTo fromZero (var "n" none) sumUp none).eval 5 (sumMachine 3 0) =
      .done .void (sumMachine 1 3) ∧
    ∃ o', (asWhile "s" "g" fromZero (var "n" none) sumUp none).EndsAs (sumMachine 3 0) o' ∧
      (Outcome.done Value.void (sumMachine 1 3)).Alike SameStack o' := by
  have fresh : FreshFor "s" "g" fromZero (var "n" none) sumUp :=
    ⟨by decide, by decide, by decide, by decide⟩
  have run : (forTo fromZero (var "n" none) sumUp none).eval 5 (sumMachine 3 0) =
      .done .void (sumMachine 1 3) := rfl
  exact ⟨fresh, run, ((forTo_asWhile fresh none none).2.2 _).1 _ ⟨nofun, 5, run⟩⟩

end Expr
end TypedLet
