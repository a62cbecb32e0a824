import TypedLet.Proofs.Environment.Agree
import TypedLet.Proofs.Evaluation.Outline
import TypedLet.Proofs.Scoping.Inserted

/-
Evaluation on two stacks that differ by inserted scopes. An expression that uses no
hidden name runs alike on both: with the same result or the same error, the same output,
and stacks that again differ by the same scopes. Calls are where the two runs part: a
frame of a function from below the inserted scopes is the same stack for both runs, and
inside of it nothing is hidden; a frame of a function from above has the scopes inserted
again, at another depth.
-/
namespace TypedLet

open Scopes TypedLet.Expr

def Outcome.Alike (R : Machine → Machine → Prop) : Outcome α → Outcome α → Prop
  | .done a m, .done b m' => a = b ∧ R m m'
  | .failed e m, .failed e' m' => e = e' ∧ R m m'
  | .outOfFuel, .outOfFuel => True
  | _, _ => False

theorem Outcome.Alike.ends {R : Machine → Machine → Prop} {o o' : Outcome α}
    (alike : o.Alike R o') :
    (∃ a m m', o = .done a m ∧ o' = .done a m' ∧ R m m') ∨
      (∃ e m m', o = .failed e m ∧ o' = .failed e m' ∧ R m m') ∨
        (o = .outOfFuel ∧ o' = .outOfFuel) := by
  cases o with
  | done a m =>
    cases o' with
    | done b m' =>
      obtain ⟨rfl, related⟩ := alike
      exact .inl ⟨a, m, m', rfl, rfl, related⟩
    | failed | outOfFuel => cases alike
  | failed e m =>
    cases o' with
    | failed e' m' =>
      obtain ⟨rfl, related⟩ := alike
      exact .inr (.inl ⟨e, m, m', rfl, rfl, related⟩)
    | done | outOfFuel => cases alike
  | outOfFuel =>
    cases o' with
    | outOfFuel => exact .inr (.inr ⟨rfl, rfl⟩)
    | done | failed => cases alike

namespace Outcome.Alike

variable {R R' : Machine → Machine → Prop} {Q : Machine → Prop} {o o' o'' : Outcome α}

theorem mono (alike : o.Alike R o') (weaker : ∀ m m', R m m' → R' m m') : o.Alike R' o' := by
  rcases alike.ends with ⟨a, m, m', rfl, rfl, related⟩ | ⟨e, m, m', rfl, rfl, related⟩ |
    ⟨rfl, rfl⟩
  · exact ⟨rfl, weaker m m' related⟩
  · exact ⟨rfl, weaker m m' related⟩
  · trivial

theorem ended (alike : o.Alike R o') (ended : o ≠ .outOfFuel) : o' ≠ .outOfFuel := by
  rintro rfl
  cases o with
  | done | failed => cases alike
  | outOfFuel => exact ended rfl

theorem swap (alike : o.Alike R o') : o'.Alike (fun m' m => R m m') o := by
  rcases alike.ends with ⟨a, m, m', rfl, rfl, related⟩ | ⟨e, m, m', rfl, rfl, related⟩ |
    ⟨rfl, rfl⟩
  · exact ⟨rfl, related⟩
  · exact ⟨rfl, related⟩
  · trivial

theorem trans (first : o.Alike R o') (next : o'.Alike R' o'') :
    o.Alike (fun m m'' => ∃ m', R m m' ∧ R' m' m'') o'' := by
  rcases first.ends with ⟨a, m, m', rfl, rfl, related⟩ | ⟨e, m, m', rfl, rfl, related⟩ |
    ⟨rfl, rfl⟩
  · cases o'' with
    | done b m'' => exact ⟨next.1, m', related, next.2⟩
    | failed | outOfFuel => cases next
  · cases o'' with
    | failed e' m'' => exact ⟨next.1, m', related, next.2⟩
    | done | outOfFuel => cases next
  · cases o'' with
    | outOfFuel => trivial
    | done | failed => cases next

theorem along (alike : o.Alike R o') (holds : o.Holds (fun _ => Q) (fun _ => Q)) :
    o.Alike (fun m m' => R m m' ∧ Q m) o' := by
  rcases alike.ends with ⟨a, m, m', rfl, rfl, related⟩ | ⟨e, m, m', rfl, rfl, related⟩ |
    ⟨rfl, rfl⟩
  · exact ⟨rfl, related, holds⟩
  · exact ⟨rfl, related, holds⟩
  · trivial

end Outcome.Alike

def Paired (S : Scopes Value → Scopes Value → Prop) (m m' : Machine) : Prop :=
  S m.scopes m'.scopes ∧ m.output = m'.output

/-- Two machines that differ by scopes inserted in the middle, and maybe in the tables
    that were given up. -/
def Beside (P : String → Prop) (mid : Scopes Value) (inner outer : Nat) (m m' : Machine) :
    Prop := Inserted P mid inner outer m.scopes m'.scopes ∧ m.output = m'.output

namespace Eval

variable {R R' : Machine → Machine → Prop} {P : String → Prop} {mid : Scopes Value}
  {inner outer : Nat}

/-- From related machines both runs end alike. -/
def Agree (R : Machine → Machine → Prop) (x x' : Eval α) : Prop :=
  ∀ m m', R m m' → (x m).Alike R (x' m')

theorem agree_pure (a : α) : Agree R (Pure.pure a) (Pure.pure a) :=
  fun _ _ related => ⟨rfl, related⟩

/-- What ends alike goes on alike. The machines may be related more closely in between
    than at the end. -/
theorem alike_bind {x x' : Eval α} {f f' : α → Eval β} {m m' : Machine}
    (run : (x m).Alike R (x' m')) (weaker : ∀ after after', R after after' → R' after after')
    (next : ∀ a after after', x m = .done a after → R after after' →
      (f a after).Alike R' (f' a after')) :
    ((x >>= f) m).Alike R' ((x' >>= f') m') := by
  change (Eval.bind x f m).Alike R' (Eval.bind x' f' m')
  unfold Eval.bind
  rcases run.ends with ⟨a, after, after', here, there, related⟩ |
    ⟨e, after, after', here, there, related⟩ | ⟨here, there⟩
  · rw [here, there]
    exact next a after after' here related
  · rw [here, there]
    exact ⟨rfl, weaker after after' related⟩
  · rw [here, there]
    trivial

theorem agree_bind {x x' : Eval α} {f f' : α → Eval β} (first : Agree R x x')
    (next : ∀ a, Agree R (f a) (f' a)) : Agree R (x >>= f) (x' >>= f') :=
  fun m m' related => alike_bind (first m m' related) (fun _ _ => id) fun a after after' _ =>
    next a after after'

theorem agree_ofExcept (r : Except Error α) : Agree R (ofExcept r) (ofExcept r) := by
  intro m m' related
  cases r <;> exact ⟨rfl, related⟩

theorem agree_fail (cause : Fault) (span : Option Span) :
    Agree R (fail cause span : Eval α) (fail cause span) := fun _ _ related => ⟨rfl, related⟩

theorem agree_ofFault (r : Except Fault α) : Agree R (ofFault r) (ofFault r) := by
  cases r with
  | ok a => exact agree_pure a
  | error cause => exact agree_fail cause none

theorem agree_loop {cond cond' : Eval Bool} {body body' : Eval Unit} (test : Agree R cond cond')
    (round : Agree R body body') (fuel : Nat) :
    Agree R (loop cond body fuel) (loop cond' body' fuel) := by
  induction fuel with
  | zero => intro m m' _; trivial
  | succ fuel ih =>
    have again : ∀ b : Bool, Agree R
        (if b then body >>= fun _ => loop cond body fuel else Pure.pure ())
        (if b then body' >>= fun _ => loop cond' body' fuel else Pure.pure ()) := by
      intro b
      cases b with
      | true => exact agree_bind round fun _ => ih
      | false => exact agree_pure ()
    intro m m' related
    rw [loop_succ, loop_succ]
    exact agree_bind test again m m' related

theorem alike_closing {x x' : Eval α} {f f' : Machine → Except Error Machine} {m m' : Machine}
    (run : (x m).Alike R (x' m'))
    (close : ∀ after after', R after after' →
      ∃ last last', f after = .ok last ∧ f' after' = .ok last' ∧ R' last last') :
    (closing x f m).Alike R' (closing x' f' m') := by
  unfold closing
  rcases run.ends with ⟨a, after, after', here, there, related⟩ |
    ⟨e, after, after', here, there, related⟩ | ⟨here, there⟩
  · obtain ⟨last, last', closed, closed', related'⟩ := close after after' related
    simp only [here, there, closed, closed']
    exact ⟨rfl, related'⟩
  · obtain ⟨last, last', closed, closed', related'⟩ := close after after' related
    simp only [here, there, closed, closed']
    exact ⟨rfl, related'⟩
  · rw [here, there]
    trivial

theorem closing_ok (x : Eval α) (m : Machine) : closing x .ok m = x m := by
  unfold closing
  cases x m <;> rfl

section Paired

variable {S : Scopes Value → Scopes Value → Prop} {name : String}

theorem agree_read_of_info
    (same : ∀ {scopes scopes'}, S scopes scopes' →
      (findVar name scopes).map Binding.info = (findVar name scopes').map Binding.info)
    (span : Option Span) : Agree (Paired S) (read name span) (read name span) := by
  rintro m m' ⟨scopes, output⟩
  have carried := same scopes
  unfold read
  cases here : m.scopes.findVar name with
  | none =>
    cases there : m'.scopes.findVar name with
    | none => exact ⟨rfl, scopes, output⟩
    | some b' => rw [here, there] at carried; cases carried
  | some b =>
    cases there : m'.scopes.findVar name with
    | none => rw [here, there] at carried; cases carried
    | some b' =>
      rw [here, there] at carried
      exact ⟨Option.some.inj carried, scopes, output⟩

theorem agree_print (text : String) : Agree (Paired S) (print text) (print text) := by
  rintro m m' ⟨scopes, output⟩
  exact ⟨rfl, scopes, congrArg (· ++ text) output⟩

theorem agree_callBuiltin (name : String) (args : List Value) :
    Agree (Paired S) (callBuiltin name args) (callBuiltin name args) := by
  apply agree_bind (agree_ofExcept _)
  intro answer
  exact agree_bind (agree_print _) fun _ => agree_pure _

theorem agree_update {f : Scopes Value → Except Error (Scopes Value)}
    (same : ∀ {scopes scopes'}, S scopes scopes' →
      (∃ e, f scopes = .error e ∧ f scopes' = .error e) ∨
        ∃ after after', f scopes = .ok after ∧ f scopes' = .ok after' ∧ S after after') :
    Agree (Paired S) (onScopes (Action.update f)) (onScopes (Action.update f)) := by
  rintro m m' ⟨scopes, output⟩
  unfold onScopes Action.update
  rcases same scopes with ⟨e, run, run'⟩ | ⟨after, after', run, run', related⟩
  · rw [run, run']
    exact ⟨rfl, scopes, output⟩
  · rw [run, run']
    exact ⟨rfl, related, output⟩

theorem agree_assign_of_assign? {v : Value}
    (same : ∀ {scopes scopes'}, S scopes scopes' →
      (assign? name v scopes = none ∧ assign? name v scopes' = none) ∨
        ∃ after after', assign? name v scopes = some after ∧
          assign? name v scopes' = some after' ∧ S after after') :
    Agree (Paired S) (assign name v) (assign name v) := by
  apply agree_update
  intro scopes scopes' related
  unfold Scopes.assign
  rcases same related with ⟨run, run'⟩ | ⟨after, after', run, run', kept⟩
  · rw [run, run']
    exact .inl ⟨_, rfl, rfl⟩
  · rw [run, run']
    exact .inr ⟨_, _, rfl, rfl, kept⟩

theorem eq_of_mapError_id {r r' : Except Error α} (same : r.mapError id = r'.mapError id) :
    r = r' := by
  cases r <;> cases r' <;> cases same <;> rfl

theorem agree_tryMatch_of_matchValue {p p' : Expr} {v : Value}
    (same : Action.Agree id S (p.matchValue v) (p'.matchValue v)) :
    Agree (Paired S) (tryMatch p v) (tryMatch p' v) := by
  rintro m m' ⟨scopes, output⟩
  obtain ⟨result, related⟩ := same _ _ scopes
  unfold tryMatch
  cases run : p.matchValue v m.scopes with
  | mk r after =>
    cases run' : p'.matchValue v m'.scopes with
    | mk r' after' =>
      rw [run, run'] at result related
      obtain rfl : r = r' := eq_of_mapError_id result
      cases r with
      | error e => exact ⟨rfl, related, output⟩
      | ok matched =>
        cases matched with
        | true => exact ⟨rfl, related, output⟩
        | false => exact ⟨rfl, scopes, output⟩

end Paired

section Counter

variable {loop : VarDecl} (reads : ∀ span, Agree R (read loop.name span) (read loop.name span))
include reads

theorem agree_below_of_read (goal : Value) : Agree R (below loop goal) (below loop goal) := by
  apply agree_bind (reads _)
  intro v
  exact agree_bind (agree_ofExcept _) fun _ => agree_ofFault _

theorem agree_advance_of_read
    (assigns : ∀ v, Agree R (assign loop.name v) (assign loop.name v)) :
    Agree R (advance loop) (advance loop) := by
  apply agree_bind (reads _)
  intro v
  exact agree_bind (agree_ofExcept _) fun next => assigns next

end Counter

theorem alike_inScope {x x' : Eval α} {m m' : Machine}
    (run : (x { m with scopes := Scope.empty :: m.scopes }).Alike (Beside P mid (inner + 1) outer)
      (x' { m' with scopes := Scope.empty :: m'.scopes })) :
    (inScope x m).Alike (Beside P mid inner outer) (inScope x' m') := by
  unfold inScope
  apply alike_closing run
  rintro after after' ⟨scopes, output⟩
  obtain ⟨s, rest, rest', stack, stack', _, below⟩ := scopes.uncons
  rw [stack, stack']
  exact ⟨_, _, rfl, rfl, below, output⟩

theorem agree_inScope {x x' : Eval α} (run : Agree (Beside P mid (inner + 1) outer) x x') :
    Agree (Beside P mid inner outer) (inScope x) (inScope x') :=
  fun _ _ related => alike_inScope (run _ _ ⟨related.1.enter, related.2⟩)

theorem agree_inFrame_below {x x' : Eval α} {depth : Nat} (pos : 0 < depth)
    (below : depth ≤ outer)
    (run : Agree (Beside (fun _ => False) [] (depth + 1) 0) x x') :
    Agree (Beside P mid inner outer) (inFrame depth x) (inFrame depth x') := by
  rintro m m' ⟨scopes, output⟩
  obtain ⟨tall, tall'⟩ := scopes.length
  unfold inFrame
  rw [checkFrame_of_le pos (by omega : depth ≤ m.scopes.length),
    checkFrame_of_le pos (by omega : depth ≤ m'.scopes.length)]
  dsimp only
  rw [scopes.outermost_below below]
  have start : Inserted (fun _ => False) [] (depth + 1) 0
      (Scope.empty :: m.scopes.outermost depth) (Scope.empty :: m.scopes.outermost depth) := by
    have same := inserted_none (m.scopes.outermost depth)
    rw [length_outermost _ _ (by omega)] at same
    exact same.enter
  apply alike_closing (run { m with scopes := _ } { m' with scopes := _ } ⟨start, output⟩)
  rintro after after' ⟨scopes', output'⟩
  refine ⟨_, _, rfl, rfl, ?_, output'⟩
  have count := scopes'.length.1
  rw [eq_of_inserted_none scopes']
  exact scopes.resume_below below (length_outermost _ _ (by omega))

theorem alike_inFrame_above {x x' : Eval α} {m m' : Machine} {depth : Nat}
    (related : Beside P mid inner outer m m') (pos : 0 < depth) (fits : depth ≤ inner)
    (run : (x { m with scopes := Scope.empty :: m.scopes.outermost (depth + outer) }).Alike
      (Beside P mid (depth + 1) outer)
      (x' { m' with
        scopes := Scope.empty :: m'.scopes.outermost (depth + outer + mid.length) })) :
    (inFrame ((depth + outer : Nat) : Int) x m).Alike (Beside P mid inner outer)
      (inFrame ((depth + outer + mid.length : Nat) : Int) x' m') := by
  obtain ⟨scopes, output⟩ := related
  obtain ⟨tall, tall'⟩ := scopes.length
  unfold inFrame
  rw [checkFrame_of_le (by omega) (by omega : depth + outer ≤ m.scopes.length),
    checkFrame_of_le (by omega) (by omega : depth + outer + mid.length ≤ m'.scopes.length)]
  apply alike_closing run
  rintro after after' ⟨scopes', output'⟩
  refine ⟨_, _, rfl, rfl, ?_, output'⟩
  obtain ⟨s, rest, rest', stack, stack', _, below⟩ := scopes'.uncons
  obtain ⟨count, count'⟩ := below.length
  have cut : after.scopes.outermost (depth + outer) = rest := by
    rw [stack, outermost_of_le s rest _ (by omega), ← count, outermost_all]
  have cut' : after'.scopes.outermost (depth + outer + mid.length) = rest' := by
    have same : depth + outer + mid.length = rest'.length := by omega
    rw [stack', same, outermost_of_le s rest' _ (Nat.le_refl _), outermost_all]
  rw [cut, cut']
  exact scopes.resume_above fits below

theorem agree_inFrame_above {x x' : Eval α} {depth : Nat} (pos : 0 < depth)
    (fits : depth ≤ inner) (run : Agree (Beside P mid (depth + 1) outer) x x') :
    Agree (Beside P mid inner outer) (inFrame ((depth + outer : Nat) : Int) x)
      (inFrame ((depth + outer + mid.length : Nat) : Int) x') := by
  intro m m' related
  apply alike_inFrame_above related pos fits
  exact run _ _ ⟨(related.1.outermost_above fits).enter, related.2⟩

theorem agree_read {name : String} (hides : Hides P mid) (shown : ¬ P name)
    (span : Option Span) : Agree (Beside P mid inner outer) (read name span) (read name span) :=
  agree_read_of_info (fun inserted => by rw [inserted.findVar hides shown]) span

theorem agree_assign {name : String} (hides : Hides P mid) (shown : ¬ P name) (v : Value) :
    Agree (Beside P mid inner outer) (assign name v) (assign name v) :=
  agree_assign_of_assign? fun inserted => inserted.assign? hides shown v

theorem agree_declare (decl : Declaration) (v : Value) :
    Agree (Beside P mid (inner + 1) outer) (declare decl v) (declare decl v) :=
  agree_update fun inserted => inserted.declareVar decl v

theorem agree_declareFns {fns : List FnDecl} : (∀ f ∈ fns, FnAvoids P f) →
    Agree (Beside P mid (inner + 1) outer) (declareFns fns) (declareFns fns) := by
  induction fns with
  | nil => intro _; exact agree_pure ()
  | cons f fs ih =>
    intro avoid
    obtain ⟨first, others⟩ := List.forall_mem_cons.mp avoid
    apply agree_bind (agree_update fun inserted => inserted.declareFn first)
    intro _
    exact ih others

theorem agree_declareArgs (args : List ArgDecl) : ∀ vs : List Value,
    Agree (Beside P mid (inner + 1) outer) (declareArgs args vs) (declareArgs args vs) := by
  induction args with
  | nil => intro vs; exact agree_pure ()
  | cons a as ih =>
    intro vs
    cases vs with
    | nil => exact agree_pure ()
    | cons v vs => exact agree_bind (agree_declare _ v) fun _ => ih vs

end Eval

namespace Expr

variable {P : String → Prop} {mid : Scopes Value} {inner outer : Nat}

abbrev MatchAgrees (P : String → Prop) (mid : Scopes Value) (inner outer : Nat)
    (x : Action Value Bool) : Prop := Action.Agree id (Inserted P mid inner outer) x x

mutual
theorem matchAgrees_matchValue (hides : Hides P mid) : ∀ (p : Expr) (v : Value), Avoids P p →
    MatchAgrees P mid inner outer (p.matchValue v)
  | var name span, v, avoids => by
    intro scopes scopes' inserted
    rw [matchValue_var, matchValue_var]
    rcases inserted.assign? hides (avoids_var.mp avoids) v with
      ⟨run, run'⟩ | ⟨after, after', run, run', related⟩
    · rw [run, run']
      exact ⟨rfl, inserted⟩
    · rw [run, run']
      exact ⟨rfl, related⟩
  | literal w span, v, _ => Action.agree_pure _
  | array parts _ _ span, v, avoids => by
    cases v with
    | array element items =>
      rw [matchValue]
      split
      · exact matchAgrees_matchItems hides parts items (avoids_array.mp avoids)
      · exact Action.agree_pure false
    | _ => exact Action.agree_fail _
  | tuple parts span, v, avoids => by
    cases v with
    | tuple types items =>
      rw [matchValue]
      split
      · exact matchAgrees_matchItems hides parts items (avoids_tuple.mp avoids)
      · exact Action.agree_pure false
    | _ => exact Action.agree_fail _
  | group .., _, _ | letIn .., _, _ | assign .., _, _ | matchWith .., _, _ | call .., _, _
  | ifElse .., _, _ | whileDo .., _, _ | forTo .., _, _ | binary .., _, _ | unary .., _, _
  | cast .., _, _ => Action.agree_fail _
theorem matchAgrees_matchItems (hides : Hides P mid) : ∀ (ps : List Expr) (vs : List Value),
    AllAvoid P ps → MatchAgrees P mid inner outer (matchItems ps vs)
  | [], vs, _ => by cases vs <;> exact Action.agree_pure true
  | p :: ps, [], _ => Action.agree_pure true
  | p :: ps, v :: vs, avoid => by
    obtain ⟨first, others⟩ := List.forall_mem_cons.mp avoid
    rw [matchItems]
    apply Action.agree_bind (matchAgrees_matchValue hides p v first)
    intro b
    cases b with
    | true => exact matchAgrees_matchItems hides ps vs others
    | false => exact Action.agree_pure false
end

end Expr

namespace Eval

variable {P : String → Prop} {mid : Scopes Value} {inner outer : Nat}

theorem agree_tryMatch {p : Expr} (hides : Hides P mid) (avoids : Avoids P p) (v : Value) :
    Agree (Beside P mid inner outer) (tryMatch p v) (tryMatch p v) :=
  agree_tryMatch_of_matchValue (matchAgrees_matchValue hides p v avoids)

section Parts

variable {eval : Expr → Eval Value}

/-- The evaluator runs alike on stacks that differ by hidden scopes, whatever is hidden
    and wherever it is inserted. -/
def Weakens (eval : Expr → Eval Value) : Prop :=
  ∀ {P : String → Prop} {mid : Scopes Value} {inner outer : Nat} {e : Expr},
    Hides P mid → Avoids P e → Agree (Beside P mid inner outer) (eval e) (eval e)

theorem agree_all (weakens : Weakens eval) (hides : Hides P mid) {es : List Expr} :
    AllAvoid P es → Agree (Beside P mid inner outer) (all eval es) (all eval es) := by
  induction es with
  | nil => intro _; exact agree_pure []
  | cons e es ih =>
    intro avoid
    obtain ⟨first, others⟩ := List.forall_mem_cons.mp avoid
    apply agree_bind (weakens hides first)
    intro v
    exact agree_bind (ih others) fun _ => agree_pure _

theorem agree_row (weakens : Weakens eval) (hides : Hides P mid) {es : List Expr}
    (avoid : AllAvoid P es) : Agree (Beside P mid inner outer) (row eval es) (row eval es) :=
  agree_bind (agree_all weakens hides avoid) fun _ => agree_pure _

theorem agree_declareVars (weakens : Weakens eval) (hides : Hides P mid) {vars : List VarDecl} :
    VarsAvoid P vars →
      Agree (Beside P mid (inner + 1) outer) (declareVars eval vars) (declareVars eval vars) := by
  induction vars with
  | nil => intro _; exact agree_pure ()
  | cons d ds ih =>
    intro avoid
    obtain ⟨first, others⟩ := List.forall_mem_cons.mp avoid
    apply agree_bind (weakens hides first.2)
    intro v
    exact agree_bind (agree_declare _ v) fun _ => ih others

theorem agree_body (weakens : Weakens eval) (hides : Hides P mid) {f : FnDecl}
    (avoids : FnAvoids P f) (args : List Value) :
    Agree (Beside P mid (inner + 1) outer)
      (declareArgs f.args args >>= fun _ => eval f.body)
      (declareArgs f.args args >>= fun _ => eval f.body) :=
  agree_bind (agree_declareArgs f.args args) fun _ => weakens hides avoids.2

/-- The two depths of one call: equal below the inserted scopes, shifted above. -/
theorem agree_callFn (weakens : Weakens eval) (hides : Hides P mid) {f : FnDecl} {depth : Nat}
    (pos : 0 < depth) (fits : depth ≤ inner + outer) (avoids : outer < depth → FnAvoids P f)
    (args : List Value) :
    Agree (Beside P mid inner outer) (callFn eval f args depth)
      (callFn eval f args (Inserted.shift mid outer depth : Nat)) := by
  unfold callFn
  split
  · by_cases below : depth ≤ outer
    · rw [Inserted.shift, if_pos below]
      apply agree_inFrame_below pos below
      exact agree_body weakens hides_nil (fnAvoids_none f) args
    · obtain ⟨extra, rfl⟩ := Nat.exists_eq_add_of_lt (Nat.lt_of_not_le below)
      have split_ : outer + extra + 1 = extra + 1 + outer := by omega
      rw [Inserted.shift, if_neg below, split_]
      apply agree_inFrame_above (Nat.succ_pos extra) (by omega)
      exact agree_body weakens hides (avoids (by omega)) args
  · exact agree_fail _ _

theorem agree_call (weakens : Weakens eval) (hides : Hides P mid) (name : String)
    (args : List Value) :
    Agree (Beside P mid inner outer) (call eval name args) (call eval name args) := by
  rintro m m' ⟨scopes, output⟩
  unfold call
  rw [scopes.resolveFn hides]
  cases found : m.scopes.resolveFn name with
  | none => exact agree_callBuiltin name args m m' ⟨scopes, output⟩
  | some r =>
    obtain ⟨f, depth⟩ := r
    obtain ⟨pos, le⟩ := depth_of_resolveFn found
    rw [scopes.length.1] at le
    exact agree_callFn weakens hides pos le (scopes.avoids_of_resolveFn found) args m m'
      ⟨scopes, output⟩

end Parts

theorem agree_below {loop : VarDecl} (hides : Hides P mid) (shown : ¬ P loop.name)
    (goal : Value) : Agree (Beside P mid inner outer) (below loop goal) (below loop goal) :=
  agree_below_of_read (agree_read hides shown) goal

theorem agree_advance {loop : VarDecl} (hides : Hides P mid) (shown : ¬ P loop.name) :
    Agree (Beside P mid inner outer) (advance loop) (advance loop) :=
  agree_advance_of_read (agree_read hides shown) (agree_assign hides shown)

end Eval

namespace Expr

open Eval

theorem weakens_eval (fuel : Nat) : Weakens (Expr.eval fuel) := by
  induction fuel with
  | zero => intro P mid inner outer e _ _ m m' _; trivial
  | succ fuel ih =>
    intro P mid inner outer e hides avoids
    cases e with
    | literal v span => exact agree_pure v
    | var name span => exact agree_read hides (avoids_var.mp avoids) span
    | group body span => exact agree_row ih hides (avoids_group.mp avoids)
    | letIn vars fns body span =>
      obtain ⟨varsAvoid, fnsAvoid, bodyAvoid⟩ := avoids_letIn.mp avoids
      apply agree_inScope
      apply agree_bind (agree_declareVars ih hides varsAvoid)
      intro _
      apply agree_bind (Eval.agree_declareFns fnsAvoid)
      intro _
      exact agree_row ih hides bodyAvoid
    | assign name value nameSpan span =>
      obtain ⟨shown, valueAvoids⟩ := avoids_assign.mp avoids
      apply agree_bind (ih hides valueAvoids)
      intro v
      exact agree_bind (agree_assign hides shown v) fun _ => agree_pure v
    | matchWith pattern value span =>
      obtain ⟨patternAvoids, valueAvoids⟩ := avoids_matchWith.mp avoids
      apply agree_bind (ih hides valueAvoids)
      intro v
      exact agree_bind (agree_tryMatch hides patternAvoids v) fun _ => agree_pure _
    | call name args span =>
      apply agree_bind (agree_all ih hides (avoids_call.mp avoids))
      intro vs
      exact agree_call ih hides name vs
    | ifElse cond whenTrue whenFalse span =>
      obtain ⟨condAvoids, trueAvoids, falseAvoids⟩ := avoids_ifElse.mp avoids
      apply agree_bind (ih hides condAvoids)
      intro v
      apply agree_bind (agree_ofFault _)
      intro b
      cases b with
      | true => exact ih hides trueAvoids
      | false => exact ih hides falseAvoids
    | whileDo cond body span =>
      obtain ⟨condAvoids, bodyAvoids⟩ := avoids_whileDo.mp avoids
      apply agree_bind _ fun _ => agree_pure _
      apply agree_loop
      · exact agree_bind (ih hides condAvoids) fun v => agree_ofFault _
      · exact agree_bind (ih hides bodyAvoids) fun _ => agree_pure _
    | forTo loop goal body span =>
      obtain ⟨shown, startAvoids, goalAvoids, bodyAvoids⟩ := avoids_forTo.mp avoids
      apply agree_bind _ fun _ => agree_pure _
      apply agree_inScope
      apply agree_bind (ih hides startAvoids)
      intro start
      apply agree_bind (ih hides goalAvoids)
      intro bound
      apply agree_bind (agree_declare _ start)
      intro _
      apply agree_loop (agree_below hides shown bound)
      exact agree_bind (ih hides bodyAvoids) fun _ => agree_advance hides shown
    | binary left op right span =>
      obtain ⟨leftAvoids, rightAvoids⟩ := avoids_binary.mp avoids
      apply agree_bind (ih hides leftAvoids)
      intro v
      exact agree_bind (ih hides rightAvoids) fun w => agree_ofExcept _
    | unary op operand span =>
      have inside : Avoids P operand := avoids
      exact agree_bind (ih hides inside) fun v => agree_ofExcept _
    | cast operand target span =>
      have inside : Avoids P operand := avoids
      exact agree_bind (ih hides inside) fun v => agree_ofFault _
    | array items element elementSpan span =>
      apply agree_bind (agree_all ih hides (avoids_array.mp avoids))
      intro vs
      cases element with
      | some t => exact agree_pure _
      | none =>
        cases vs with
        | nil => exact agree_fail _ _
        | cons v vs => exact agree_pure _
    | tuple items span =>
      exact agree_bind (agree_all ih hides (avoids_tuple.mp avoids)) fun _ => agree_pure _

end Expr
end TypedLet
