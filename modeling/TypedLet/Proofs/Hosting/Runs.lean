import TypedLet.Proofs.Resolution.Following
import TypedLet.Proofs.Scoping.Evaluation

/-
Runs on top of a host. The scopes of a program may stand on those of a host, which was
there before. A lookup that finds something among the scopes of the program finds it there
under any host; one that comes down to a builtin does so as long as the host has no
function of that name. A run that makes only such lookups runs alike with the host and
without it, and never touches the host.
-/
namespace TypedLet

open Scopes

variable {host : Scopes Value} {n : Nat}

/-- A lookup that the host has no part in. -/
def Visit.Own (host : Scopes Value) (visit : Visit) : Prop :=
  visit.found ≠ .unbound ∧ ∀ b, visit.found = .builtin b → host.resolveFn b.name = none

namespace Scopes

variable {scopes : Scopes Value} {name : String} {openers : List Place} {place : Place}

/-- A name that no function of the program bears is that of a builtin. -/
theorem resolveFn_of_own (own : Visit.Own host ⟨place, Found.ofCallee openers (scopes.callee name)⟩)
    (free : scopes.locateFn name = none) : resolveFn name host = none := by
  have bound := own.1
  have builtin := own.2
  dsimp only at bound builtin
  rw [callee, free] at bound builtin
  cases known : Builtin.find? name with
  | none => simp [known, Found.ofCallee] at bound
  | some b =>
    have named : b.name = name := by simpa using List.find?_some known
    rw [known] at builtin
    rw [← named]
    exact builtin b rfl

theorem isSome_findVar_of_own
    (own : Visit.Own host ⟨place, Found.ofVar openers (scopes.locateVar name)⟩) :
    (findVar name scopes).isSome = true := by
  have bound := own.1
  rw [findVar_eq_locate]
  cases found : scopes.locateVar name with
  | some spot => rfl
  | none => exact absurd (by rw [found]; rfl) bound

end Scopes

/-- The second machine is the first one on top of the host; the first one has `n` scopes. -/
abbrev OnHost (host : Scopes Value) (n : Nat) : Machine → Machine → Prop :=
  Beside (fun _ => False) host n 0

theorem onHost_iff {m m' : Machine} : OnHost host n m m' ↔
    m'.scopes = m.scopes ++ host ∧ m.scopes.length = n ∧ m.output = m'.output := by
  constructor
  · rintro ⟨⟨upper, lower, scopes, scopes', count, bare, _⟩, output⟩
    obtain rfl := List.length_eq_zero_iff.mp bare
    rw [List.append_nil] at scopes scopes'
    exact ⟨by rw [scopes', scopes], by rw [scopes, count], output⟩
  · rintro ⟨scopes', count, output⟩
    refine ⟨⟨m.scopes, [], by simp, by simp [scopes'], count, rfl, ?_⟩, output⟩
    intro s _ f _
    exact Expr.fnAvoids_none f

namespace Eval

variable {m m' : Machine} {name : String}

def Has (name : String) (m : Machine) : Prop := (m.scopes.findVar name).isSome = true

theorem has_of_outline (same : outline m.scopes = outline m'.scopes) (has : Has name m') :
    Has name m := by
  have both := congrArg (findVar name) same
  unfold Has at *
  rw [outline, outline, findVar_mapInfo, findVar_mapInfo] at both
  have some := congrArg Option.isSome both
  rw [Option.isSome_map, Option.isSome_map] at some
  rw [some]
  exact has

theorem alike_read (related : OnHost host n m m') (has : Has name m) (span : Option Span) :
    (read name span m).Alike (OnHost host n) (read name span m') := by
  obtain ⟨scopes', _, _⟩ := onHost_iff.mp related
  obtain ⟨b, found⟩ := Option.isSome_iff_exists.mp has
  unfold read
  rw [scopes', findVar_append, found]
  exact ⟨rfl, related⟩

theorem assignValue_append {scopes : Scopes Value} (found : (findVar name scopes).isSome = true)
    (v : Value) : ∃ after, Expr.assignValue name v scopes = (.ok (), after) ∧
      Expr.assignValue name v (scopes ++ host) = (.ok (), after ++ host) ∧
        after.length = scopes.length := by
  rw [← isSome_assign? scopes name v] at found
  obtain ⟨after, run⟩ := Option.isSome_iff_exists.mp found
  refine ⟨after, ?_, ?_, length_of_assign? name v run⟩
  · exact Action.update_ok_iff.mpr (by rw [Scopes.assign, run])
  · exact Action.update_ok_iff.mpr (by rw [Scopes.assign, assign?_append, run]; rfl)

theorem alike_assign (related : OnHost host n m m') (has : Has name m) (v : Value) :
    (assign name v m).Alike (OnHost host n) (assign name v m') := by
  obtain ⟨scopes', count, output⟩ := onHost_iff.mp related
  obtain ⟨after, run, run', kept⟩ := assignValue_append has v
  unfold assign onScopes
  rw [scopes', run, run']
  exact ⟨rfl, onHost_iff.mpr ⟨rfl, kept.trans count, output⟩⟩

abbrev OnHostWith (host : Scopes Value) (n : Nat) (name : String) (m m' : Machine) : Prop :=
  OnHost host n m m' ∧ Has name m

theorem alike_having {x x' : Eval α} (keeps : Keeps x) (has : Has name m)
    (run : (x m).Alike (OnHost host n) (x' m')) :
    (x m).Alike (OnHostWith host n name) (x' m') := by
  apply run.along
  apply Outcome.holds_mono (keeps m)
  · intro _ after same
    exact has_of_outline same has
  · intro _ after same
    exact has_of_outline same has

theorem agree_read_having (span : Option Span) :
    Agree (OnHostWith host n name) (read name span) (read name span) :=
  fun _ _ related =>
    alike_having (keeps_read name span) related.2 (alike_read related.1 related.2 span)

theorem agree_assign_having (v : Value) :
    Agree (OnHostWith host n name) (assign name v) (assign name v) :=
  fun _ _ related =>
    alike_having (keeps_assign name v) related.2 (alike_assign related.1 related.2 v)

theorem agree_below_having (loop : VarDecl) (goal : Value) :
    Agree (OnHostWith host n loop.name) (below loop goal) (below loop goal) :=
  agree_below_of_read agree_read_having goal

theorem agree_advance_having (loop : VarDecl) :
    Agree (OnHostWith host n loop.name) (advance loop) (advance loop) :=
  agree_advance_of_read agree_read_having agree_assign_having

theorem has_of_declare {decl : Declaration} {v : Value} {u : Unit} {after : Machine}
    (run : declare decl v m = .done u after) : Has decl.name after := by
  unfold declare onScopes Action.update at run
  cases stack : m.scopes with
  | nil => rw [stack] at run; cases run
  | cons s outer =>
    rw [stack] at run
    cases declared : declareVar decl v (s :: outer) with
    | error e => rw [declared] at run; cases run
    | ok scopes =>
      rw [declared] at run
      cases run
      obtain ⟨_, rfl⟩ := declareVar_cons_ok_iff.mp declared
      simp [Has, findVar, Scope.findVar, List.find?_append]

end Eval

namespace Watched

def Hosted (host : Scopes Value) (x : Watched Value α) : Prop := ∀ scopes,
  (∀ v ∈ x.visits scopes, v.Own host) →
    x.erase (scopes ++ host) = ((x.erase scopes).1, (x.erase scopes).2 ++ host)

theorem hosted_inspect (r : Except Error α) :
    Hosted host (lift (Action.inspect fun _ => r)) := fun _ _ => rfl

theorem hosted_pure (a : α) : Hosted host (Pure.pure a) := hosted_inspect (.ok a)

theorem hosted_fail (e : Error) : Hosted host (lift (Action.fail e : Action Value α)) :=
  hosted_inspect (.error e)

theorem hosted_bind {x : Watched Value α} {f : α → Watched Value β} (first : Hosted host x)
    (next : ∀ a, Hosted host (f a)) : Hosted host (x >>= f) := by
  intro scopes own
  rw [erase_bind]
  cases run : x.erase scopes with
  | mk result after =>
    cases result with
    | ok a =>
      rw [visits_bind_of_ok run, List.forall_mem_append] at own
      have there := first scopes own.1
      rw [run] at there
      rw [Action.bind_of_ok run, Action.bind_of_ok there]
      exact next a after own.2
    | error e =>
      rw [visits_bind_of_error run] at own
      have there := first scopes own
      rw [run] at there
      rw [Action.bind_of_error run, Action.bind_of_error there]

theorem hosted_watchWrite {openers : List Place} {place : Place} {name : String} (v : Value) :
    Hosted host (Expr.watchWrite openers place name v) := by
  intro scopes own
  have has := isSome_findVar_of_own (own _ List.mem_cons_self)
  obtain ⟨after, run, run', _⟩ := Eval.assignValue_append has v
  rw [Expr.erase_watchWrite, run, run']

end Watched

namespace Expr

open Watched

mutual
theorem hosted_watchMatch : ∀ (p : Expr) (v : Value) (openers : List Place) (place : Place),
    Hosted host (p.watchMatch openers place v)
  | var name span, v, openers, place => hosted_bind (hosted_watchWrite v) fun _ => hosted_pure true
  | literal w span, v, openers, place => hosted_pure _
  | array parts _ _ span, v, openers, place => by
    cases v with
    | array element items =>
      rw [watchMatch]
      split
      · exact hosted_watchItems parts items openers place 0
      · exact hosted_pure false
    | _ => exact hosted_fail _
  | tuple parts span, v, openers, place => by
    cases v with
    | tuple types items =>
      rw [watchMatch]
      split
      · exact hosted_watchItems parts items openers place 0
      · exact hosted_pure false
    | _ => exact hosted_fail _
  | group .., _, _, _ | letIn .., _, _, _ | assign .., _, _, _ | matchWith .., _, _, _
  | call .., _, _, _ | ifElse .., _, _, _ | whileDo .., _, _, _ | forTo .., _, _, _
  | binary .., _, _, _ | unary .., _, _, _ | cast .., _, _, _ => hosted_fail _
theorem hosted_watchItems : ∀ (ps : List Expr) (vs : List Value) (openers : List Place)
    (place : Place) (index : Nat), Hosted host (watchItems openers place index ps vs)
  | [], vs, openers, place, index => by cases vs <;> exact hosted_pure true
  | p :: ps, [], openers, place, index => hosted_pure true
  | p :: ps, v :: vs, openers, place, index => by
    rw [watchItems]
    apply hosted_bind (hosted_watchMatch p v openers (index :: place))
    intro matched
    cases matched with
    | true => exact hosted_watchItems ps vs openers place (index + 1)
    | false => exact hosted_pure false
end

end Expr

namespace Traced

variable {R : Machine → Machine → Prop} {m m' : Machine}

/-- A run that makes only own lookups runs alike on the two machines. -/
def Hosted (host : Scopes Value) (R : Machine → Machine → Prop) (x : Traced α) : Prop :=
  ∀ m m', R m m' → (∀ v ∈ x.visits m, v.Own host) → (x.erase m).Alike R (x.erase m')

theorem hosted_lift {x : Eval α} (agree : Eval.Agree R x x) : Hosted host R (lift x) :=
  fun m m' related _ => agree m m' related

theorem hosted_pure (a : α) : Hosted host R (Pure.pure a) := hosted_lift (Eval.agree_pure a)

theorem hosted_bind {x : Traced α} {f : α → Traced β} (first : Hosted host R x)
    (next : ∀ a, Hosted host R (f a)) : Hosted host R (x >>= f) := by
  intro m m' related own
  rw [visits_bind, List.forall_mem_append] at own
  rw [erase_bind]
  apply Eval.alike_bind (first m m' related own.1) fun _ _ => id
  intro a after after' run related'
  have later := own.2
  rw [run] at later
  exact next a after after' related' later

theorem hosted_inScope {x : Traced α} (run : Hosted host (OnHost host (n + 1)) x) :
    Hosted host (OnHost host n) (inScope x) := by
  intro m m' related own
  exact Eval.alike_inScope (run _ _ ⟨related.1.enter, related.2⟩ own)

theorem hosted_loop {cond : Traced Bool} {body : Traced Unit} (test : Hosted host R cond)
    (round : Hosted host R body) (fuel : Nat) : Hosted host R (loop cond body fuel) := by
  induction fuel with
  | zero => exact fun _ _ _ _ => trivial
  | succ fuel ih =>
    rw [loop_succ]
    apply hosted_bind test
    intro b
    cases b with
    | true => exact hosted_bind round fun _ => ih
    | false => exact hosted_pure ()

theorem hosted_having {x : Traced α} {name : String} (keeps : Eval.Keeps x.erase)
    (run : Hosted host (OnHost host n) x) : Hosted host (Eval.OnHostWith host n name) x :=
  fun m m' related own => Eval.alike_having keeps related.2 (run m m' related.1 own)

theorem hosted_declare_bind {decl : Declaration} (v : Value) {f : Unit → Traced α}
    (next : Hosted host (Eval.OnHostWith host (n + 1) decl.name) (f ())) :
    Hosted host (OnHost host (n + 1)) (lift (Eval.declare decl v) >>= f) := by
  intro m m' related own
  rw [visits_bind, List.forall_mem_append] at own
  rw [erase_bind]
  apply Eval.alike_bind (Eval.agree_declare decl v m m' related) fun _ _ => id
  intro _ after after' run related'
  have later := own.2
  rw [erase_lift, run] at later
  exact (next after after' ⟨related', Eval.has_of_declare run⟩ later).mono fun _ _ both => both.1

section Parts

variable {openers : List Place} {place : Place}

theorem hosted_read (name : String) (span : Option Span) :
    Hosted host (OnHost host n) (read openers place name span) := by
  intro m m' related own
  rw [erase_read]
  exact Eval.alike_read related (isSome_findVar_of_own (own _ List.mem_cons_self)) span

theorem hosted_assign (name : String) (v : Value) :
    Hosted host (OnHost host n) (assign openers place name v) := by
  intro m m' related own
  rw [assign, visits_onScopes] at own
  rw [erase_assign]
  exact Eval.alike_assign related (isSome_findVar_of_own (own _ List.mem_cons_self)) v

theorem hosted_tryMatch (p : Expr) (v : Value) :
    Hosted host (OnHost host n) (tryMatch openers place p v) := by
  intro m m' related own
  obtain ⟨scopes', count, output⟩ := onHost_iff.mp related
  rw [tryMatch, visits_undoing] at own
  have there := Expr.hosted_watchMatch p v openers place m.scopes own
  rw [Expr.erase_watchMatch] at there
  have kept := length_of_outline (Expr.outline_matchValue p v m.scopes)
  rw [erase_tryMatch]
  unfold Eval.tryMatch
  rw [scopes', there]
  cases run : p.matchValue v m.scopes with
  | mk result after =>
    rw [run] at kept
    have moved : ∀ abandoned abandoned', OnHost host n ⟨after, m.output, abandoned⟩
        ⟨after ++ host, m'.output, abandoned'⟩ := fun _ _ =>
      onHost_iff.mpr ⟨rfl, kept.trans count, output⟩
    cases result with
    | error e => exact ⟨rfl, moved _ _⟩
    | ok matched =>
      cases matched with
      | true => exact ⟨rfl, moved _ _⟩
      | false => exact ⟨rfl, onHost_iff.mpr ⟨rfl, count, output⟩⟩

end Parts

end Traced
end TypedLet
