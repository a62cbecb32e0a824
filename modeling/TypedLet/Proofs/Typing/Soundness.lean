import TypedLet.Proofs.Evaluation.Outline
import TypedLet.Proofs.Typing.Builtins
import TypedLet.Proofs.Typing.Checked
import TypedLet.Proofs.Typing.Environments

/-
Type soundness. A program that is accepted, and whose literals are well formed, gives
a well-formed value of its type or ends in the division of an integer by zero. It
meets no internal error and no type error, however deep its calls go.

The invariant of a run has two parts. The scopes of values fit the scopes of types
under which the expression was accepted, and every function in these has itself been
checked under the scopes that its body will run on.
-/
namespace TypedLet

open Scopes

namespace Eval

variable {Γ Δ Θ : Scopes Ty} {D : α → Prop} {D' : β → Prop}

/-- From scopes that fit the first types a run leads to scopes that fit the second,
    with a result as said, or it divides by zero. -/
def Runs (Γ Δ : Scopes Ty) (x : Eval α) (D : α → Prop) : Prop := ∀ m, Fits Γ m.scopes →
  (x m).Holds (fun a after => D a ∧ Fits Δ after.scopes) (fun e _ => e = .divisionByZero)

theorem runs_pure {a : α} (h : D a) : Runs Γ Γ (Pure.pure a) D := fun _ fits => ⟨h, fits⟩

theorem runs_bind {x : Eval α} {f : α → Eval β} (first : Runs Γ Δ x D)
    (next : ∀ a, D a → Runs Δ Θ (f a) D') : Runs Γ Θ (x >>= f) D' := by
  intro m fits
  apply holds_bind (first m fits)
  rintro a after ⟨holds, fits'⟩
  exact next a holds after fits'

theorem runs_ofExcept {r : Except Error Value} {t : Ty} (h : Promised t r) :
    Runs Γ Γ (ofExcept r) (·.Has t) := by
  intro m fits
  rcases h with ⟨v, rfl, typed, formed⟩ | rfl
  · exact ⟨⟨typed, formed⟩, fits⟩
  · rfl

theorem runs_ofExcept_ok {r : Except Error α} {a : α} (h : r = .ok a) :
    Runs Γ Γ (ofExcept r) (· = a) := by
  intro m fits
  subst h
  exact ⟨rfl, fits⟩

theorem runs_ofFault {r : Except Fault α} (h : ∃ a, r = .ok a ∧ D a) : Runs Γ Γ (ofFault r) D := by
  intro m fits
  obtain ⟨a, rfl, holds⟩ := h
  exact ⟨holds, fits⟩

theorem runs_test {v : Value} {t : Ty} (has : v.Has t) (tested : t.isCondition = true) :
    Runs Γ Γ (test v) fun _ => True := by
  rw [← has.1] at tested
  obtain ⟨b, truth⟩ := Value.truth_of_isCondition tested
  exact runs_ofFault ⟨b, truth, trivial⟩

theorem runs_read {name : String} {b : Binding Ty} (found : Γ.findVar name = some b)
    (span : Option Span) : Runs Γ Γ (read name span) (·.Has b.info) := by
  intro m fits
  obtain ⟨c, there, has⟩ := fits.findVar found
  unfold read
  rw [there]
  exact ⟨has, fits⟩

theorem runs_assign (checked : Checked Γ) {name : String} {b : Binding Ty} {v : Value}
    (found : Γ.findVar name = some b) (has : v.Has b.info) :
    Runs Γ Γ (assign name v) fun _ => True := by
  intro m fits
  obtain ⟨after, run, fits'⟩ := fits.assign? checked.distinct found has
  have assigned : m.scopes.assign name v = .ok after := by
    rw [Scopes.assign, run]
  apply holds_update
  · intro scopes same
    rw [assigned] at same
    cases same
    exact ⟨trivial, fits'⟩
  · intro e same
    rw [assigned] at same
    cases same

theorem runs_declare {decl : Declaration} {t : Ty} {v : Value} (has : v.Has t)
    (run : Γ.declareVar decl t = .ok Δ) : Runs Γ Δ (declare decl v) fun _ => True := by
  intro m fits
  obtain ⟨after, declared, fits'⟩ := fits.declareVar has run
  apply holds_update
  · intro scopes same
    rw [declared] at same
    cases same
    exact ⟨trivial, fits'⟩
  · intro e same
    rw [declared] at same
    cases same

theorem runs_declareFns {fns : List FnDecl} : ∀ {Γ : Scopes Ty},
    Expr.declareFns fns Γ = (.ok (), Δ) → Runs Γ Δ (declareFns fns) fun _ => True := by
  induction fns with
  | nil =>
    intro Γ run
    cases (Action.pure_ok_iff.mp run).2
    exact runs_pure trivial
  | cons f fs ih =>
    intro Γ run
    obtain ⟨Θ, first, others⟩ := Expr.declareFns_cons_ok_iff.mp run
    apply runs_bind (D := fun _ => True) (Δ := Θ) _ fun _ _ => ih others
    intro m fits
    obtain ⟨after, declared, fits'⟩ := fits.declareFn first
    apply holds_update
    · intro scopes same
      rw [declared] at same
      cases same
      exact ⟨trivial, fits'⟩
    · intro e same
      rw [declared] at same
      cases same

def HaveAll (vs : List Value) (ts : List Ty) : Prop :=
  vs.map Value.type = ts ∧ Value.AllWellFormed vs

theorem haveAll_cons {v : Value} {vs : List Value} {t : Ty} {ts : List Ty} (has : v.Has t)
    (others : HaveAll vs ts) : HaveAll (v :: vs) (t :: ts) :=
  ⟨by rw [List.map_cons, has.1, others.1], has.2, others.2⟩

theorem haveAll_uncons {vs : List Value} {t : Ty} {ts : List Ty} (h : HaveAll vs (t :: ts)) :
    ∃ v rest, vs = v :: rest ∧ v.Has t ∧ HaveAll rest ts := by
  obtain ⟨types, formed⟩ := h
  cases vs with
  | nil => cases types
  | cons v rest =>
    obtain ⟨first, others⟩ := List.cons.inj types
    exact ⟨v, rest, rfl, ⟨first, formed.1⟩, others, formed.2⟩

theorem runs_declareArgs {args : List ArgDecl} : ∀ {Γ : Scopes Ty} {vs : List Value},
    HaveAll vs (args.map (·.type)) → Expr.declareArgs args Γ = (.ok (), Δ) →
      Runs Γ Δ (declareArgs args vs) fun _ => True := by
  induction args with
  | nil =>
    intro Γ vs _ run
    cases (Action.pure_ok_iff.mp run).2
    exact runs_pure trivial
  | cons a as ih =>
    intro Γ vs have_ run
    obtain ⟨v, rest, rfl, has, others⟩ := haveAll_uncons have_
    obtain ⟨Θ, first, next⟩ := Expr.declareArgs_cons_ok_iff.mp run
    exact runs_bind (runs_declare has first) fun _ _ => ih others next

theorem runs_inScope {g : Scope Ty} {x : Eval α} (keeps : KeepsOuter x)
    (run : Runs (Scope.empty :: Γ) (g :: Γ) x D) : Runs Γ Γ (inScope x) D := by
  intro m fits
  apply holds_inScope
  have above : Above (outline m.scopes) { m with scopes := Scope.empty :: m.scopes } :=
    ⟨Scope.empty, m.scopes, rfl, rfl⟩
  have both := Outcome.holds_and (keeps _ _ above) (run { m with scopes := _ } fits.enter)
  apply Outcome.holds_mono both
  · rintro a after ⟨_, holds, fits'⟩
    obtain ⟨s, rest, stack, outer⟩ := fits'.uncons
    exact ⟨s, rest, stack, holds, outer⟩
  · rintro e after ⟨⟨s, rest, stack, _⟩, divides⟩
    exact ⟨s, rest, stack, divides⟩

theorem runs_inFrame {g : Scope Ty} {x : Eval α} {depth : Nat} (pos : 0 < depth)
    (le : depth ≤ Γ.length)
    (run : Runs (Scope.empty :: Γ.outermost depth) (g :: Γ.outermost depth) x D) :
    Runs Γ Γ (inFrame depth x) D := by
  intro m fits
  have tall : depth ≤ m.scopes.length := by
    rw [fits.length]
    exact le
  apply holds_inFrame pos tall
  apply Outcome.holds_mono (run { m with scopes := _ } (fits.outermost depth).enter)
  · rintro a after ⟨holds, fits'⟩
    obtain ⟨s, rest, stack, outer⟩ := fits'.uncons
    have count : rest.length = depth := by
      rw [outer.length, length_outermost _ _ le]
    have cut : after.scopes.outermost depth = rest := by
      rw [stack, outermost_of_le s rest depth (by omega), ← count, outermost_all]
    refine ⟨holds, ?_⟩
    rw [← innermost_append_outermost Γ depth, afterFrame, cut]
    exact (fits.innermost depth).append outer
  · intro _ _ divides
    exact divides

theorem runs_loop {cond : Eval Bool} {body : Eval Unit} (test : Runs Γ Γ cond fun _ => True)
    (round : Runs Γ Γ body fun _ => True) (fuel : Nat) :
    Runs Γ Γ (loop cond body fuel) fun _ => True := by
  intro m fits
  have kept : (loop cond body fuel m).Holds (fun _ after => Fits Γ after.scopes)
      (fun e _ => e = .divisionByZero) := by
    apply holds_loop (I := fun after => Fits Γ after.scopes) _ _ fuel m fits
    · intro middle fits'
      exact Outcome.holds_mono (test middle fits') (fun _ _ h => h.2) fun _ _ divides => divides
    · intro middle fits'
      exact Outcome.holds_mono (round middle fits') (fun _ _ h => h.2) fun _ _ divides => divides
  apply Outcome.holds_mono kept
  · intro _ _ fits'
    exact ⟨trivial, fits'⟩
  · intro _ _ divides
    exact divides

end Eval

namespace Expr

open Eval

variable {Γ : Scopes Ty} {t : Ty}

theorem all_have_of_array {vs : List Value} {element : Ty} {ts : List Ty}
    (items : ∀ v ∈ vs, v.type = element) (parts : ∀ s ∈ ts, s = element)
    (count : ts.length = vs.length) : vs.map Value.type = ts := by
  have left : vs.map Value.type = List.replicate vs.length element :=
    List.eq_replicate_iff.mpr ⟨by simp, by simpa using items⟩
  rw [left, ← count, List.eq_replicate_iff.mpr ⟨rfl, parts⟩, List.length_replicate]

def Matches (Γ : Scopes Ty) (x : Action Value Bool) : Prop := ∀ scopes, Fits Γ scopes →
  ∃ b after, x scopes = (.ok b, after) ∧ Fits Γ after

theorem matches_pure (b : Bool) : Matches Γ (Pure.pure b) :=
  fun scopes fits => ⟨b, scopes, rfl, fits⟩

mutual
theorem matches_value (checked : Checked Γ) : ∀ (p : Expr) (v : Value) (t : Ty),
    p.forbidden? = none → Infers Γ p t → v.Has t → Matches Γ (p.matchValue v)
  | var name span, v, t, _, infers, has => by
    intro scopes fits
    obtain ⟨b, found, rfl⟩ := infers_var.mp infers
    obtain ⟨after, run, fits'⟩ := fits.assign? checked.distinct found has
    exact ⟨true, after, by rw [matchValue_var, run], fits'⟩
  | literal w span, v, t, _, _, _ => matches_pure _
  | array parts element elementSpan span, v, t, legal, infers, has => by
    obtain ⟨a, ts, rfl, _, types, same⟩ := infers_array.mp infers
    obtain ⟨items, rfl⟩ := Value.array_of_type has.1
    obtain ⟨_, typed, formed⟩ := has
    rw [matchValue]
    by_cases count : parts.length = items.length
    · have tall : ts.length = items.length := by
        rw [← length_of_infersAll types, count]
      rw [if_pos count]
      rw [forbidden?] at legal
      exact matches_items checked parts items ts legal types
        ⟨all_have_of_array typed same tall, formed⟩
    · rw [if_neg count]
      exact matches_pure false
  | tuple parts span, v, t, legal, infers, has => by
    obtain ⟨ts, rfl, types⟩ := infers_tuple.mp infers
    obtain ⟨items, rfl⟩ := Value.tuple_of_type has.1
    obtain ⟨_, recorded, formed⟩ := has
    rw [matchValue]
    by_cases count : parts.length = items.length
    · rw [if_pos count]
      rw [forbidden?] at legal
      exact matches_items checked parts items ts legal types ⟨recorded.symm, formed⟩
    · rw [if_neg count]
      exact matches_pure false
  | group .., _, _, legal, _, _ | letIn .., _, _, legal, _, _ | assign .., _, _, legal, _, _
  | matchWith .., _, _, legal, _, _ | call .., _, _, legal, _, _ | ifElse .., _, _, legal, _, _
  | whileDo .., _, _, legal, _, _ | forTo .., _, _, legal, _, _ | binary .., _, _, legal, _, _
  | unary .., _, _, legal, _, _ | cast .., _, _, legal, _, _ => by cases legal
theorem matches_items (checked : Checked Γ) : ∀ (ps : List Expr) (vs : List Value)
    (ts : List Ty), anyForbidden? ps = none → InfersAll Γ ps ts → HaveAll vs ts →
      Matches Γ (matchItems ps vs)
  | [], vs, _, _, _, _ => by cases vs <;> exact matches_pure true
  | p :: ps, vs, ts, legal, types, have_ => by
    obtain ⟨t, rest, rfl, first, others⟩ := infersAll_cons.mp types
    obtain ⟨v, ws, rfl, has, later⟩ := haveAll_uncons have_
    obtain ⟨here, below⟩ := anyForbidden_cons_iff.mp legal
    intro scopes fits
    obtain ⟨b, middle, run, fits'⟩ := matches_value checked p v t here first has scopes fits
    rw [matchItems, Action.bind_of_ok run]
    cases b with
    | false => exact ⟨false, middle, rfl, fits'⟩
    | true => exact matches_items checked ps ws rest below others later middle fits'
end

end Expr

namespace Eval

open TypedLet.Expr

variable {Γ Δ : Scopes Ty} {t : Ty}

theorem runs_tryMatch {p : Expr} {v : Value} (h : Matches Γ (p.matchValue v)) :
    Runs Γ Γ (tryMatch p v) fun _ => True := by
  intro m fits
  obtain ⟨b, after, run, fits'⟩ := h m.scopes fits
  unfold tryMatch
  rw [run]
  cases b with
  | true => exact ⟨trivial, fits'⟩
  | false => exact ⟨trivial, fits⟩

theorem runs_print (text : String) : Runs Γ Γ (print text) fun _ => True :=
  fun _ fits => ⟨trivial, fits⟩

theorem runs_callBuiltin {name : String} {b : Builtin} {vs : List Value} {ts : List Ty}
    (found : Builtin.find? name = some b) (result : b.resultFor ts = some t)
    (have_ : HaveAll vs ts) : Runs Γ Γ (callBuiltin name vs) (·.Has t) := by
  rw [← have_.1] at result
  have named : Builtin.callNamed name vs = b.call vs := by
    rw [Builtin.callNamed, found]
  have promised := Builtin.promised_call result
  rw [← named] at promised
  unfold callBuiltin
  cases answer : Builtin.callNamed name vs with
  | ok pair =>
    rw [answer] at promised
    apply runs_bind (runs_ofExcept_ok rfl)
    rintro _ rfl
    rcases promised with ⟨v, done, has⟩ | divides
    · cases done
      exact runs_bind (runs_print _) fun _ _ => runs_pure has
    · cases divides
  | error e =>
    rw [answer] at promised
    rcases promised with ⟨_, done, _⟩ | divides
    · cases done
    · intro m _
      exact Except.error.inj divides

section Parts

variable {eval : Expr → Eval Value}

def Sound (eval : Expr → Eval Value) : Prop := ∀ {Γ : Scopes Ty} {e : Expr} {t : Ty},
  Checked Γ → e.LiteralsFormed → Infers Γ e t → Runs Γ Γ (eval e) (·.Has t)

theorem runs_all (sound : Sound eval) (checked : Checked Γ) {es : List Expr} :
    ∀ {ts : List Ty}, AllLiteralsFormed es → InfersAll Γ es ts →
      Runs Γ Γ (all eval es) (HaveAll · ts) := by
  induction es with
  | nil =>
    intro ts _ types
    rw [infersAll_nil.mp types]
    exact runs_pure ⟨rfl, trivial⟩
  | cons e es ih =>
    intro ts formed types
    obtain ⟨s, rest, rfl, first, others⟩ := infersAll_cons.mp types
    apply runs_bind (sound checked formed.1 first)
    intro v has
    apply runs_bind (ih formed.2 others)
    intro vs later
    exact runs_pure (haveAll_cons has later)

theorem has_getLast {vs : List Value} {ts : List Ty} (h : HaveAll vs ts) :
    (vs.getLast?.getD .void).Has (rowType ts) := by
  obtain ⟨rfl, formed⟩ := h
  rw [rowType, List.getLast?_map]
  cases last : vs.getLast? with
  | none => exact ⟨rfl, trivial⟩
  | some v => exact ⟨rfl, Value.allWellFormed_iff.mp formed v (List.mem_of_getLast? last)⟩

theorem runs_row (sound : Sound eval) (checked : Checked Γ) {es : List Expr} {ts : List Ty}
    (formed : AllLiteralsFormed es) (types : InfersAll Γ es ts) :
    Runs Γ Γ (row eval es) (·.Has (rowType ts)) :=
  runs_bind (runs_all sound checked formed types) fun _ have_ => runs_pure (has_getLast have_)

theorem runs_declareVars (sound : Sound eval) {vars : List VarDecl} : ∀ {s : Scope Ty},
    Checked (s :: Γ) → s.fns = [] → VarLiteralsFormed vars →
      checkVars vars (s :: Γ) = (.ok (), Δ) →
        Runs (s :: Γ) Δ (declareVars eval vars) fun _ => True := by
  induction vars with
  | nil =>
    intro s _ _ _ run
    cases (Action.pure_ok_iff.mp run).2
    exact runs_pure trivial
  | cons d ds ih =>
    intro s checked bare formed run
    obtain ⟨type, Θ, infers, _, declared, others⟩ := checkVars_cons_ok_iff.mp run
    obtain ⟨g, rfl, bare', checked'⟩ := checked.declareVar bare declared
    obtain ⟨first, later⟩ := varLiteralsFormed_cons.mp formed
    apply runs_bind (sound checked first infers)
    intro v has
    apply runs_bind (runs_declare has declared)
    intro _ _
    exact ih checked' bare' later others

theorem runs_callFn (sound : Sound eval) (checked : Checked Γ)
    {name : String} {f : FnDecl} {depth : Nat} (found : Γ.resolveFn name = some (f, depth))
    {vs : List Value} {ts : List Ty} (result : f.resultFor ts = some t) (have_ : HaveAll vs ts) :
    Runs Γ Γ (callFn eval f vs depth) (·.Has t) := by
  obtain ⟨pos, le⟩ := depth_of_resolveFn found
  obtain ⟨checks, formed⟩ := checked.resolveFn found
  obtain ⟨g, declared, infers⟩ := fnChecks_iff.mp checks
  unfold FnDecl.resultFor at result
  split at result
  · next same =>
    cases result
    subst same
    have count : vs.length = f.args.length := by
      have := congrArg List.length have_.1
      rwa [List.length_map, FnDecl.argTypes, List.length_map] at this
    obtain ⟨_, same, _, checked'⟩ := (checked.outermost depth).enter.declareArgs rfl declared
    obtain ⟨rfl, _⟩ := List.cons.inj same
    unfold callFn
    rw [if_pos count]
    apply runs_inFrame pos le
    exact runs_bind (runs_declareArgs have_ declared) fun _ _ => sound checked' formed infers
  · cases result

theorem runs_call (sound : Sound eval) (checked : Checked Γ)
    {name : String} {vs : List Value} {ts : List Ty} (gives : CallGives Γ name ts t)
    (have_ : HaveAll vs ts) : Runs Γ Γ (call eval name vs) (·.Has t) := by
  intro m fits
  unfold CallGives findFn at gives
  unfold call
  rw [fits.resolveFn name]
  cases found : Γ.resolveFn name with
  | none =>
    rw [found] at gives
    obtain ⟨b, named, result⟩ := gives
    exact runs_callBuiltin named result have_ m fits
  | some pair =>
    rw [found] at gives
    exact runs_callFn sound checked found gives have_ m fits

end Parts

theorem runs_below {loop : VarDecl} {goal : Value}
    (found : Γ.findVar loop.name = some (.of (.var loop) .integer)) :
    Runs Γ Γ (below loop goal) fun _ => True := by
  apply runs_bind (runs_read found loop.span)
  intro v _
  apply runs_bind (runs_ofExcept (t := .bool) promised_compare)
  intro less has
  exact runs_test has rfl

theorem runs_advance (checked : Checked Γ) {loop : VarDecl}
    (found : Γ.findVar loop.name = some (.of (.var loop) .integer)) :
    Runs Γ Γ (advance loop) fun _ => True := by
  apply runs_bind (runs_read found loop.span)
  intro v has
  obtain ⟨n, rfl⟩ := Value.int_of_type has.1
  apply runs_bind (runs_ofExcept (t := .integer) (promised_ok rfl (Value.wellFormed_int _)))
  intro next has'
  exact runs_assign checked found has'

end Eval

namespace Expr

open Eval

section Forms

variable {fuel : Nat} {Γ : Scopes Ty} {t : Ty} {span : Option Span}

theorem sound_letIn (sound : Sound (Expr.eval fuel)) (checked : Checked Γ) {vars : List VarDecl}
    {fns : List FnDecl} {body : List Expr} (formed : (letIn vars fns body span).LiteralsFormed)
    (infers : Infers Γ (letIn vars fns body span) t) :
    Runs Γ Γ ((letIn vars fns body span).eval (fuel + 1)) (·.Has t) := by
  obtain ⟨g, h, ts, vars', fns', checks, types, rfl⟩ := infers_letIn.mp infers
  obtain ⟨varsFormed, fnsFormed, bodyFormed⟩ := formed
  obtain ⟨_, same, bare, checkedVars⟩ := checked.enter.checkVars rfl vars'
  obtain ⟨rfl, _⟩ := List.cons.inj same
  have checkedAll := checkedVars.letScope bare fns' checks fnsFormed
  apply runs_inScope (keepsOuter_let (keeps_eval fuel) vars fns body)
  apply runs_bind (runs_declareVars sound checked.enter rfl varsFormed vars')
  intro _ _
  apply runs_bind (runs_declareFns fns')
  intro _ _
  exact runs_row sound checkedAll bodyFormed types

theorem sound_matchWith (sound : Sound (Expr.eval fuel)) (checked : Checked Γ)
    {pattern value : Expr} (formed : (matchWith pattern value span).LiteralsFormed)
    (infers : Infers Γ (matchWith pattern value span) t) :
    Runs Γ Γ ((matchWith pattern value span).eval (fuel + 1)) (·.Has t) := by
  obtain ⟨rfl, legal, s, expected, got⟩ := infers_matchWith.mp infers
  apply runs_bind (sound checked formed.2 got)
  intro v has
  apply runs_bind (runs_tryMatch (matches_value checked pattern v s legal expected has))
  intro b _
  exact runs_pure ⟨rfl, trivial⟩

theorem sound_forTo (sound : Sound (Expr.eval fuel)) (checked : Checked Γ) {loop : VarDecl}
    {goal body : Expr} (formed : (forTo loop goal body span).LiteralsFormed)
    (infers : Infers Γ (forTo loop goal body span) t) :
    Runs Γ Γ ((forTo loop goal body span).eval (fuel + 1)) (·.Has t) := by
  obtain ⟨rfl, first, second, s, infers'⟩ := infers_forTo.mp infers
  obtain ⟨startFormed, goalFormed, bodyFormed⟩ := literalsFormed_forTo.mp formed
  have inside : Checked (Scope.ofVar loop .integer :: Γ) := checked.ofVar loop
  have found := findVar_ofVar loop Ty.integer Γ
  apply runs_bind (D := fun _ => True) (Δ := Γ)
  · apply runs_inScope (keepsOuter_for (keeps_eval fuel) loop goal body fuel)
    apply runs_bind (sound checked.enter startFormed first)
    intro start has
    apply runs_bind (sound checked.enter goalFormed second)
    intro bound _
    apply runs_bind (runs_declare (Δ := Scope.ofVar loop .integer :: Γ) has rfl)
    intro _ _
    apply runs_loop (runs_below found)
    exact runs_bind (sound inside bodyFormed infers') fun _ _ => runs_advance inside found
  · intro _ _
    exact runs_pure ⟨rfl, trivial⟩

end Forms

theorem sound_eval (fuel : Nat) : Sound (Expr.eval fuel) := by
  induction fuel with
  | zero => intro Γ e t _ _ _ m _; trivial
  | succ fuel ih =>
    intro Γ e t checked formed infers
    cases e with
    | literal v span =>
      obtain rfl := infers_literal.mp infers
      exact runs_pure ⟨rfl, formed⟩
    | var name span =>
      obtain ⟨b, found, rfl⟩ := infers_var.mp infers
      exact runs_read found span
    | group body span =>
      obtain ⟨ts, types, rfl⟩ := infers_group.mp infers
      exact runs_row ih checked formed types
    | letIn vars fns body span => exact sound_letIn ih checked formed infers
    | assign name value nameSpan span =>
      obtain ⟨infers', b, found, rfl⟩ := infers_assign.mp infers
      rw [LiteralsFormed] at formed
      apply runs_bind (ih checked formed infers')
      intro v has
      apply runs_bind (runs_assign checked found has)
      intro _ _
      exact runs_pure has
    | matchWith pattern value span => exact sound_matchWith ih checked formed infers
    | call name args span =>
      obtain ⟨ts, types, gives⟩ := infers_call.mp infers
      apply runs_bind (runs_all ih checked formed types)
      intro vs have_
      exact runs_call ih checked gives have_
    | ifElse cond whenTrue whenFalse span =>
      obtain ⟨⟨c, test, condition⟩, first, second⟩ := infers_ifElse.mp infers
      apply runs_bind (ih checked formed.1 test)
      intro v has
      apply runs_bind (runs_test has condition)
      intro b _
      cases b with
      | true => exact ih checked formed.2.1 first
      | false => exact ih checked formed.2.2 second
    | whileDo cond body span =>
      obtain ⟨rfl, ⟨c, test, condition⟩, s, infers'⟩ := infers_whileDo.mp infers
      apply runs_bind (D := fun _ => True) (Δ := Γ)
      · apply runs_loop
        · apply runs_bind (ih checked formed.1 test)
          intro v has
          exact runs_test has condition
        · exact runs_bind (ih checked formed.2 infers') fun _ _ => runs_pure trivial
      · intro _ _
        exact runs_pure ⟨rfl, trivial⟩
    | forTo loop goal body span => exact sound_forTo ih checked formed infers
    | binary left op right span =>
      obtain ⟨a, b, first, second, result⟩ := infers_binary.mp infers
      apply runs_bind (ih checked formed.1 first)
      rintro v ⟨rfl, _⟩
      apply runs_bind (ih checked formed.2 second)
      rintro w ⟨rfl, _⟩
      exact runs_ofExcept (BinaryOp.promised_apply result)
    | unary op operand span =>
      obtain ⟨a, first, result⟩ := infers_unary.mp infers
      rw [LiteralsFormed] at formed
      apply runs_bind (ih checked formed first)
      rintro v ⟨rfl, _⟩
      exact runs_ofExcept (UnaryOp.promised_apply result)
    | cast operand target span =>
      obtain ⟨rfl, s, source, casts⟩ := infers_cast.mp infers
      rw [LiteralsFormed] at formed
      apply runs_bind (ih checked formed source)
      rintro v ⟨rfl, vFormed⟩
      exact runs_ofFault (Value.convertsTo_of_castsTo v t vFormed casts)
    | array items element elementSpan span =>
      cases element with
      | some a =>
        obtain ⟨rfl, ts, types, same⟩ := infers_array_declared.mp infers
        apply runs_bind (runs_all ih checked formed types)
        rintro vs ⟨rfl, all⟩
        exact runs_pure ⟨rfl, List.forall_mem_map.mp same, all⟩
      | none =>
        obtain ⟨a, ts, rfl, types, same⟩ := infers_array_first.mp infers
        apply runs_bind (runs_all ih checked formed types)
        intro vs have_
        obtain ⟨v, rest, rfl, has, others⟩ := haveAll_uncons have_
        obtain ⟨rfl, vFormed⟩ := has
        obtain ⟨rfl, all⟩ := others
        have typed : ∀ w ∈ v :: rest, w.type = v.type :=
          List.forall_mem_cons.mpr ⟨rfl, List.forall_mem_map.mp same⟩
        exact runs_pure ⟨rfl, typed, vFormed, all⟩
    | tuple items span =>
      obtain ⟨ts, rfl, types⟩ := infers_tuple.mp infers
      apply runs_bind (runs_all ih checked formed types)
      rintro vs ⟨rfl, all⟩
      exact runs_pure ⟨rfl, Value.wellFormed_tupleOf all⟩

end Expr

namespace Tree

open Eval TypedLet.Expr

theorem runs_eval {tree : Tree} {t : Ty} (formed : tree.LiteralsFormed)
    (accepted : tree.check = .ok t) (fuel : Nat) : Runs [] [] (tree.eval fuel) (·.Has t) := by
  cases tree with
  | expr e => exact sound_eval fuel trivial formed (infers_iff.mpr accepted)
  | block body =>
    obtain ⟨ts, types, rfl⟩ := check_block_ok_iff.mp accepted
    exact runs_row (Γ := []) (sound_eval fuel) trivial formed types

/-- An accepted program ends, if it ends, in a well-formed value of its type or in the
    division of an integer by zero. -/
theorem type_soundness {tree : Tree} {t : Ty} (formed : tree.LiteralsFormed)
    (accepted : tree.check = .ok t) (fuel : Nat) :
    (∀ v after, tree.eval fuel (Machine.start []) = .done v after →
      v.WellFormed ∧ v.type = t) ∧
    (∀ e after, tree.eval fuel (Machine.start []) = .failed e after →
      e = .divisionByZero) := by
  have run := runs_eval formed accepted fuel (Machine.start []) ⟨rfl, nofun⟩
  constructor
  · intro v after done
    rw [done] at run
    exact ⟨run.1.2, run.1.1⟩
  · intro e after failed
    rw [failed] at run
    exact run

/-- `let var x := 6 function over(n: Integer): Integer := x / n in over(0) end` -/
def overZero : Tree :=
  let divide : FnDecl := ⟨"over", [⟨"n", .integer, none⟩], .integer,
    .binary (.var "x" none) .div (.var "n" none) none, none⟩
  .expr (.letIn [⟨"x", .literal (.int 6) none, none⟩] [divide]
    [.call "over" [.literal (.int 0) none] none] none)

theorem type_soundness_over_zero : overZero.LiteralsFormed ∧ overZero.check = .ok .integer ∧
    ∀ fuel,
      (∀ v after, overZero.eval fuel (Machine.start []) = .done v after →
        v.WellFormed ∧ v.type = .integer) ∧
      (∀ e after, overZero.eval fuel (Machine.start []) = .failed e after →
        e = .divisionByZero) := by
  have formed : overZero.LiteralsFormed :=
    ⟨⟨Value.wellFormed_int 6, trivial⟩, ⟨⟨trivial, trivial⟩, trivial⟩,
      ⟨Value.wellFormed_int 0, trivial⟩, trivial⟩
  have accepted : overZero.check = .ok .integer := rfl
  exact ⟨formed, accepted, type_soundness formed accepted⟩

end Tree
end TypedLet
