import TypedLet.Proofs.Evaluation.Akin
import TypedLet.Proofs.Reordering.Stacks
import TypedLet.Proofs.Typing.Decision

/-
Evaluation side by side, of trees whose functions are listed in another order and on stacks
that hold the same in another arrangement. The functions of a let are all declared before its
body starts, so that either all of them are there, and a name stands for the same function in
any order, or the let ends with an error; then the functions that were declared by that time
differ, but their scope is left at once. A call finds corresponding functions, whose bodies
run on corresponding parts of the stacks.
-/
namespace TypedLet

open Scopes TypedLet.Expr

theorem unused_of_perm {find : String → Option β} {find' : String → Option γ}
    {names names' : List String} (free : ∀ name, find name = none ↔ find' name = none)
    (order : names.Perm names') : Unused find names ↔ Unused find' names' := by
  unfold Unused
  rw [order.nodup_iff]
  simp only [free, order.mem_iff]

theorem Scope.SameFns.append {s t : Scope α} {fns fns' same : List FnDecl} (start : s.SameFns t)
    (each : List.Forall₂ ReorderedFn fns same) (order : same.Perm fns')
    (once : (fns.map FnDecl.name).Nodup) :
    (s.withFns fns).SameFns (t.withFns fns') := by
  intro name
  rw [Scope.findFn_withFns, Scope.findFn_withFns]
  rcases start.cases name with ⟨here, there⟩ | ⟨f, f', here, there, inner⟩
  · rw [here, there]
    exact rel_find?_of_reordered each order once name
  · rw [here, there]
    exact .some inner

namespace Eval

theorem declareFns_of_unused {fns : List FnDecl} : ∀ {m : Machine} {s : Scope Value}
    {rest : Scopes Value}, m.scopes = s :: rest → Unused s.findFn (fns.map FnDecl.name) →
      declareFns fns m = .done () { m with scopes := s.withFns fns :: rest } := by
  induction fns with
  | nil =>
    intro m s rest stack _
    rw [Scope.withFns_nil, ← stack]
    rfl
  | cons f fs ih =>
    intro m s rest stack unused
    have fresh : s.findFn f.name = none := unused.2 f.name List.mem_cons_self
    have others := ((unused_cons (Scope.findFn_declared fresh)).mp unused).2
    have first : onScopes (Action.update (Scopes.declareFn f)) m =
        .done () { m with scopes := s.withFns [f] :: rest } := by
      unfold onScopes Action.update
      rw [stack, Scopes.declareFn, fresh]
    rw [declareFns, bind_of_done first, ih rfl others, Scope.withFns_withFns]
    rfl

theorem declareFns_of_used {fns : List FnDecl} : ∀ {m : Machine} {s : Scope Value}
    {rest : Scopes Value}, m.scopes = s :: rest → ¬ Unused s.findFn (fns.map FnDecl.name) →
      ∃ e t, e.IsRepeat ∧ declareFns fns m = .failed e { m with scopes := t :: rest } := by
  induction fns with
  | nil => exact fun _ used => absurd ⟨List.nodup_nil, nofun⟩ used
  | cons f fs ih =>
    intro m s rest stack used
    cases taken : s.findFn f.name with
    | some first =>
      have failed : onScopes (Action.update (Scopes.declareFn f)) m =
          .failed (.typing (.alreadyDeclared f.name (.fn first)) f.span)
            { m with scopes := s :: rest } := by
        unfold onScopes Action.update
        rw [stack, Scopes.declareFn, taken]
      exact ⟨_, s, .intro, bind_of_failed failed⟩
    | none =>
      have others : ¬ Unused (s.withFns [f]).findFn (fs.map FnDecl.name) :=
        fun later => used ((unused_cons (Scope.findFn_declared taken)).mpr ⟨taken, later⟩)
      have first : onScopes (Action.update (Scopes.declareFn f)) m =
          .done () { m with scopes := s.withFns [f] :: rest } := by
        unfold onScopes Action.update
        rw [stack, Scopes.declareFn, taken]
      obtain ⟨e, t, repeated, run⟩ :=
        ih (m := { m with scopes := s.withFns [f] :: rest }) rfl others
      exact ⟨e, t, repeated, (bind_of_done first).trans run⟩

theorem declare_of_taken {m : Machine} {decl : Declaration} {v : Value} {s : Scope Value}
    {rest : Scopes Value} {b : Binding Value} (stack : m.scopes = s :: rest)
    (taken : s.findVar decl.name = some b) :
    declare decl v m = .failed (.typing (.alreadyDeclared decl.name b.decl) decl.span) m := by
  unfold declare onScopes Action.update
  rw [stack, Scopes.declareVar, taken]
  dsimp only
  rw [← stack]

variable {P : String → Prop} {split : Bool} {splits : List Bool}

/-- The scopes under the innermost one correspond; that one itself may be anything, and so may
    be the two that stand for it when it is split. -/
def Within (P : String → Prop) (split : Bool) (splits : List Bool) (m m' : Machine) : Prop :=
  ∃ s t lower rest rest', m.scopes = s :: rest ∧ m'.scopes = t :: (lower ++ rest') ∧
    lower.length = split.toNat ∧ Spread P splits rest rest' ∧ m.output = m'.output

theorem within_of_paired {m m' : Machine} (related : Paired (Spread P (split :: splits)) m m') :
    Within P split splits m m' := by
  obtain ⟨spread, output⟩ := related
  obtain ⟨s, t, lower, rest, rest', stack, stack', first, below⟩ := spread.uncons
  have count : lower.length = split.toNat := by
    cases first with
    | whole => rfl
    | split => rfl
  exact ⟨s, t, lower, rest, rest', stack, stack', count, below, output⟩

theorem akin_inScope {x x' : Eval α} {m m' : Machine}
    (run : (x { m with scopes := Scope.empty :: m.scopes }).Akin (Within P false splits)
      (x' { m' with scopes := Scope.empty :: m'.scopes })) :
    (inScope x m).Akin (Paired (Spread P splits)) (inScope x' m') := by
  unfold inScope
  apply akin_closing run
  rintro after after' ⟨s, t, lower, rest, rest', stack, stack', count, below, output⟩
  obtain rfl := List.length_eq_zero_iff.mp count
  rw [stack, stack']
  exact ⟨_, _, rfl, rfl, below, output⟩

theorem akin_inFrame {x x' : Eval α} {m m' : Machine} {above seen : List Bool}
    {inner inner' outer outer' : Scopes Value} (upper : Spread P above inner inner')
    (lower : Spread P seen outer outer') (stack : m.scopes = inner ++ outer)
    (stack' : m'.scopes = inner' ++ outer') (output : m.output = m'.output)
    (pos : 0 < outer.length) (pos' : 0 < outer'.length)
    (run : Akin (Paired (Spread P (false :: seen))) x x') :
    (inFrame outer.length x m).Akin (Paired (Spread P (above ++ seen)))
      (inFrame outer'.length x' m') := by
  unfold inFrame
  rw [stack, stack', checkFrame_of_le pos (by rw [List.length_append]; omega),
    checkFrame_of_le pos' (by rw [List.length_append]; omega)]
  dsimp only
  rw [innermost_append_length, innermost_append_length, outermost_append_length,
    outermost_append_length]
  apply akin_closing (run { m with scopes := _ } { m' with scopes := _ } ⟨lower.enter, output⟩)
  rintro after after' ⟨spread, output'⟩
  refine ⟨_, _, rfl, rfl, ?_, output'⟩
  obtain ⟨s, t, under, rest, rest', scopes, scopes', first, below⟩ := spread.uncons
  cases first with
  | whole =>
    -- The lengths show that below the scope of the call there is what the frame began with.
    have count := below.length.1.trans lower.length.1.symm
    have count' := below.length.2.trans lower.length.2.symm
    rw [scopes, scopes', List.nil_append, ← count, ← count', outermost_of_le _ _ _ (Nat.le_refl _),
      outermost_of_le _ _ _ (Nat.le_refl _), outermost_all, outermost_all]
    exact upper.append below

theorem akin_declare {decl decl' : Declaration} (named : decl.name = decl'.name)
    (shown : split = true → ¬ P decl.name) (v : Value) :
    Akin (Paired (Spread P (split :: splits))) (declare decl v) (declare decl' v) := by
  rintro m m' ⟨spread, output⟩
  obtain ⟨s, t, lower, rest, rest', stack, stack', first, below⟩ := spread.uncons
  have both := first.findVar_top shown
  cases here : s.findVar decl.name with
  | none =>
    rw [declare_of_free stack here, declare_of_free stack' (named ▸ both.mp here)]
    exact ⟨rfl, .cons (first.declareVar v named shown) below, output⟩
  | some b =>
    cases there : t.findVar decl'.name with
    | none => rw [both.mpr (named ▸ there)] at here; cases here
    | some b' =>
      rw [declare_of_taken stack here, declare_of_taken stack' there]
      exact ⟨.inr ⟨.intro, .intro⟩, spread, output⟩

theorem agree_read_of_spread (name : String) (span : Option Span) :
    Agree (Paired (Spread P splits)) (read name span) (read name span) := by
  apply agree_read_of_info
  intro scopes scopes' spread
  have held := congrArg (Option.map Prod.snd) (spread.findVar name)
  rwa [Option.map_map, Option.map_map] at held

theorem agree_assign_of_spread (name : String) (v : Value) :
    Agree (Paired (Spread P splits)) (assign name v) (assign name v) :=
  agree_assign_of_assign? fun spread => spread.assign? name v

end Eval

namespace Expr

mutual
theorem matches_of_spread : ∀ (p p' : Expr) (v : Value), Reordered p p' →
    Action.Agree id (Spread P splits) (p.matchValue v) (p'.matchValue v)
  | var name span, _, v, .var => by
    intro scopes scopes' spread
    rw [matchValue_var, matchValue_var]
    rcases spread.assign? name v with ⟨run, run'⟩ | ⟨after, after', run, run', related⟩
    · rw [run, run']
      exact ⟨rfl, spread⟩
    · rw [run, run']
      exact ⟨rfl, related⟩
  | literal w span, _, v, .literal => Action.agree_pure _
  | array parts _ _ span, _, v, .array each => by
    cases v with
    | array element items =>
      rw [matchValue, matchValue, each.length_eq]
      split
      · exact allMatch_of_spread parts _ items each
      · exact Action.agree_pure false
    | _ => exact Action.agree_fail _
  | tuple parts span, _, v, .tuple each => by
    cases v with
    | tuple types items =>
      rw [matchValue, matchValue, each.length_eq]
      split
      · exact allMatch_of_spread parts _ items each
      · exact Action.agree_pure false
    | _ => exact Action.agree_fail _
  | group .., _, _, .group _ | letIn .., _, _, .letIn .. | assign .., _, _, .assign _
  | matchWith .., _, _, .matchWith .. | call .., _, _, .call _ | ifElse .., _, _, .ifElse ..
  | whileDo .., _, _, .whileDo .. | forTo .., _, _, .forTo .. | binary .., _, _, .binary ..
  | unary .., _, _, .unary _ | cast .., _, _, .cast _ => Action.agree_fail _
theorem allMatch_of_spread : ∀ (ps ps' : List Expr) (vs : List Value),
    List.Forall₂ Reordered ps ps' →
      Action.Agree id (Spread P splits) (matchItems ps vs) (matchItems ps' vs)
  | [], _, vs, .nil => by cases vs <;> exact Action.agree_pure true
  | p :: ps, _, [], .cons _ _ => Action.agree_pure true
  | p :: ps, _, v :: vs, .cons first others => by
    rw [matchItems, matchItems]
    apply Action.agree_bind (matches_of_spread p _ v first)
    intro b
    cases b with
    | true => exact allMatch_of_spread ps _ vs others
    | false => exact Action.agree_pure false
end

end Expr

namespace Eval

variable {P : String → Prop} {split : Bool} {splits : List Bool}

theorem akin_declareArgs (args : List ArgDecl) : ∀ vs : List Value,
    Akin (Paired (Spread P (false :: splits))) (declareArgs args vs) (declareArgs args vs) := by
  induction args with
  | nil => intro vs; exact akin_pure ()
  | cons a as ih =>
    intro vs
    cases vs with
    | nil => exact akin_pure ()
    | cons v vs => exact akin_bind (akin_declare rfl nofun v) fun _ => ih vs

section Parts

variable {eval : Expr → Eval Value}

def RunsAkin (P : String → Prop) (eval : Expr → Eval Value) : Prop :=
  ∀ {splits : List Bool} {e e' : Expr}, Reordered e e' →
    Akin (Paired (Spread P splits)) (eval e) (eval e')

variable (parts : RunsAkin P eval)
include parts

theorem akin_all {es es' : List Expr} (each : List.Forall₂ Reordered es es') :
    Akin (Paired (Spread P splits)) (all eval es) (all eval es') := by
  induction each with
  | nil => exact akin_pure []
  | cons first _ ih =>
    apply akin_bind (parts first)
    intro v
    exact akin_bind ih fun _ => akin_pure _

theorem akin_row {es es' : List Expr} (each : List.Forall₂ Reordered es es') :
    Akin (Paired (Spread P splits)) (row eval es) (row eval es') :=
  akin_bind (akin_all parts each) fun _ => akin_pure _

theorem akin_declareVars {vars vars' : List VarDecl} (each : List.Forall₂ ReorderedVar vars vars')
    (shown : split = true → ∀ d ∈ vars, ¬ P d.name) :
    Akin (Paired (Spread P (split :: splits))) (declareVars eval vars)
      (declareVars eval vars') := by
  induction each with
  | nil => exact akin_pure ()
  | cons first _ ih =>
    apply akin_bind (parts first.value)
    intro v
    have named : (Declaration.var _).name = (Declaration.var _).name := first.name_eq
    apply akin_bind (akin_declare named (fun cut => shown cut _ List.mem_cons_self) v)
    intro _
    exact ih fun cut d member => shown cut d (List.mem_cons_of_mem _ member)

theorem akin_letBody {vars vars' : List VarDecl} {fns fns' same : List FnDecl}
    {body body' : List Expr} (values : List.Forall₂ ReorderedVar vars vars')
    (each : List.Forall₂ ReorderedFn fns same) (order : same.Perm fns')
    (last : List.Forall₂ Reordered body body') (shown : split = true → ∀ d ∈ vars, ¬ P d.name)
    {m m' : Machine} (related : Paired (Spread P (split :: splits)) m m') :
    ((declareVars eval vars >>= fun _ => declareFns fns >>= fun _ => row eval body) m).Akin
      (Within P split splits)
      ((declareVars eval vars' >>= fun _ => declareFns fns' >>= fun _ => row eval body') m') := by
  apply akin_bind_at (akin_declareVars parts values shown m m' related)
    (fun _ _ => within_of_paired)
  rintro _ after after' _ _ ⟨spread, output⟩
  obtain ⟨s, t, lower, rest, rest', stack, stack', first, below⟩ := spread.uncons
  have names : (fns.map FnDecl.name).Perm (fns'.map FnDecl.name) := by
    rw [names_eq_of_fnsReordered each]
    exact order.map _
  have free : ∀ name, s.findFn name = none ↔ t.findFn name = none := by
    intro name
    rcases first.sameFns.cases name with ⟨here, there⟩ | ⟨f, f', here, there, _⟩
    · simp [here, there]
    · simp [here, there]
  -- Either all functions are declared on both sides, or both runs break off at one of them.
  by_cases unused : Unused s.findFn (fns.map FnDecl.name)
  · rw [bind_of_done (declareFns_of_unused stack unused),
      bind_of_done (declareFns_of_unused stack' ((unused_of_perm free names).mp unused))]
    have declared := first.withFns (first.sameFns.append each order unused.1)
    have run := akin_row parts last { after with scopes := _ } { after' with scopes := _ }
      ⟨.cons declared below, output⟩
    exact run.mono fun _ _ => within_of_paired
  · obtain ⟨e, s', repeated, run⟩ := declareFns_of_used stack unused
    obtain ⟨e', t', repeated', run'⟩ :=
      declareFns_of_used stack' (mt (unused_of_perm free names).mpr unused)
    rw [bind_of_failed run, bind_of_failed run']
    have count : lower.length = split.toNat := by cases first <;> rfl
    exact ⟨.inr ⟨repeated, repeated'⟩, s', t', lower, rest, rest', rfl, rfl, count, below, output⟩

theorem akin_callFn {f f' : FnDecl} (same : ReorderedFn f f') (args : List Value) {m m' : Machine}
    {above seen : List Bool} {inner inner' outer outer' : Scopes Value}
    (upper : Spread P above inner inner') (lower : Spread P seen outer outer')
    (stack : m.scopes = inner ++ outer) (stack' : m'.scopes = inner' ++ outer')
    (output : m.output = m'.output) (pos : 0 < outer.length) (pos' : 0 < outer'.length) :
    (callFn eval f args outer.length m).Akin (Paired (Spread P (above ++ seen)))
      (callFn eval f' args outer'.length m') := by
  obtain ⟨body⟩ := same
  unfold callFn
  split
  · apply akin_inFrame upper lower stack stack' output pos pos'
    exact akin_bind (akin_declareArgs _ args) fun _ => parts body
  · refine akin_fail _ _ m m' ⟨?_, output⟩
    rw [stack, stack']
    exact upper.append lower

theorem akin_call (name : String) (args : List Value) :
    Akin (Paired (Spread P splits)) (call eval name args) (call eval name args) := by
  rintro ⟨scopes, output, given⟩ ⟨scopes', output', given'⟩ ⟨spread, printed⟩
  have found := spread.resolveFn name
  unfold call
  dsimp only at spread found ⊢
  cases here : resolveFn name scopes with
  | none =>
    cases there : resolveFn name scopes' with
    | none => exact (agree_callBuiltin name args _ _ ⟨spread, printed⟩).akin
    | some r' => rw [here, there] at found; cases found
  | some r =>
    cases there : resolveFn name scopes' with
    | none => rw [here, there] at found; cases found
    | some r' =>
      rw [here, there] at found
      cases found with
      | some alike =>
        cases alike with
        | intro upper lower same =>
          exact akin_callFn parts same args upper lower rfl rfl printed
            (depth_of_resolveFn here).1 (depth_of_resolveFn there).1

end Parts

theorem akin_tryMatch {p p' : Expr} (same : Reordered p p') (v : Value) :
    Akin (Paired (Spread P splits)) (tryMatch p v) (tryMatch p' v) :=
  (agree_tryMatch_of_matchValue (matches_of_spread p p' v same)).akin

theorem akin_below {loop loop' : VarDecl} (same : ReorderedVar loop loop') (goal : Value) :
    Akin (Paired (Spread P splits)) (below loop goal) (below loop' goal) := by
  obtain ⟨_⟩ := same
  exact (agree_below_of_read (agree_read_of_spread _) goal).akin

theorem akin_advance {loop loop' : VarDecl} (same : ReorderedVar loop loop') :
    Akin (Paired (Spread P splits)) (advance loop) (advance loop') := by
  obtain ⟨_⟩ := same
  exact (agree_advance_of_read (agree_read_of_spread _) (agree_assign_of_spread _)).akin

end Eval

namespace Expr

open Eval

/-- On corresponding stacks reordered expressions end akin, and leave corresponding stacks. -/
theorem akin_eval (P : String → Prop) (fuel : Nat) : RunsAkin P (Expr.eval fuel) := by
  induction fuel with
  | zero => intro splits e e' _ m m' _; trivial
  | succ fuel ih =>
    intro splits e e' same
    cases same with
    | literal => exact akin_pure _
    | var => exact (agree_read_of_spread _ _).akin
    | group row => exact akin_row ih row
    | letIn values each order row =>
      intro m m' related
      apply akin_inScope
      have entered : Paired (Spread P (false :: splits))
          { m with scopes := Scope.empty :: m.scopes }
          { m' with scopes := Scope.empty :: m'.scopes } := ⟨related.1.enter, related.2⟩
      exact akin_letBody ih values each order row (by nofun) entered
    | assign new =>
      apply akin_bind (ih new)
      intro v
      exact akin_bind (agree_assign_of_spread _ v).akin fun _ => akin_pure v
    | matchWith shape candidate =>
      apply akin_bind (ih candidate)
      intro v
      exact akin_bind (akin_tryMatch shape v) fun _ => akin_pure _
    | call given => exact akin_bind (akin_all ih given) fun vs => akin_call ih _ vs
    | ifElse test first second =>
      apply akin_bind (ih test)
      intro v
      apply akin_bind (akin_ofFault _)
      intro b
      cases b with
      | true => exact ih first
      | false => exact ih second
    | whileDo test round =>
      apply akin_bind _ fun _ => akin_pure _
      apply akin_loop
      · exact akin_bind (ih test) fun v => akin_ofFault _
      · exact akin_bind (ih round) fun _ => akin_pure _
    | forTo start bound round =>
      apply akin_bind _ fun _ => akin_pure _
      intro m m' related
      apply akin_inScope
      apply Outcome.Akin.mono _ fun _ _ => within_of_paired
      refine akin_bind (ih start.value) (fun v => ?_) _ _ ⟨related.1.enter, related.2⟩
      apply akin_bind (ih bound)
      intro goal
      have named : (Declaration.var _).name = (Declaration.var _).name := start.name_eq
      apply akin_bind (akin_declare named nofun v)
      intro _
      apply akin_loop (akin_below start goal)
      exact akin_bind (ih round) fun _ => akin_advance start
    | binary first second =>
      apply akin_bind (ih first)
      intro v
      exact akin_bind (ih second) fun w => akin_ofExcept _
    | unary inner => exact akin_bind (ih inner) fun v => akin_ofExcept _
    | cast inner => exact akin_bind (ih inner) fun v => akin_ofFault _
    | @array _ _ element _ _ each =>
      apply akin_bind (akin_all ih each)
      intro vs
      cases element with
      | some t => exact akin_pure _
      | none =>
        cases vs with
        | nil => exact akin_fail _ _
        | cons v vs => exact akin_pure _
    | tuple each => exact akin_bind (akin_all ih each) fun _ => akin_pure _

end Expr

theorem Eval.akin_sameStack {x x' : Eval α} {m : Machine}
    (run : (x m).Akin (Paired (Spread P (m.scopes.map fun _ => false))) (x' m)) (keeps : Keeps x)
    (keeps' : Keeps x') : (x m).Akin SameStack (x' m) := by
  apply (run.along (keeps m) (keeps' m)).mono
  rintro after after' ⟨⟨spread, output⟩, look, look'⟩
  have whole : true ∉ m.scopes.map fun _ => false := by simp
  exact ⟨spread.eq_of_outline whole (look.trans look'.symm), output⟩

end TypedLet
