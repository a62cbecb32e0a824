import TypedLet.Proofs.Environment.Contents
import TypedLet.Proofs.Scoping.Evaluation

/-
A run depends on the contents of the scopes only, not on what the declarations in them say
otherwise. Two stacks with the same contents give the same result or the same error, the
same output and again the same contents. An error does name a first declaration when
something is declared twice; but what runs declares only in scopes that it has entered
itself, and these are the same on both sides in every respect.
-/
namespace TypedLet

open Scopes

abbrev Scopes.HoldSame (scopes scopes' : Scopes Value) : Prop :=
  contents scopes = contents scopes'

def SameContents (m m' : Machine) : Prop :=
  contents m.scopes = contents m'.scopes ∧ m.output = m'.output

def SameTop (m m' : Machine) : Prop :=
  ∃ s rest rest', m.scopes = s :: rest ∧ m'.scopes = s :: rest' ∧
    contents rest = contents rest' ∧ m.output = m'.output

namespace SameTop

variable {m m' : Machine}

theorem enter {scopes scopes' : Scopes Value} (same : contents scopes = contents scopes')
    (output : m.output = m'.output) :
    SameTop { m with scopes := Scope.empty :: scopes }
      { m' with scopes := Scope.empty :: scopes' } :=
  ⟨Scope.empty, scopes, scopes', rfl, rfl, same, output⟩

theorem sameContents (same : SameTop m m') : SameContents m m' := by
  obtain ⟨s, rest, rest', stack, stack', below, output⟩ := same
  exact ⟨by rw [stack, stack', contents_cons, contents_cons, below], output⟩

theorem of_outline {after after' : Machine} (same : SameTop m m')
    (held : SameContents after after') (look : outline after.scopes = outline m.scopes)
    (look' : outline after'.scopes = outline m'.scopes) : SameTop after after' := by
  obtain ⟨s, rest, rest', stack, stack', below, _⟩ := same
  obtain ⟨held, output⟩ := held
  rw [stack] at look
  rw [stack'] at look'
  cases scopes : after.scopes with
  | nil => rw [scopes] at look; cases look
  | cons t others =>
    rw [scopes] at look held
    obtain ⟨t', others', scopes', first, outside⟩ := uncons_of_contents held
    rw [scopes'] at look'
    obtain ⟨top, _⟩ := List.cons.inj look
    obtain ⟨top', _⟩ := List.cons.inj look'
    obtain rfl := Scope.eq_of_contents first (top.trans top'.symm)
    exact ⟨t, others, others', scopes, scopes', outside, output⟩

end SameTop

namespace Eval

abbrev OfContents (x : Eval α) : Prop := Agree SameContents x x

abbrev OfTop (x : Eval α) : Prop := Agree SameTop x x

theorem ofTop_of_keeps {x : Eval α} (run : OfContents x) (keeps : Keeps x) : OfTop x := by
  intro m m' same
  have alike := (run m m' same.sameContents).along (keeps m)
  apply (alike.swap.along (keeps m')).swap.mono
  rintro after after' ⟨⟨held, look⟩, look'⟩
  exact same.of_outline held look look'

theorem ofContents_read (name : String) (span : Option Span) : OfContents (read name span) := by
  apply agree_read_of_info (S := HoldSame)
  intro scopes scopes' same
  rcases Scopes.findVar_of_contents name same with ⟨here, there⟩ | ⟨b, b', here, there, held⟩
  · rw [here, there]
  · rw [here, there]
    exact congrArg some held

theorem ofContents_assign (name : String) (v : Value) : OfContents (assign name v) :=
  agree_assign_of_assign? (S := HoldSame) (assign?_of_contents name v)

theorem ofTop_update {f : Scopes Value → Except Error (Scopes Value)}
    (same : ∀ s : Scope Value, (∃ e, ∀ rest, f (s :: rest) = .error e) ∨
      ∃ s', ∀ rest, f (s :: rest) = .ok (s' :: rest)) :
    OfTop (onScopes (Action.update f)) := by
  rintro m m' ⟨s, rest, rest', stack, stack', below, output⟩
  unfold onScopes Action.update
  rw [stack, stack']
  rcases same s with ⟨e, run⟩ | ⟨s', run⟩
  · rw [run, run]
    exact ⟨rfl, s, rest, rest', rfl, rfl, below, output⟩
  · rw [run, run]
    exact ⟨rfl, s', rest, rest', rfl, rfl, below, output⟩

theorem ofTop_declare (decl : Declaration) (v : Value) : OfTop (declare decl v) := by
  apply ofTop_update
  intro s
  cases found : s.findVar decl.name with
  | some b => exact .inl ⟨_, fun rest => by rw [declareVar, found]⟩
  | none => exact .inr ⟨_, fun rest => by rw [declareVar, found]⟩

theorem ofTop_declareFns (fns : List FnDecl) : OfTop (declareFns fns) := by
  induction fns with
  | nil => exact agree_pure ()
  | cons f fs ih =>
    apply agree_bind _ fun _ => ih
    apply ofTop_update
    intro s
    cases found : s.findFn f.name with
    | some first => exact .inl ⟨_, fun rest => by rw [declareFn, found]⟩
    | none => exact .inr ⟨_, fun rest => by rw [declareFn, found]⟩

theorem ofTop_declareArgs (args : List ArgDecl) : ∀ vs : List Value,
    OfTop (declareArgs args vs) := by
  induction args with
  | nil => intro vs; exact agree_pure ()
  | cons a as ih =>
    intro vs
    cases vs with
    | nil => exact agree_pure ()
    | cons v vs => exact agree_bind (ofTop_declare _ v) fun _ => ih vs

theorem ofContents_inScope {x : Eval α} (run : OfTop x) : OfContents (inScope x) := by
  rintro m m' ⟨scopes, output⟩
  unfold inScope
  apply alike_closing (run _ _ (.enter scopes output))
  rintro after after' ⟨s, rest, rest', stack, stack', below, output'⟩
  rw [stack, stack']
  exact ⟨_, _, rfl, rfl, below, output'⟩

theorem ofContents_inFrame {x : Eval α} (depth : Int) (run : OfTop x) :
    OfContents (inFrame depth x) := by
  rintro m m' ⟨scopes, output⟩
  have admitted : m'.scopes.checkFrame depth = m.scopes.checkFrame depth := by
    rw [checkFrame, checkFrame, length_of_contents scopes]
  unfold inFrame
  rw [admitted]
  cases m.scopes.checkFrame depth with
  | error e => exact ⟨rfl, scopes, output⟩
  | ok d =>
    dsimp only
    apply alike_closing (run _ _ (.enter (outermost_of_contents scopes d) output))
    rintro after after' same
    obtain ⟨held, output'⟩ := same.sameContents
    refine ⟨_, _, rfl, rfl, ?_, output'⟩
    rw [contents_append, contents_append, innermost_of_contents scopes d,
      outermost_of_contents held d]

end Eval

namespace Expr

abbrev MatchOfContents (x : Action Value Bool) : Prop :=
  Action.Agree id HoldSame x x

mutual
theorem matchOfContents_matchValue : ∀ (p : Expr) (v : Value), MatchOfContents (p.matchValue v)
  | var name span, v => by
    intro scopes scopes' same
    rw [matchValue_var, matchValue_var]
    rcases assign?_of_contents name v same with
      ⟨run, run'⟩ | ⟨after, after', run, run', related⟩
    · rw [run, run']
      exact ⟨rfl, same⟩
    · rw [run, run']
      exact ⟨rfl, related⟩
  | literal w span, v => Action.agree_pure _
  | array parts _ _ span, v => by
    cases v with
    | array element items =>
      rw [matchValue]
      split
      · exact matchOfContents_matchItems parts items
      · exact Action.agree_pure false
    | _ => exact Action.agree_fail _
  | tuple parts span, v => by
    cases v with
    | tuple types items =>
      rw [matchValue]
      split
      · exact matchOfContents_matchItems parts items
      · exact Action.agree_pure false
    | _ => exact Action.agree_fail _
  | group .., _ | letIn .., _ | assign .., _ | matchWith .., _ | call .., _ | ifElse .., _
  | whileDo .., _ | forTo .., _ | binary .., _ | unary .., _ | cast .., _ => Action.agree_fail _
theorem matchOfContents_matchItems : ∀ (ps : List Expr) (vs : List Value),
    MatchOfContents (matchItems ps vs)
  | [], vs => by cases vs <;> exact Action.agree_pure true
  | p :: ps, [] => Action.agree_pure true
  | p :: ps, v :: vs => by
    rw [matchItems]
    apply Action.agree_bind (matchOfContents_matchValue p v)
    intro b
    cases b with
    | true => exact matchOfContents_matchItems ps vs
    | false => exact Action.agree_pure false
end

end Expr

namespace Eval

theorem ofContents_tryMatch (p : Expr) (v : Value) : OfContents (tryMatch p v) :=
  agree_tryMatch_of_matchValue (S := HoldSame) (Expr.matchOfContents_matchValue p v)

section Parts

variable {eval : Expr → Eval Value} (parts : ∀ e, OfContents (eval e)) (keeps : ∀ e, Keeps (eval e))

include parts in
theorem ofContents_all (es : List Expr) : OfContents (all eval es) := by
  induction es with
  | nil => exact agree_pure []
  | cons e es ih =>
    apply agree_bind (parts e)
    intro v
    exact agree_bind ih fun _ => agree_pure _

include parts in
theorem ofContents_row (es : List Expr) : OfContents (row eval es) :=
  agree_bind (ofContents_all parts es) fun _ => agree_pure _

include parts keeps in
theorem ofTop_declareVars (vars : List VarDecl) : OfTop (declareVars eval vars) := by
  induction vars with
  | nil => exact agree_pure ()
  | cons d ds ih =>
    apply agree_bind (ofTop_of_keeps (parts d.value) (keeps d.value))
    intro v
    exact agree_bind (ofTop_declare _ v) fun _ => ih

include parts keeps in
theorem ofContents_callFn (f : FnDecl) (args : List Value) (depth : Int) :
    OfContents (callFn eval f args depth) := by
  unfold callFn
  split
  · apply ofContents_inFrame
    apply agree_bind (ofTop_declareArgs f.args args)
    intro _
    exact ofTop_of_keeps (parts f.body) (keeps f.body)
  · exact agree_fail _ _

include parts keeps in
theorem ofContents_call (name : String) (args : List Value) :
    OfContents (call eval name args) := by
  intro m m' same
  unfold call
  rw [← resolveFn_of_contents name same.1]
  cases resolveFn name m.scopes with
  | none => exact agree_callBuiltin (S := HoldSame) name args m m' same
  | some found => exact ofContents_callFn parts keeps found.1 args found.2 m m' same

end Parts

theorem ofContents_below (loop : VarDecl) (goal : Value) : OfContents (below loop goal) :=
  agree_below_of_read (ofContents_read _) goal

theorem ofContents_advance (loop : VarDecl) : OfContents (advance loop) :=
  agree_advance_of_read (ofContents_read _) (ofContents_assign _)

end Eval

namespace Expr

open Eval

theorem ofContents_eval (fuel : Nat) : ∀ e : Expr, OfContents (e.eval fuel) := by
  induction fuel with
  | zero => intro e m m' _; trivial
  | succ fuel ih =>
    have keeps := keeps_eval fuel
    intro e
    cases e with
    | literal v span => exact agree_pure v
    | var name span => exact ofContents_read name span
    | group body span => exact ofContents_row ih body
    | letIn vars fns body span =>
      apply ofContents_inScope
      apply agree_bind (ofTop_declareVars ih keeps vars)
      intro _
      apply agree_bind (ofTop_declareFns fns)
      intro _
      exact ofTop_of_keeps (ofContents_row ih body) (keeps_row keeps body)
    | assign name value nameSpan span =>
      apply agree_bind (ih value)
      intro v
      exact agree_bind (ofContents_assign name v) fun _ => agree_pure v
    | matchWith pattern value span =>
      apply agree_bind (ih value)
      intro v
      exact agree_bind (ofContents_tryMatch pattern v) fun _ => agree_pure _
    | call name args span =>
      exact agree_bind (ofContents_all ih args) fun vs => ofContents_call ih keeps name vs
    | ifElse cond whenTrue whenFalse span =>
      apply agree_bind (ih cond)
      intro v
      apply agree_bind (agree_ofFault _)
      intro b
      cases b with
      | true => exact ih whenTrue
      | false => exact ih whenFalse
    | whileDo cond body span =>
      apply agree_bind _ fun _ => agree_pure _
      apply agree_loop
      · exact agree_bind (ih cond) fun v => agree_ofFault _
      · exact agree_bind (ih body) fun _ => agree_pure _
    | forTo loop goal body span =>
      apply agree_bind _ fun _ => agree_pure _
      apply ofContents_inScope
      apply agree_bind (ofTop_of_keeps (ih loop.value) (keeps loop.value))
      intro start
      apply agree_bind (ofTop_of_keeps (ih goal) (keeps goal))
      intro bound
      apply agree_bind (ofTop_declare _ start)
      intro _
      apply ofTop_of_keeps
      · apply agree_loop (ofContents_below loop bound)
        exact agree_bind (ih body) fun _ => ofContents_advance loop
      · apply keeps_loop (keeps_below loop bound)
        exact keeps_bind (keeps body) fun _ => keeps_advance loop
    | binary left op right span =>
      apply agree_bind (ih left)
      intro v
      exact agree_bind (ih right) fun w => agree_ofExcept _
    | unary op operand span => exact agree_bind (ih operand) fun v => agree_ofExcept _
    | cast operand target span => exact agree_bind (ih operand) fun v => agree_ofFault _
    | array items element elementSpan span =>
      apply agree_bind (ofContents_all ih items)
      intro vs
      cases element with
      | some t => exact agree_pure _
      | none =>
        cases vs with
        | nil => exact agree_fail _ _
        | cons v vs => exact agree_pure _
    | tuple items span => exact agree_bind (ofContents_all ih items) fun _ => agree_pure _

end Expr
end TypedLet
