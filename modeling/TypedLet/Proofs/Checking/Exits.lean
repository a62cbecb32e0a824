import TypedLet.Checking.Diagnose
import TypedLet.Proofs.Checking.Patterns

/-
The ways a check can end. On whatever scopes, a check gives a type, or it is refused with a
type error or with a part that may not stand in a pattern; and the scopes are left as they
were in each case. Every declaration is made in a scope that was entered for it, so the
faults of an environment used out of order never arise. A forbidden part need not be what
the check is refused for: another error may come first.
-/
namespace TypedLet

/-- What a check of matches with the given patterns can be refused with. -/
inductive Error.OfCheck (ps : List Expr) : Error → Prop
  | typing {cause : TypeError} {span : Option Span} : OfCheck ps (.typing cause span)
  | forbidden {p part : Expr} (matched : p ∈ ps) (inside : part ∈ p.patternParts)
      (not : part.mayStand = false) : OfCheck ps part.forbiddenError

namespace Action

variable {Q : Error → Prop}

def Fails (Q : Error → Prop) (x : Action ι α) : Prop :=
  ∀ scopes e, (x scopes).1 = .error e → Q e

def FailsWithin (Q : Error → Prop) (x : Action ι α) : Prop :=
  ∀ s outer e, (x (s :: outer)).1 = .error e → Q e

theorem failsWithin_of_fails {x : Action ι α} (h : Fails Q x) : FailsWithin Q x :=
  fun s outer => h (s :: outer)

theorem fails_pure (a : α) : Fails Q (Pure.pure a : Action ι α) := by
  intro scopes e failed
  cases failed

theorem fails_fail {e : Error} (h : Q e) : Fails Q (fail e : Action ι α) := by
  intro scopes e' failed
  cases failed
  exact h

theorem fails_inspect {f : Scopes ι → Except Error α}
    (h : ∀ scopes e, f scopes = .error e → Q e) : Fails Q (inspect f) := h

theorem fails_bind {x : Action ι α} {f : α → Action ι β} (hx : Fails Q x)
    (hf : ∀ a, Fails Q (f a)) : Fails Q (x >>= f) := by
  intro scopes e failed
  cases first : x scopes with
  | mk result middle =>
    cases result with
    | ok a =>
      rw [bind_of_ok first] at failed
      exact hf a middle e failed
    | error e' =>
      rw [bind_of_error first] at failed
      cases failed
      exact hx scopes e (congrArg Prod.fst first)

theorem failsWithin_bind {x : Action ι α} {f : α → Action ι β} (outer : LeavesOuter x)
    (hx : FailsWithin Q x) (hf : ∀ a, FailsWithin Q (f a)) : FailsWithin Q (x >>= f) := by
  intro s rest e failed
  obtain ⟨t, same⟩ := outer s rest
  cases first : x (s :: rest) with
  | mk result middle =>
    cases result with
    | ok a =>
      rw [bind_of_ok first] at failed
      rw [first] at same
      subst same
      exact hf a t rest e failed
    | error e' =>
      rw [bind_of_error first] at failed
      cases failed
      exact hx s rest e (congrArg Prod.fst first)

theorem fails_inScope {x : Action ι α} (outer : LeavesOuter x) (h : FailsWithin Q x) :
    Fails Q (inScope x) := by
  intro scopes e failed
  obtain ⟨t, same⟩ := outer Scope.empty scopes
  unfold inScope at failed
  cases run : x (Scope.empty :: scopes) with
  | mk result last =>
    rw [run] at same
    subst same
    rw [run] at failed
    cases failed
    exact h Scope.empty scopes e (congrArg Prod.fst run)

theorem failsWithin_update {f : Scopes ι → Except Error (Scopes ι)}
    (h : ∀ s outer e, f (s :: outer) = .error e → Q e) : FailsWithin Q (update f) := by
  intro s outer e failed
  unfold update at failed
  cases run : f (s :: outer) with
  | ok after =>
    rw [run] at failed
    cases failed
  | error e' =>
    rw [run] at failed
    cases failed
    exact h s outer e run

end Action

namespace Expr

open TypedLet.Action

variable {ps : List Expr}

abbrev Refuses (ps : List Expr) (x : Check α) : Prop := Fails (Error.OfCheck ps) x

abbrev RefusesWithin (ps : List Expr) (x : Check α) : Prop := FailsWithin (Error.OfCheck ps) x

theorem refuses_reject (cause : TypeError) (span : Option Span) :
    Refuses ps (reject cause span : Check α) := fails_fail .typing

theorem refuses_lookupVar (name : String) (span : Option Span) :
    Refuses ps (inspect fun scopes => scopes.lookupVar name span) := by
  apply fails_inspect
  intro scopes e failed
  unfold Scopes.lookupVar at failed
  split at failed
  · cases failed
  · cases failed
    exact .typing

theorem refusesWithin_declareVar (decl : Declaration) (t : Ty) :
    RefusesWithin ps (update (Scopes.declareVar decl t)) := by
  apply failsWithin_update
  intro s outer e failed
  rw [Scopes.declareVar] at failed
  split at failed
  · cases failed
    exact .typing
  · cases failed

theorem refusesWithin_declareFn (f : FnDecl) :
    RefusesWithin ps (update (Scopes.declareFn f)) := by
  apply failsWithin_update
  intro s outer e failed
  rw [Scopes.declareFn] at failed
  split at failed
  · cases failed
    exact .typing
  · cases failed

theorem refuses_requirePattern {p : Expr} (matched : p ∈ ps) :
    Refuses ps (inspect fun _ => p.requirePattern) := by
  apply fails_inspect
  intro scopes e failed
  unfold requirePattern at failed
  cases found : p.forbidden? with
  | none =>
    rw [found] at failed
    cases failed
  | some part =>
    rw [found] at failed
    cases failed
    obtain ⟨inside, not⟩ := forbidden?_some found
    exact .forbidden matched inside not

theorem refuses_requireCondition (t : Ty) (span : Option Span) :
    Refuses ps (requireCondition t span) := by
  unfold requireCondition
  split
  · exact fails_pure ()
  · exact refuses_reject _ _

theorem refuses_requireInteger (t : Ty) (span : Option Span) :
    Refuses ps (requireInteger t span) := by
  unfold requireInteger
  split
  · exact fails_pure ()
  · exact refuses_reject _ _

theorem refuses_inferAssign (name : String) (nameSpan : Option Span) (got : Ty)
    (valueSpan : Option Span) : Refuses ps (inferAssign name nameSpan got valueSpan) := by
  apply fails_bind (refuses_lookupVar _ _)
  intro binding
  split
  · exact fails_pure got
  · exact refuses_reject _ _

theorem refuses_inferBuiltin (b : Builtin) (types : List Ty) (span : Option Span) :
    Refuses ps (inferBuiltin b types span) := by
  unfold inferBuiltin
  split
  · exact fails_pure _
  · exact refuses_reject _ _

theorem refuses_inferCall (name : String) (types : List Ty) (span : Option Span) :
    Refuses ps (inferCall name types span) := by
  apply fails_bind
  · apply fails_inspect
    intro scopes e failed
    cases failed
  intro found
  cases found with
  | some f =>
    dsimp only
    split
    · exact fails_pure _
    · exact refuses_reject _ _
  | none =>
    dsimp only
    split
    · exact refuses_inferBuiltin _ _ _
    · apply fails_inspect
      intro scopes e failed
      cases failed
      exact .typing

theorem refuses_requireItems (element : Ty) (origin : ElementOrigin) (originSpan : Option Span) :
    ∀ (index : Nat) (es : List Expr) (ts : List Ty),
      Refuses ps (requireItems element origin originSpan index es ts) := by
  intro index es
  induction es generalizing index with
  | nil => intro ts; exact fails_pure ()
  | cons e es ih =>
    intro ts
    cases ts with
    | nil => exact fails_pure ()
    | cons t ts =>
      rw [requireItems]
      split
      · exact ih (index + 1) ts
      · exact refuses_reject _ _

theorem refusesWithin_declareFns (fns : List FnDecl) : RefusesWithin ps (declareFns fns) := by
  induction fns with
  | nil => exact failsWithin_of_fails (fails_pure ())
  | cons f fs ih =>
    exact failsWithin_bind (leavesOuter_declareFn f) (refusesWithin_declareFn f) fun _ => ih

theorem refusesWithin_declareArgs (args : List ArgDecl) : RefusesWithin ps (declareArgs args) := by
  induction args with
  | nil => exact failsWithin_of_fails (fails_pure ())
  | cons a as ih =>
    exact failsWithin_bind (leavesOuter_declareVar _ _) (refusesWithin_declareVar _ _) fun _ => ih

mutual
theorem refuses_infer : ∀ e : Expr, e.patterns ⊆ ps → Refuses ps e.infer
  | literal v _, _ => fails_pure _
  | var name span, _ => fails_bind (refuses_lookupVar name span) fun _ => fails_pure _
  | group body _, all => fails_bind (refuses_inferAll body all) fun _ => fails_pure _
  | letIn vars fns body _, all => by
    obtain ⟨declared, bodies⟩ := List.append_subset.mp all
    obtain ⟨inVars, inFns⟩ := List.append_subset.mp declared
    refine fails_inScope (leavesOuter_letScope vars fns body) ?_
    apply failsWithin_bind (leavesOuter_checkVars vars) (refusesWithin_checkVars vars inVars)
    intro _
    apply failsWithin_bind (leavesOuter_declareFns fns) (refusesWithin_declareFns fns)
    intro _
    apply failsWithin_of_fails
    apply fails_bind (refuses_checkFns fns inFns)
    intro _
    exact fails_bind (refuses_inferAll body bodies) fun _ => fails_pure _
  | assign name value nameSpan _, all =>
    fails_bind (refuses_infer value all) fun _ => refuses_inferAssign _ _ _ _
  | matchWith pattern value _, all => by
    obtain ⟨own, inValue⟩ := List.append_subset.mp all
    obtain ⟨matched, inPattern⟩ := List.cons_subset.mp own
    by_cases named : ∃ name nameSpan, pattern = var name nameSpan
    · obtain ⟨name, nameSpan, rfl⟩ := named
      apply fails_bind (refuses_requirePattern matched)
      intro _
      apply fails_bind (refuses_infer value inValue)
      intro got
      exact fails_bind (refuses_inferAssign _ _ _ _) fun _ => fails_pure _
    · rw [infer_matchWith fun name nameSpan same => named ⟨name, nameSpan, same⟩]
      apply fails_bind (refuses_requirePattern matched)
      intro _
      apply fails_bind (refuses_infer pattern inPattern)
      intro expected
      apply fails_bind (refuses_infer value inValue)
      intro got
      split
      · exact fails_pure _
      · exact refuses_reject _ _
  | call name args span, all =>
    fails_bind (refuses_inferAll args all) fun _ => refuses_inferCall _ _ _
  | ifElse cond whenTrue whenFalse _, all => by
    obtain ⟨others, inFalse⟩ := List.append_subset.mp all
    obtain ⟨inCond, inTrue⟩ := List.append_subset.mp others
    apply fails_bind (refuses_infer cond inCond)
    intro c
    apply fails_bind (refuses_requireCondition _ _)
    intro _
    apply fails_bind (refuses_infer whenTrue inTrue)
    intro trueType
    apply fails_bind (refuses_infer whenFalse inFalse)
    intro falseType
    split
    · exact fails_pure _
    · exact refuses_reject _ _
  | whileDo cond body _, all => by
    obtain ⟨inCond, inBody⟩ := List.append_subset.mp all
    apply fails_bind (refuses_infer cond inCond)
    intro c
    apply fails_bind (refuses_requireCondition _ _)
    intro _
    exact fails_bind (refuses_infer body inBody) fun _ => fails_pure _
  | forTo ⟨name, start, declSpan⟩ goal body _, all => by
    obtain ⟨bounds, inBody⟩ := List.append_subset.mp all
    obtain ⟨inStart, inGoal⟩ := List.append_subset.mp bounds
    refine fails_bind ?_ fun _ => fails_pure _
    refine fails_inScope (leavesOuter_forScope name start goal body declSpan) ?_
    apply failsWithin_bind (leavesOuter_of_leaves (leaves_infer start))
      (failsWithin_of_fails (refuses_infer start inStart))
    intro s
    apply failsWithin_bind (leavesOuter_of_leaves (leaves_requireInteger _ _))
      (failsWithin_of_fails (refuses_requireInteger _ _))
    intro _
    apply failsWithin_bind (leavesOuter_of_leaves (leaves_infer goal))
      (failsWithin_of_fails (refuses_infer goal inGoal))
    intro g
    apply failsWithin_bind (leavesOuter_of_leaves (leaves_requireInteger _ _))
      (failsWithin_of_fails (refuses_requireInteger _ _))
    intro _
    apply failsWithin_bind (leavesOuter_declareVar _ _) (refusesWithin_declareVar _ _)
    intro _
    exact failsWithin_of_fails (fails_bind (refuses_infer body inBody) fun _ => fails_pure _)
  | binary left op right span, all => by
    obtain ⟨inLeft, inRight⟩ := List.append_subset.mp all
    apply fails_bind (refuses_infer left inLeft)
    intro leftType
    exact fails_bind (refuses_infer right inRight) fun _ => refuses_inferBuiltin _ _ _
  | unary op operand span, all =>
    fails_bind (refuses_infer operand all) fun _ => refuses_inferBuiltin _ _ _
  | cast operand target _, all => by
    rw [infer]
    apply fails_bind (refuses_infer operand all)
    intro source
    split
    · exact fails_pure _
    · exact refuses_reject _ _
  | array items (some element) elementSpan _, all => by
    apply fails_bind (refuses_inferAll items all)
    intro types
    exact fails_bind (refuses_requireItems _ _ _ _ _ _) fun _ => fails_pure _
  | array items none _ span, all => by
    apply fails_bind (refuses_inferAll items all)
    intro types
    split
    · exact fails_bind (refuses_requireItems _ _ _ _ _ _) fun _ => fails_pure _
    · exact refuses_reject _ _
  | tuple items _, all => fails_bind (refuses_inferAll items all) fun _ => fails_pure _

theorem refuses_inferAll : ∀ es : List Expr, patternsAll es ⊆ ps → Refuses ps (inferAll es)
  | [], _ => fails_pure []
  | e :: es, all => by
    obtain ⟨first, others⟩ := List.append_subset.mp all
    exact fails_bind (refuses_infer e first) fun _ =>
      fails_bind (refuses_inferAll es others) fun _ => fails_pure _

theorem refusesWithin_checkVars : ∀ vars : List VarDecl, patternsVars vars ⊆ ps →
    RefusesWithin ps (checkVars vars)
  | [], _ => failsWithin_of_fails (fails_pure ())
  | ⟨name, value, span⟩ :: rest, all => by
    obtain ⟨first, others⟩ := List.append_subset.mp all
    apply failsWithin_bind (leavesOuter_of_leaves (leaves_infer value))
      (failsWithin_of_fails (refuses_infer value first))
    intro type
    split
    · exact failsWithin_of_fails (refuses_reject _ _)
    · exact failsWithin_bind (leavesOuter_declareVar _ _) (refusesWithin_declareVar _ _) fun _ =>
        refusesWithin_checkVars rest others

theorem refuses_checkFn : ∀ f : FnDecl, f.body.patterns ⊆ ps → Refuses ps (checkFn f)
  | ⟨name, args, result, body, span⟩, all => by
    refine fails_bind ?_ fun _ => fails_pure _
    refine fails_inScope (leavesOuter_fnScope name args result body span) ?_
    apply failsWithin_bind (leavesOuter_declareArgs args) (refusesWithin_declareArgs args)
    intro _
    apply failsWithin_of_fails
    apply fails_bind (refuses_infer body all)
    intro got
    split
    · exact fails_pure _
    · exact refuses_reject _ _

theorem refuses_checkFns : ∀ fns : List FnDecl, patternsFns fns ⊆ ps → Refuses ps (checkFns fns)
  | [], _ => fails_pure ()
  | ⟨name, args, result, body, span⟩ :: fs, all => by
    obtain ⟨first, others⟩ := List.append_subset.mp all
    exact fails_bind (refuses_checkFn ⟨name, args, result, body, span⟩ first) fun _ =>
      refuses_checkFns fs others
end

end Expr

namespace Tree

def patterns : Tree → List Expr
  | expr e => e.patterns
  | block body => Expr.patternsAll body

theorem refuses_infer (tree : Tree) : Expr.Refuses tree.patterns tree.infer := by
  cases tree with
  | expr e => exact Expr.refuses_infer e (List.Subset.refl _)
  | block body =>
    exact Action.fails_bind (Expr.refuses_inferAll body (List.Subset.refl _)) fun _ =>
      Action.fails_pure _

/-- Whatever the program and the scopes it is checked on, the scopes are afterwards what they
    were: after a type, after a type error and after a forbidden part of a pattern, and there
    is no other end. -/
theorem infer_leaves_scopes (tree : Tree) (Γ : Scopes Ty) :
    (∃ t, tree.infer Γ = (.ok t, Γ)) ∨
      (∃ cause span, tree.infer Γ = (.error (.typing cause span), Γ)) ∨
        ∃ form span, tree.infer Γ = (.error (.internal (.forbiddenPattern form) span), Γ) := by
  have same := leaves_infer tree Γ
  have refused := refuses_infer tree Γ
  cases run : tree.infer Γ with
  | mk answer after =>
    rw [run] at same refused
    subst same
    cases answer with
    | ok t => exact .inl ⟨t, rfl⟩
    | error e =>
      cases refused e rfl with
      | typing => exact .inr (.inl ⟨_, _, rfl⟩)
      | forbidden _ _ _ => exact .inr (.inr ⟨_, _, rfl⟩)

theorem patterns_of_check {tree : Tree} {t : Ty} (accepted : tree.check = .ok t) :
    ∀ p ∈ tree.patterns, p.IsPattern := by
  cases tree with
  | expr e => exact Expr.patterns_of_infers e (Expr.infers_iff.mpr accepted)
  | block body =>
    obtain ⟨ts, types, _⟩ := check_block_ok_iff.mp accepted
    exact Expr.patterns_of_infersAll body types

/-- A check of a program gives a type, or it is refused with a type error or with a part that
    may not stand in a pattern, and the last only if a match of the program has that part in
    its pattern; the faults of declaring in no scope and of leaving none never arise. A
    program with such a part in a pattern is never accepted. Where there is none, the program
    has a diagnostic or none is needed. -/
theorem check_ends (tree : Tree) :
    (∀ e, tree.check = .error e → e.OfCheck tree.patterns) ∧
    (∀ span, tree.check ≠ .error (.internal .noScopeToDeclareIn span) ∧
      tree.check ≠ .error (.internal .noScopeToLeave span)) ∧
    ((∃ p ∈ tree.patterns, ¬ p.IsPattern) → ∀ t, tree.check ≠ .ok t) ∧
    ((∀ p ∈ tree.patterns, p.IsPattern) → ∃ d, tree.diagnose = .ok d) := by
  have ends : ∀ e, tree.check = .error e → e.OfCheck tree.patterns := refuses_infer tree []
  refine ⟨ends, fun span => ⟨?_, ?_⟩, ?_, ?_⟩
  · intro refused
    cases ends _ refused
  · intro refused
    cases ends _ refused
  · rintro ⟨p, matched, not⟩ t accepted
    exact not (patterns_of_check accepted p matched)
  · intro all
    unfold diagnose
    cases answer : tree.check with
    | ok t => exact ⟨none, rfl⟩
    | error e =>
      cases ends e answer with
      | typing => exact ⟨_, rfl⟩
      | forbidden matched inside not =>
        rw [all _ matched _ inside] at not
        cases not

end Tree
end TypedLet
