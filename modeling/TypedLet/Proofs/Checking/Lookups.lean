import TypedLet.Proofs.Checking.Leaves
import TypedLet.Proofs.Environment.Agree
import TypedLet.Proofs.Environment.Lookup
import TypedLet.Proofs.Scoping.Names

/-
Checking looks at the scopes through lookups only. On two stacks that answer lookups alike,
but for some hidden names, an expression that uses no hidden name as a variable checks
alike: to the same type, or to the same error, which may only list other names as visible.
The scopes that it enters itself are the same on both.
-/
namespace TypedLet

open Scopes

/-- The error without the names that it lists as visible. -/
def TypeError.blind : TypeError → TypeError
  | unboundVariable name _ => unboundVariable name []
  | undefinedFunction name _ => undefinedFunction name []
  | e => e

def Error.blind : Error → Error
  | typing cause span => typing cause.blind span
  | e => e

namespace Scopes

/-- The two stacks give the same answers, but for variables of hidden names. -/
structure AnswerAlike (P : String → Prop) (low low' : Scopes α) : Prop where
  vars : ∀ name, ¬ P name → findVar name low = findVar name low'
  fns : ∀ name, findFn low name = findFn low' name

def Topping (low low' : Scopes α) (n : Nat) (scopes scopes' : Scopes α) : Prop :=
  ∃ upper, List.length upper = n ∧ scopes = upper ++ low ∧ scopes' = upper ++ low'

namespace Topping

variable {P : String → Prop} {low low' scopes scopes' : Scopes α} {n : Nat}

theorem answerAlike (topping : Topping low low' n scopes scopes')
    (same : AnswerAlike P low low') : AnswerAlike P scopes scopes' := by
  obtain ⟨upper, _, rfl, rfl⟩ := topping
  constructor
  · intro name shown
    rw [findVar_append, findVar_append, same.vars name shown]
  · intro name
    rw [findFn_append, findFn_append, same.fns name]

theorem cons (s : Scope α) (topping : Topping low low' n scopes scopes') :
    Topping low low' (n + 1) (s :: scopes) (s :: scopes') := by
  obtain ⟨upper, rfl, rfl, rfl⟩ := topping
  exact ⟨s :: upper, rfl, rfl, rfl⟩

theorem uncons (topping : Topping low low' (n + 1) scopes scopes') :
    ∃ s rest rest', scopes = s :: rest ∧ scopes' = s :: rest' ∧ Topping low low' n rest rest' := by
  obtain ⟨upper, count, rfl, rfl⟩ := topping
  cases upper with
  | nil => cases count
  | cons s upper => exact ⟨s, _, _, rfl, rfl, upper, Nat.succ.inj count, rfl, rfl⟩

theorem declareVar (topping : Topping low low' (n + 1) scopes scopes') (decl : Declaration)
    (a : α) :
    (∃ e, scopes.declareVar decl a = .error e ∧ scopes'.declareVar decl a = .error e) ∨
      ∃ after after', scopes.declareVar decl a = .ok after ∧
        scopes'.declareVar decl a = .ok after' ∧ Topping low low' (n + 1) after after' := by
  obtain ⟨s, rest, rest', rfl, rfl, below⟩ := topping.uncons
  rw [Scopes.declareVar, Scopes.declareVar]
  cases s.findVar decl.name with
  | some b => exact .inl ⟨_, rfl, rfl⟩
  | none => exact .inr ⟨_, _, rfl, rfl, below.cons _⟩

theorem declareFn (topping : Topping low low' (n + 1) scopes scopes') (f : FnDecl) :
    (∃ e, scopes.declareFn f = .error e ∧ scopes'.declareFn f = .error e) ∨
      ∃ after after', scopes.declareFn f = .ok after ∧
        scopes'.declareFn f = .ok after' ∧ Topping low low' (n + 1) after after' := by
  obtain ⟨s, rest, rest', rfl, rfl, below⟩ := topping.uncons
  rw [Scopes.declareFn, Scopes.declareFn]
  cases s.findFn f.name with
  | some first => exact .inl ⟨_, rfl, rfl⟩
  | none => exact .inr ⟨_, _, rfl, rfl, below.cons _⟩

end Topping
end Scopes

variable {P : String → Prop} {low low' : Scopes Ty} {n : Nat}

abbrev ChecksAlike (low low' : Scopes Ty) (n : Nat) (x : Check α) : Prop :=
  Action.Agree Error.blind (Topping low low' n) x x

namespace Expr

open TypedLet.Action (agree_pure agree_fail agree_bind agree_inspect agree_update)

theorem alike_inScope {x : Check α} (inside : ChecksAlike low low' (n + 1) x) :
    ChecksAlike low low' n (Action.inScope x) := by
  apply Action.agree_inScope (fun topping => topping.cons Scope.empty) inside
  intro scopes scopes' topping
  obtain ⟨s, rest, rest', stack, stack', below⟩ := topping.uncons
  exact ⟨s, s, rest, rest', stack, stack', below⟩

theorem alike_requireCondition (t : Ty) (span : Option Span) :
    ChecksAlike low low' n (requireCondition t span) := by
  unfold requireCondition
  split
  · exact agree_pure ()
  · exact agree_fail _

theorem alike_requireInteger (t : Ty) (span : Option Span) :
    ChecksAlike low low' n (requireInteger t span) := by
  unfold requireInteger
  split
  · exact agree_pure ()
  · exact agree_fail _

theorem alike_lookupVar {name : String} (same : AnswerAlike P low low') (shown : ¬ P name)
    (span : Option Span) :
    ChecksAlike low low' n (Action.inspect (·.lookupVar name span)) := by
  apply agree_inspect
  intro scopes scopes' topping
  unfold lookupVar
  rw [(topping.answerAlike same).vars name shown]
  cases findVar name scopes' <;> rfl

theorem alike_inferAssign {name : String} (same : AnswerAlike P low low') (shown : ¬ P name)
    (nameSpan : Option Span) (got : Ty) (valueSpan : Option Span) :
    ChecksAlike low low' n (inferAssign name nameSpan got valueSpan) := by
  apply agree_bind (alike_lookupVar same shown nameSpan)
  intro binding
  split
  · exact agree_pure got
  · exact agree_fail _

theorem alike_inferBuiltin (b : Builtin) (types : List Ty) (span : Option Span) :
    ChecksAlike low low' n (inferBuiltin b types span) := by
  unfold inferBuiltin
  split
  · exact agree_pure _
  · exact agree_fail _

theorem alike_inferCall (same : AnswerAlike P low low') (name : String) (types : List Ty)
    (span : Option Span) : ChecksAlike low low' n (inferCall name types span) := by
  apply agree_bind
  · apply agree_inspect
    intro scopes scopes' topping
    rw [(topping.answerAlike same).fns name]
  · intro found
    cases found with
    | some f =>
      dsimp only
      split
      · exact agree_pure _
      · exact agree_fail _
    | none =>
      dsimp only
      split
      · exact alike_inferBuiltin _ _ _
      · exact agree_inspect fun _ => rfl

theorem alike_requireItems (element : Ty) (origin : ElementOrigin) (originSpan : Option Span) :
    ∀ (index : Nat) (es : List Expr) (ts : List Ty),
      ChecksAlike low low' n (requireItems element origin originSpan index es ts) := by
  intro index es
  induction es generalizing index with
  | nil => intro ts; exact agree_pure ()
  | cons e es ih =>
    intro ts
    cases ts with
    | nil => exact agree_pure ()
    | cons t ts =>
      rw [requireItems]
      split
      · exact ih (index + 1) ts
      · exact agree_fail _

theorem alike_declareVar (decl : Declaration) (t : Ty) :
    ChecksAlike low low' (n + 1) (Action.update (declareVar decl t)) :=
  agree_update fun topping => topping.declareVar decl t

theorem agree_declareFns {g : Error → Error} {R : Scopes Ty → Scopes Ty → Prop}
    (each : ∀ (f : FnDecl) {scopes scopes'}, R scopes scopes' →
      (∃ e, scopes.declareFn f = .error e ∧ scopes'.declareFn f = .error e) ∨
        ∃ after after', scopes.declareFn f = .ok after ∧ scopes'.declareFn f = .ok after' ∧
          R after after') (fns : List FnDecl) :
    Action.Agree g R (declareFns fns) (declareFns fns) := by
  induction fns with
  | nil => exact agree_pure ()
  | cons f fs ih => exact agree_bind (agree_update (each f)) fun _ => ih

theorem alike_declareArgs (args : List ArgDecl) :
    ChecksAlike low low' (n + 1) (declareArgs args) := by
  induction args with
  | nil => exact agree_pure ()
  | cons a as ih => exact agree_bind (alike_declareVar _ _) fun _ => ih

mutual
theorem alike_infer (same : AnswerAlike P low low') : ∀ (e : Expr) (n : Nat), Avoids P e →
    ChecksAlike low low' n e.infer
  | literal v _, n, _ => agree_pure _
  | var name span, n, avoids =>
    agree_bind (alike_lookupVar same (avoids_var.mp avoids) span) fun _ => agree_pure _
  | group body _, n, avoids =>
    agree_bind (alike_inferAll same body n (avoids_group.mp avoids)) fun _ => agree_pure _
  | letIn vars fns body _, n, avoids => by
    obtain ⟨varsAvoid, fnsAvoid, bodyAvoid⟩ := avoids_letIn.mp avoids
    apply alike_inScope
    apply agree_bind (alike_checkVars same vars n varsAvoid)
    intro _
    apply agree_bind (agree_declareFns (fun f _ _ topping => topping.declareFn f) fns)
    intro _
    apply agree_bind (alike_checkFns same fns (n + 1) fnsAvoid)
    intro _
    exact agree_bind (alike_inferAll same body (n + 1) bodyAvoid) fun _ => agree_pure _
  | assign name value nameSpan _, n, avoids => by
    obtain ⟨shown, valueAvoids⟩ := avoids_assign.mp avoids
    apply agree_bind (alike_infer same value n valueAvoids)
    intro got
    exact alike_inferAssign same shown _ _ _
  | matchWith pattern value _, n, avoids => by
    obtain ⟨patternAvoids, valueAvoids⟩ := avoids_matchWith.mp avoids
    by_cases named : ∃ name nameSpan, pattern = var name nameSpan
    · obtain ⟨name, nameSpan, rfl⟩ := named
      apply agree_bind (agree_inspect fun _ => rfl)
      intro _
      apply agree_bind (alike_infer same value n valueAvoids)
      intro got
      exact agree_bind (alike_inferAssign same (avoids_var.mp patternAvoids) _ _ _) fun _ =>
        agree_pure _
    · rw [infer_matchWith fun name nameSpan same => named ⟨name, nameSpan, same⟩]
      apply agree_bind (agree_inspect fun _ => rfl)
      intro _
      apply agree_bind (alike_infer same pattern n patternAvoids)
      intro expected
      apply agree_bind (alike_infer same value n valueAvoids)
      intro got
      split
      · exact agree_pure _
      · exact agree_fail _
  | call name args span, n, avoids =>
    agree_bind (alike_inferAll same args n (avoids_call.mp avoids)) fun _ =>
      alike_inferCall same _ _ _
  | ifElse cond whenTrue whenFalse _, n, avoids => by
    obtain ⟨condAvoids, trueAvoids, falseAvoids⟩ := avoids_ifElse.mp avoids
    apply agree_bind (alike_infer same cond n condAvoids)
    intro c
    apply agree_bind (alike_requireCondition _ _)
    intro _
    apply agree_bind (alike_infer same whenTrue n trueAvoids)
    intro trueType
    apply agree_bind (alike_infer same whenFalse n falseAvoids)
    intro falseType
    split
    · exact agree_pure _
    · exact agree_fail _
  | whileDo cond body _, n, avoids => by
    obtain ⟨condAvoids, bodyAvoids⟩ := avoids_whileDo.mp avoids
    apply agree_bind (alike_infer same cond n condAvoids)
    intro c
    apply agree_bind (alike_requireCondition _ _)
    intro _
    exact agree_bind (alike_infer same body n bodyAvoids) fun _ => agree_pure _
  | forTo ⟨name, start, declSpan⟩ goal body _, n, avoids => by
    obtain ⟨_, startAvoids, goalAvoids, bodyAvoids⟩ := avoids_forTo.mp avoids
    apply agree_bind _ fun _ => agree_pure _
    apply alike_inScope
    apply agree_bind (alike_infer same start (n + 1) startAvoids)
    intro s
    apply agree_bind (alike_requireInteger _ _)
    intro _
    apply agree_bind (alike_infer same goal (n + 1) goalAvoids)
    intro g
    apply agree_bind (alike_requireInteger _ _)
    intro _
    apply agree_bind (alike_declareVar _ _)
    intro _
    exact agree_bind (alike_infer same body (n + 1) bodyAvoids) fun _ => agree_pure _
  | binary left op right span, n, avoids => by
    obtain ⟨leftAvoids, rightAvoids⟩ := avoids_binary.mp avoids
    apply agree_bind (alike_infer same left n leftAvoids)
    intro leftType
    exact agree_bind (alike_infer same right n rightAvoids) fun _ =>
      alike_inferBuiltin _ _ _
  | unary op operand span, n, avoids =>
    agree_bind (alike_infer same operand n avoids) fun _ => alike_inferBuiltin _ _ _
  | cast operand target _, n, avoids => by
    apply agree_bind (alike_infer same operand n avoids)
    intro source
    split
    · exact agree_pure _
    · exact agree_fail _
  | array items (some element) elementSpan _, n, avoids => by
    apply agree_bind (alike_inferAll same items n (avoids_array.mp avoids))
    intro types
    exact agree_bind (alike_requireItems _ _ _ _ _ _) fun _ => agree_pure _
  | array items none _ span, n, avoids => by
    apply agree_bind (alike_inferAll same items n (avoids_array.mp avoids))
    intro types
    split
    · exact agree_bind (alike_requireItems _ _ _ _ _ _) fun _ => agree_pure _
    · exact agree_fail _
  | tuple items _, n, avoids =>
    agree_bind (alike_inferAll same items n (avoids_tuple.mp avoids)) fun _ => agree_pure _

theorem alike_inferAll (same : AnswerAlike P low low') : ∀ (es : List Expr) (n : Nat),
    AllAvoid P es → ChecksAlike low low' n (inferAll es)
  | [], n, _ => agree_pure []
  | e :: es, n, avoid => by
    obtain ⟨first, others⟩ := List.forall_mem_cons.mp avoid
    apply agree_bind (alike_infer same e n first)
    intro t
    exact agree_bind (alike_inferAll same es n others) fun _ => agree_pure _

theorem alike_checkVars (same : AnswerAlike P low low') : ∀ (vars : List VarDecl) (n : Nat),
    VarsAvoid P vars → ChecksAlike low low' (n + 1) (checkVars vars)
  | [], n, _ => agree_pure ()
  | ⟨name, value, span⟩ :: rest, n, avoid => by
    obtain ⟨first, others⟩ := List.forall_mem_cons.mp avoid
    apply agree_bind (alike_infer same value (n + 1) first.2)
    intro type
    split
    · exact agree_fail _
    · exact agree_bind (alike_declareVar _ _) fun _ => alike_checkVars same rest n others

theorem alike_checkFn (same : AnswerAlike P low low') : ∀ (f : FnDecl) (n : Nat), FnAvoids P f →
    ChecksAlike low low' n (checkFn f)
  | ⟨name, args, result, body, span⟩, n, avoids => by
    apply agree_bind _ fun _ => agree_pure _
    apply alike_inScope
    apply agree_bind (alike_declareArgs args)
    intro _
    apply agree_bind (alike_infer same body (n + 1) avoids.2)
    intro got
    split
    · exact agree_pure _
    · exact agree_fail _

theorem alike_checkFns (same : AnswerAlike P low low') : ∀ (fns : List FnDecl) (n : Nat),
    (∀ f ∈ fns, FnAvoids P f) → ChecksAlike low low' n (checkFns fns)
  | [], n, _ => agree_pure ()
  | f :: fs, n, avoid => by
    obtain ⟨first, others⟩ := List.forall_mem_cons.mp avoid
    exact agree_bind (alike_checkFn same f n first) fun _ =>
      alike_checkFns same fs n others
end

end Expr
end TypedLet
