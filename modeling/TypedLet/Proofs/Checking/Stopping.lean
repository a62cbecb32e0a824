import TypedLet.Proofs.Checking.Accept
import TypedLet.Proofs.Diagnostic.Suggestions
import TypedLet.Proofs.Environment.Visible

/-
The names that an error lists, and where it arose. A check leaves every scope that it entered,
also when it fails, so the scopes in which a lookup failed are gone when the error is there.
The checker that stops is the checker, but that a failure leaves the scopes as they are where
it arises. Main statement: the names that are listed as visible are those that a lookup finds,
so an error never lists the name that it is about, and whatever is suggested for that name
would have been found where it was not.
-/
namespace TypedLet

open Scopes

namespace Action

/-- As `inScope`, but a failure leaves the scopes as they are where it arises. -/
def stopInScope (x : Action ι α) : Action ι α := fun scopes =>
  match x (Scope.empty :: scopes) with
  | (.error e, there) => (.error e, there)
  | (.ok a, after) =>
    match after.leave with
    | .ok outer => (.ok a, outer)
    | .error e => (.error e, after)

/-- The second action ends as the first one, and where they fail it stays in scopes of which
    the error tells the truth. -/
def StopsWith (P : Error → Scopes ι → Prop) (x y : Action ι α) : Prop := ∀ scopes,
  match x scopes with
  | (.ok a, after) => y scopes = (.ok a, after)
  | (.error e, _) => ∃ there, y scopes = (.error e, there) ∧ P e there

variable {P : Error → Scopes ι → Prop}

theorem stopsWith_inspect {f : Scopes ι → Except Error α}
    (told : ∀ scopes e, f scopes = .error e → P e scopes) :
    StopsWith P (inspect f) (inspect f) := by
  intro scopes
  unfold inspect
  cases found : f scopes with
  | ok a => rfl
  | error e => exact ⟨scopes, rfl, told scopes e found⟩

theorem stopsWith_update {f : Scopes ι → Except Error (Scopes ι)}
    (told : ∀ scopes e, f scopes = .error e → P e scopes) :
    StopsWith P (update f) (update f) := by
  intro scopes
  unfold update
  cases changed : f scopes with
  | ok after => rfl
  | error e => exact ⟨scopes, rfl, told scopes e changed⟩

theorem stopsWith_pure (a : α) : StopsWith P (Pure.pure a) (Pure.pure a) := fun _ => rfl

theorem stopsWith_bind {x y : Action ι α} {f g : α → Action ι β} (first : StopsWith P x y)
    (next : ∀ a, StopsWith P (f a) (g a)) : StopsWith P (x >>= f) (y >>= g) := by
  intro scopes
  have here := first scopes
  cases run : x scopes with
  | mk result after =>
    rw [run] at here
    cases result with
    | ok a =>
      rw [bind_of_ok run, bind_of_ok here]
      exact next a after
    | error e =>
      obtain ⟨there, stopped, told⟩ := here
      rw [bind_of_error run]
      exact ⟨there, bind_of_error stopped, told⟩

theorem stopsWith_inScope {x y : Action ι α} (outer : LeavesOuter x) (inside : StopsWith P x y) :
    StopsWith P (inScope x) (stopInScope y) := by
  intro scopes
  have here := inside (Scope.empty :: scopes)
  -- Whatever happened inside, one scope stands on the outer ones, so leaving it cannot fail.
  obtain ⟨t, same⟩ := outer Scope.empty scopes
  rw [inScope_of_leavesOuter outer]
  unfold stopInScope
  cases run : x (Scope.empty :: scopes) with
  | mk result after =>
    rw [run] at here same
    subst same
    cases result with
    | ok a =>
      rw [here]
      rfl
    | error e =>
      obtain ⟨there, stopped, told⟩ := here
      rw [stopped]
      exact ⟨there, rfl, told⟩

end Action

namespace Expr

mutual

/-- The type of an expression, as `infer` gives it. Every scope that is entered here is kept
    when what runs in it fails. -/
def stop : Expr → Check Ty
  | literal v span => (literal v span).infer
  | var name span => (var name span).infer
  | group body _ => do
    let types ← stopAll body
    pure (rowType types)
  | letIn vars fns body _ => Action.stopInScope do
    stopVars vars
    declareFns fns
    stopFns fns
    let types ← stopAll body
    pure (rowType types)
  | assign name value nameSpan _ => do
    let got ← value.stop
    inferAssign name nameSpan got value.span
  | matchWith pattern value _ => do
    Action.inspect fun _ => pattern.requirePattern
    match pattern with
    | var name nameSpan =>
      let got ← value.stop
      let _ ← inferAssign name nameSpan got value.span
      pure .bool
    | pattern =>
      let expected ← pattern.stop
      let got ← value.stop
      if expected = got then pure .bool
      else reject (.mismatch (.exactly expected) got none) value.span
  | call name args span => do
    let types ← stopAll args
    inferCall name types span
  | ifElse cond whenTrue whenFalse _ => do
    requireCondition (← cond.stop) cond.span
    let trueType ← whenTrue.stop
    let falseType ← whenFalse.stop
    if trueType = falseType then pure trueType
    else reject (.armMismatch trueType falseType whenTrue.span) whenFalse.span
  | whileDo cond body _ => do
    requireCondition (← cond.stop) cond.span
    let _ ← body.stop
    pure .void
  | forTo ⟨name, start, declSpan⟩ goal body _ => do
    Action.stopInScope do
      requireInteger (← start.stop) start.span
      requireInteger (← goal.stop) goal.span
      Action.update (declareVar (.var ⟨name, start, declSpan⟩) .integer)
      let _ ← body.stop
    pure .void
  | binary left op right span => do
    let leftType ← left.stop
    let rightType ← right.stop
    inferBuiltin (.binary op) [leftType, rightType] span
  | unary op operand span => do
    let type ← operand.stop
    inferBuiltin (.unary op) [type] span
  | cast operand target _ => do
    let source ← operand.stop
    if source.castsTo target then pure target
    else reject (.conversion source target) operand.span
  | array items (some element) elementSpan _ => do
    let types ← stopAll items
    requireItems element .declared elementSpan 0 items types
    pure (.array element)
  | array items none _ span => do
    let types ← stopAll items
    match items, types with
    | first :: _, element :: _ =>
      requireItems element .firstItem first.span 0 items types
      pure (.array element)
    | _, _ => reject .untypedEmptyArray span
  | tuple items _ => do
    let types ← stopAll items
    pure (.tuple types)

def stopAll : List Expr → Check (List Ty)
  | [] => pure []
  | e :: es => do
    let type ← e.stop
    let types ← stopAll es
    pure (type :: types)

def stopVars : List VarDecl → Check Unit
  | [] => pure ()
  | ⟨name, value, span⟩ :: rest => do
    let type ← value.stop
    if type = .void then reject (.voidVariable name) value.span
    else
      Action.update (declareVar (.var ⟨name, value, span⟩) type)
      stopVars rest

def stopFn : FnDecl → Check Ty
  | ⟨name, args, result, body, span⟩ => do
    Action.stopInScope do
      declareArgs args
      let got ← body.stop
      if got = result then pure ()
      else
        reject (.mismatch (.exactly result) got (some (.fn ⟨name, args, result, body, span⟩)))
          body.span
    pure result

def stopFns : List FnDecl → Check Unit
  | [] => pure ()
  | f :: fs => do
    let _ ← stopFn f
    stopFns fs

end

theorem stop_matchWith {pattern value : Expr} {span : Option Span}
    (other : ∀ name nameSpan, pattern ≠ var name nameSpan) :
    (matchWith pattern value span).stop = (do
      Action.inspect fun _ => pattern.requirePattern
      let expected ← pattern.stop
      let got ← value.stop
      if expected = got then pure .bool
      else reject (.mismatch (.exactly expected) got none) value.span) := by
  cases pattern with
  | var name nameSpan => exact absurd rfl (other name nameSpan)
  | _ => rfl

end Expr

def Tree.stop : Tree → Check Ty
  | expr e => e.stop
  | block body => do
    let types ← Expr.stopAll body
    pure (Expr.rowType types)

/-- What the error says of names and scopes is so: the name is not found, and the names
    that it lists are the visible ones. -/
def Error.TellsVisible (there : Scopes α) : Error → Prop
  | .typing (.unboundVariable name visible) _ =>
    findVar name there = none ∧ visible = there.visibleVars
  | .typing (.undefinedFunction name visible) _ =>
    there.findFn name = none ∧ Builtin.find? name = none ∧ visible = there.visibleFns
  | _ => True

namespace Expr

open TypedLet.Action

abbrev Stops (x y : Check α) : Prop := StopsWith (fun e there => e.TellsVisible there) x y

theorem stops_reject {cause : TypeError} (span : Option Span)
    (silent : ∀ scopes : Scopes Ty, (Error.typing cause span).TellsVisible scopes) :
    Stops (reject cause span : Check α) (reject cause span) :=
  fun scopes => ⟨scopes, rfl, silent scopes⟩

theorem stops_lookupVar (name : String) (span : Option Span) :
    Stops (inspect fun scopes : Scopes Ty => scopes.lookupVar name span)
      (inspect fun scopes => scopes.lookupVar name span) := by
  apply stopsWith_inspect
  intro scopes e failed
  unfold lookupVar at failed
  split at failed
  · cases failed
  · next missing =>
    cases failed
    exact ⟨missing, rfl⟩

theorem stops_requireCondition (t : Ty) (span : Option Span) :
    Stops (requireCondition t span) (requireCondition t span) := by
  unfold requireCondition
  split
  · exact stopsWith_pure ()
  · exact stops_reject _ fun _ => trivial

theorem stops_requireInteger (t : Ty) (span : Option Span) :
    Stops (requireInteger t span) (requireInteger t span) := by
  unfold requireInteger
  split
  · exact stopsWith_pure ()
  · exact stops_reject _ fun _ => trivial

theorem stops_inferAssign (name : String) (nameSpan : Option Span) (got : Ty)
    (valueSpan : Option Span) : Stops (inferAssign name nameSpan got valueSpan)
      (inferAssign name nameSpan got valueSpan) := by
  apply stopsWith_bind (stops_lookupVar name nameSpan)
  intro binding
  split
  · exact stopsWith_pure got
  · exact stops_reject _ fun _ => trivial

theorem stops_requirePattern (p : Expr) :
    Stops (inspect fun _ => p.requirePattern) (inspect fun _ => p.requirePattern) := by
  apply stopsWith_inspect
  intro scopes e failed
  unfold requirePattern at failed
  split at failed <;> cases failed
  exact trivial

theorem stops_inferBuiltin (b : Builtin) (types : List Ty) (span : Option Span) :
    Stops (inferBuiltin b types span) (inferBuiltin b types span) := by
  unfold inferBuiltin
  split
  · exact stopsWith_pure _
  · exact stops_reject _ fun _ => trivial

theorem stops_inferCall (name : String) (types : List Ty) (span : Option Span) :
    Stops (inferCall name types span) (inferCall name types span) := by
  intro scopes
  have looked : (inspect fun scopes : Scopes Ty => .ok (scopes.findFn name)) scopes =
      (.ok (scopes.findFn name), scopes) := rfl
  rw [inferCall, bind_of_ok looked]
  cases missing : scopes.findFn name with
  | some f =>
    dsimp only
    cases f.resultFor types with
    | some result => rfl
    | none => exact ⟨scopes, rfl, trivial⟩
  | none =>
    dsimp only
    cases unknown : Builtin.find? name with
    | some b => exact stops_inferBuiltin b types span scopes
    | none => exact ⟨scopes, rfl, missing, unknown, rfl⟩

theorem stops_requireItems (element : Ty) (origin : ElementOrigin) (originSpan : Option Span) :
    ∀ (index : Nat) (es : List Expr) (ts : List Ty),
      Stops (requireItems element origin originSpan index es ts)
        (requireItems element origin originSpan index es ts) := by
  intro index es
  induction es generalizing index with
  | nil => intro ts; exact stopsWith_pure ()
  | cons e es ih =>
    intro ts
    cases ts with
    | nil => exact stopsWith_pure ()
    | cons t ts =>
      rw [requireItems]
      split
      · exact ih (index + 1) ts
      · exact stops_reject _ fun _ => trivial

theorem stops_declareVar (decl : Declaration) (t : Ty) :
    Stops (update (declareVar decl t)) (update (declareVar decl t)) := by
  apply stopsWith_update
  intro scopes e failed
  cases scopes with
  | nil =>
    cases failed
    exact trivial
  | cons s outer =>
    rw [declareVar] at failed
    split at failed <;> cases failed
    exact trivial

theorem stops_declareFn (f : FnDecl) :
    Stops (update (declareFn f)) (update (declareFn f)) := by
  apply stopsWith_update
  intro scopes e failed
  cases scopes with
  | nil =>
    cases failed
    exact trivial
  | cons s outer =>
    rw [declareFn] at failed
    split at failed <;> cases failed
    exact trivial

theorem stops_declareFns (fns : List FnDecl) : Stops (declareFns fns) (declareFns fns) := by
  induction fns with
  | nil => exact stopsWith_pure ()
  | cons f fs ih => exact stopsWith_bind (stops_declareFn f) fun _ => ih

theorem stops_declareArgs (args : List ArgDecl) : Stops (declareArgs args) (declareArgs args) := by
  induction args with
  | nil => exact stopsWith_pure ()
  | cons a as ih => exact stopsWith_bind (stops_declareVar _ _) fun _ => ih

mutual
theorem stops_infer : ∀ e : Expr, Stops e.infer e.stop
  | literal v _ => stopsWith_pure _
  | var name span => stopsWith_bind (stops_lookupVar name span) fun _ => stopsWith_pure _
  | group body _ => stopsWith_bind (stops_inferAll body) fun _ => stopsWith_pure _
  | letIn vars fns body _ => by
    refine stopsWith_inScope (leavesOuter_letScope vars fns body) ?_
    apply stopsWith_bind (stops_checkVars vars)
    intro _
    apply stopsWith_bind (stops_declareFns fns)
    intro _
    apply stopsWith_bind (stops_checkFns fns)
    intro _
    exact stopsWith_bind (stops_inferAll body) fun _ => stopsWith_pure _
  | assign name value nameSpan _ =>
    stopsWith_bind (stops_infer value) fun _ => stops_inferAssign _ _ _ _
  | matchWith pattern value _ => by
    by_cases named : ∃ name nameSpan, pattern = var name nameSpan
    · obtain ⟨name, nameSpan, rfl⟩ := named
      apply stopsWith_bind (stops_requirePattern _)
      intro _
      apply stopsWith_bind (stops_infer value)
      intro got
      exact stopsWith_bind (stops_inferAssign _ _ _ _) fun _ => stopsWith_pure _
    · have other : ∀ name nameSpan, pattern ≠ var name nameSpan :=
        fun name nameSpan same => named ⟨name, nameSpan, same⟩
      rw [infer_matchWith other, stop_matchWith other]
      apply stopsWith_bind (stops_requirePattern _)
      intro _
      apply stopsWith_bind (stops_infer pattern)
      intro expected
      apply stopsWith_bind (stops_infer value)
      intro got
      split
      · exact stopsWith_pure _
      · exact stops_reject _ fun _ => trivial
  | call name args span => stopsWith_bind (stops_inferAll args) fun _ => stops_inferCall _ _ _
  | ifElse cond whenTrue whenFalse _ => by
    apply stopsWith_bind (stops_infer cond)
    intro c
    apply stopsWith_bind (stops_requireCondition _ _)
    intro _
    apply stopsWith_bind (stops_infer whenTrue)
    intro trueType
    apply stopsWith_bind (stops_infer whenFalse)
    intro falseType
    split
    · exact stopsWith_pure _
    · exact stops_reject _ fun _ => trivial
  | whileDo cond body _ => by
    apply stopsWith_bind (stops_infer cond)
    intro c
    apply stopsWith_bind (stops_requireCondition _ _)
    intro _
    exact stopsWith_bind (stops_infer body) fun _ => stopsWith_pure _
  | forTo ⟨name, start, declSpan⟩ goal body _ => by
    refine stopsWith_bind ?_ fun _ => stopsWith_pure _
    refine stopsWith_inScope (leavesOuter_forScope name start goal body declSpan) ?_
    apply stopsWith_bind (stops_infer start)
    intro s
    apply stopsWith_bind (stops_requireInteger _ _)
    intro _
    apply stopsWith_bind (stops_infer goal)
    intro g
    apply stopsWith_bind (stops_requireInteger _ _)
    intro _
    apply stopsWith_bind (stops_declareVar _ _)
    intro _
    exact stopsWith_bind (stops_infer body) fun _ => stopsWith_pure _
  | binary left op right span => by
    apply stopsWith_bind (stops_infer left)
    intro leftType
    exact stopsWith_bind (stops_infer right) fun _ => stops_inferBuiltin _ _ _
  | unary op operand span =>
    stopsWith_bind (stops_infer operand) fun _ => stops_inferBuiltin _ _ _
  | cast operand target _ => by
    apply stopsWith_bind (stops_infer operand)
    intro source
    split
    · exact stopsWith_pure _
    · exact stops_reject _ fun _ => trivial
  | array items (some element) elementSpan _ => by
    apply stopsWith_bind (stops_inferAll items)
    intro types
    exact stopsWith_bind (stops_requireItems _ _ _ _ _ _) fun _ => stopsWith_pure _
  | array items none _ span => by
    apply stopsWith_bind (stops_inferAll items)
    intro types
    cases items with
    | nil => exact stops_reject _ fun _ => trivial
    | cons first rest =>
      cases types with
      | nil => exact stops_reject _ fun _ => trivial
      | cons element others =>
        exact stopsWith_bind (stops_requireItems _ _ _ _ _ _) fun _ => stopsWith_pure _
  | tuple items _ => stopsWith_bind (stops_inferAll items) fun _ => stopsWith_pure _

theorem stops_inferAll : ∀ es : List Expr, Stops (inferAll es) (stopAll es)
  | [] => stopsWith_pure []
  | e :: es =>
    stopsWith_bind (stops_infer e) fun _ => stopsWith_bind (stops_inferAll es) fun _ =>
      stopsWith_pure _

theorem stops_checkVars : ∀ vars : List VarDecl, Stops (checkVars vars) (stopVars vars)
  | [] => stopsWith_pure ()
  | ⟨name, value, span⟩ :: rest => by
    apply stopsWith_bind (stops_infer value)
    intro type
    split
    · exact stops_reject _ fun _ => trivial
    · exact stopsWith_bind (stops_declareVar _ _) fun _ => stops_checkVars rest

theorem stops_checkFn : ∀ f : FnDecl, Stops (checkFn f) (stopFn f)
  | ⟨name, args, result, body, span⟩ => by
    refine stopsWith_bind ?_ fun _ => stopsWith_pure _
    refine stopsWith_inScope (leavesOuter_fnScope name args result body span) ?_
    apply stopsWith_bind (stops_declareArgs args)
    intro _
    apply stopsWith_bind (stops_infer body)
    intro got
    split
    · exact stopsWith_pure _
    · exact stops_reject _ fun _ => trivial

theorem stops_checkFns : ∀ fns : List FnDecl, Stops (checkFns fns) (stopFns fns)
  | [] => stopsWith_pure ()
  | f :: fs => stopsWith_bind (stops_checkFn f) fun _ => stops_checkFns fs
end

end Expr

theorem Tree.stops_infer : ∀ t : Tree, Expr.Stops t.infer t.stop
  | expr e => Expr.stops_infer e
  | block body => Action.stopsWith_bind (Expr.stops_inferAll body) fun _ => Action.stopsWith_pure _

/-- Where it arose, the name of the error is not found, nor is it among the names listed, and
    every name that is suggested for it is found. -/
def Error.SuggestsFound (there : Scopes α) : Error → Prop
  | .typing (.unboundVariable name visible) _ =>
    findVar name there = none ∧ name ∉ visible ∧
      ∀ limits, ∀ n ∈ Suggest.similar limits name visible, (findVar n there).isSome
  | .typing (.undefinedFunction name visible) _ =>
    there.findFn name = none ∧ Builtin.find? name = none ∧ name ∉ visible ∧
      ∀ limits, ∀ n ∈ Suggest.similar limits name visible,
        (there.findFn n).isSome ∨ (Builtin.find? n).isSome
  | _ => True

theorem Error.TellsVisible.suggestsFound {there : Scopes α} {e : Error}
    (told : e.TellsVisible there) : e.SuggestsFound there := by
  unfold TellsVisible at told
  split at told
  · obtain ⟨missing, rfl⟩ := told
    refine ⟨missing, ?_, fun _ n picked => mem_visibleVars.mp (Suggest.mem_of_mem_similar picked)⟩
    rw [mem_visibleVars, missing]
    exact Bool.false_ne_true
  · obtain ⟨missing, unknown, rfl⟩ := told
    refine ⟨missing, unknown, ?_, fun _ n picked =>
      mem_visibleFns.mp (Suggest.mem_of_mem_similar picked)⟩
    rw [mem_visibleFns, missing, unknown]
    simp
  · next unbound undefined =>
    unfold SuggestsFound
    split
    · exact absurd rfl (unbound _ _ _)
    · exact absurd rfl (undefined _ _ _)
    · exact trivial

structure Scopes.ListsVisible (scopes : Scopes α) : Prop where
  varsOnce : scopes.visibleVars.Nodup
  varsFound : ∀ n, n ∈ scopes.visibleVars ↔ (findVar n scopes).isSome
  innerFirst : ∀ inner outer, scopes = inner ++ outer → scopes.visibleVars =
    inner.visibleVars ++ outer.visibleVars.filter (· ∉ inner.visibleVars)
  fnsOnce : scopes.visibleFns.Nodup
  fnsFound : ∀ n, n ∈ scopes.visibleFns ↔ (scopes.findFn n).isSome ∨ (Builtin.find? n).isSome

theorem Scopes.listsVisible (scopes : Scopes α) : scopes.ListsVisible where
  varsOnce := nodup_collect List.nodup_nil
  varsFound _ := mem_visibleVars
  innerFirst inner outer := by
    rintro rfl
    exact collect_append_nil inner outer
  fnsOnce := nodup_addNew (nodup_collect List.nodup_nil)
  fnsFound _ := mem_visibleFns

/-- In whatever scopes, the names that are listed as visible are those that can be found. So
    when a check ends with a name that is not found, the error does not list it, and what is
    suggested instead would have been found where the check stopped. -/
theorem visible_names_resolve :
    (∀ (α : Type) (scopes : Scopes α), scopes.ListsVisible) ∧
      ∀ (t : Tree) (scopes : Scopes Ty), (t.stop scopes).1 = (t.infer scopes).1 ∧
        ∀ e, (t.infer scopes).1 = .error e → e.SuggestsFound (t.stop scopes).2 := by
  refine ⟨fun _ => Scopes.listsVisible, fun t scopes => ?_⟩
  have ends := t.stops_infer scopes
  cases run : t.infer scopes with
  | mk result after =>
    rw [run] at ends
    cases result with
    | ok type =>
      rw [ends]
      exact ⟨rfl, fun _ failed => nomatch failed⟩
    | error e =>
      obtain ⟨there, stopped, told⟩ := ends
      rw [stopped]
      refine ⟨rfl, ?_⟩
      rintro _ ⟨⟩
      exact told.suggestsFound

/-- What is suggested is the variable of a scope that is left when the error is there. -/
theorem visible_names_resolve_in_left_scope :
    let program : Tree := .expr (.letIn [⟨"count", .literal (.int 1) none, none⟩] []
      [.var "coumt" none] none)
    program.infer [.empty] =
        (.error (.typing (.unboundVariable "coumt" ["count"]) none), [.empty]) ∧
      Suggest.similar .standard "coumt" ["count"] = ["count"] ∧
      findVar "count" ([.empty] : Scopes Ty) = none ∧
      findVar "coumt" (program.stop [.empty]).2 = none ∧
      (findVar "count" (program.stop [.empty]).2).isSome := by
  intro program
  have ended : program.infer [.empty] =
      (.error (.typing (.unboundVariable "coumt" ["count"]) none), [.empty]) := rfl
  have picked : Suggest.similar .standard "coumt" ["count"] = ["count"] := by decide +kernel
  obtain ⟨missing, -, found⟩ :=
    (visible_names_resolve.2 program [.empty]).2 _ (congrArg Prod.fst ended)
  exact ⟨ended, picked, rfl, missing, found .standard "count" (by simp [picked])⟩

end TypedLet
