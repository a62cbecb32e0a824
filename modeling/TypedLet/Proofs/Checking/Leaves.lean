import TypedLet.Checking.Infer

/-
Checking leaves the scopes as they were. Whatever is declared on the way goes into
scopes that were entered for it, and these are left again however the check ends.
-/
namespace TypedLet
namespace Action

def Leaves (x : Action ι α) : Prop := ∀ scopes, (x scopes).2 = scopes

def LeavesOuter (x : Action ι α) : Prop := ∀ s outer, ∃ t, (x (s :: outer)).2 = t :: outer

theorem leavesOuter_of_leaves {x : Action ι α} (h : Leaves x) : LeavesOuter x :=
  fun s outer => ⟨s, h (s :: outer)⟩

theorem leaves_pure (a : α) : Leaves (pure a : Action ι α) := fun _ => rfl

theorem leaves_inspect (f : Scopes ι → Except Error α) : Leaves (inspect f) := fun _ => rfl

theorem leaves_fail (e : Error) : Leaves (fail e : Action ι α) := fun _ => rfl

theorem bind_of_ok {x : Action ι α} {f : α → Action ι β} {scopes after : Scopes ι} {a : α}
    (run : x scopes = (.ok a, after)) : (x >>= f) scopes = f a after := by
  change Action.bind x f scopes = _
  unfold Action.bind
  rw [run]

theorem bind_of_error {x : Action ι α} {f : α → Action ι β} {scopes after : Scopes ι} {e : Error}
    (run : x scopes = (.error e, after)) : (x >>= f) scopes = (.error e, after) := by
  change Action.bind x f scopes = _
  unfold Action.bind
  rw [run]

theorem bind_ok_iff {x : Action ι α} {f : α → Action ι β} {scopes after : Scopes ι} {b : β} :
    (x >>= f) scopes = (.ok b, after) ↔
      ∃ a middle, x scopes = (.ok a, middle) ∧ f a middle = (.ok b, after) := by
  constructor
  · intro run
    cases first : x scopes with
    | mk result middle =>
      cases result with
      | ok a => exact ⟨a, middle, rfl, by rwa [bind_of_ok first] at run⟩
      | error e => rw [bind_of_error first] at run; cases run
  · rintro ⟨a, middle, first, next⟩
    rw [bind_of_ok first, next]

instance : LawfulMonad (Action ι) :=
  LawfulMonad.mk' (Action ι)
    (by
      intro α x
      funext scopes
      change Action.bind x _ scopes = x scopes
      unfold Action.bind
      rcases x scopes with ⟨_ | _, _⟩ <;> rfl)
    (fun _ _ => rfl)
    (by
      intro α β γ x f g
      funext scopes
      change Action.bind (Action.bind x f) g scopes =
        Action.bind x (fun a => Action.bind (f a) g) scopes
      unfold Action.bind
      rcases x scopes with ⟨_ | _, _⟩ <;> rfl)

theorem leaves_bind {x : Action ι α} {f : α → Action ι β} (hx : Leaves x)
    (hf : ∀ a, Leaves (f a)) : Leaves (x >>= f) := by
  intro scopes
  have same := hx scopes
  cases first : x scopes with
  | mk result middle =>
    rw [first] at same
    subst same
    cases result with
    | ok a => rw [bind_of_ok first]; exact hf a middle
    | error e => rw [bind_of_error first]

theorem leavesOuter_bind {x : Action ι α} {f : α → Action ι β} (hx : LeavesOuter x)
    (hf : ∀ a, LeavesOuter (f a)) : LeavesOuter (x >>= f) := by
  intro s outer
  obtain ⟨t, same⟩ := hx s outer
  cases first : x (s :: outer) with
  | mk result middle =>
    rw [first] at same
    subst same
    cases result with
    | ok a => rw [bind_of_ok first]; exact hf a t outer
    | error e => rw [bind_of_error first]; exact ⟨t, rfl⟩

theorem inScope_of_leavesOuter {x : Action ι α} (h : LeavesOuter x) (scopes : Scopes ι) :
    inScope x scopes = ((x (Scope.empty :: scopes)).1, scopes) := by
  obtain ⟨t, same⟩ := h Scope.empty scopes
  unfold inScope
  cases run : x (Scope.empty :: scopes) with
  | mk result after =>
    rw [run] at same
    subst same
    rfl

theorem leaves_inScope {x : Action ι α} (h : LeavesOuter x) : Leaves (inScope x) := by
  intro scopes
  rw [inScope_of_leavesOuter h]

theorem inScope_ok_iff {x : Action ι α} (h : LeavesOuter x) {scopes after : Scopes ι} {a : α} :
    inScope x scopes = (.ok a, after) ↔
      after = scopes ∧ ∃ t, x (Scope.empty :: scopes) = (.ok a, t :: scopes) := by
  obtain ⟨t, same⟩ := h Scope.empty scopes
  rw [inScope_of_leavesOuter h]
  constructor
  · intro run
    obtain ⟨result, rfl⟩ := Prod.mk.inj run
    exact ⟨rfl, t, Prod.ext result same⟩
  · rintro ⟨rfl, t, run⟩
    rw [run]

theorem leavesOuter_declareVar (decl : Declaration) (info : ι) :
    LeavesOuter (update (Scopes.declareVar decl info)) := by
  intro s outer
  cases found : s.findVar decl.name with
  | none => exact ⟨_, by simp only [update, Scopes.declareVar, found]; rfl⟩
  | some b => exact ⟨s, by simp only [update, Scopes.declareVar, found]⟩

theorem leavesOuter_declareFn (f : FnDecl) :
    LeavesOuter (update (Scopes.declareFn (α := ι) f)) := by
  intro s outer
  cases found : s.findFn f.name with
  | none => exact ⟨_, by simp only [update, Scopes.declareFn, found]; rfl⟩
  | some first => exact ⟨s, by simp only [update, Scopes.declareFn, found]⟩

end Action

namespace Expr

theorem infer_matchWith {pattern value : Expr} {span : Option Span}
    (other : ∀ name nameSpan, pattern ≠ var name nameSpan) :
    (matchWith pattern value span).infer = (do
      Action.inspect fun _ => pattern.requirePattern
      let expected ← pattern.infer
      let got ← value.infer
      if expected = got then pure .bool
      else reject (.mismatch (.exactly expected) got none) value.span) := by
  cases pattern with
  | var name nameSpan => exact absurd rfl (other name nameSpan)
  | _ => rfl

open TypedLet.Action

theorem leaves_reject (cause : TypeError) (span : Option Span) :
    Leaves (reject cause span : Check α) := leaves_fail _

theorem leaves_requireCondition (t : Ty) (span : Option Span) :
    Leaves (requireCondition t span) := by
  unfold requireCondition
  split
  · exact leaves_pure ()
  · exact leaves_reject _ _

theorem leaves_requireInteger (t : Ty) (span : Option Span) :
    Leaves (requireInteger t span) := by
  unfold requireInteger
  split
  · exact leaves_pure ()
  · exact leaves_reject _ _

theorem leaves_inferAssign (name : String) (nameSpan : Option Span) (got : Ty)
    (valueSpan : Option Span) : Leaves (inferAssign name nameSpan got valueSpan) := by
  apply leaves_bind (leaves_inspect _)
  intro binding
  split
  · exact leaves_pure got
  · exact leaves_reject _ _

theorem leaves_inferBuiltin (b : Builtin) (types : List Ty) (span : Option Span) :
    Leaves (inferBuiltin b types span) := by
  unfold inferBuiltin
  split
  · exact leaves_pure _
  · exact leaves_reject _ _

theorem leaves_inferCall (name : String) (types : List Ty) (span : Option Span) :
    Leaves (inferCall name types span) := by
  apply leaves_bind (leaves_inspect _)
  intro found
  cases found with
  | some f =>
    dsimp only
    split
    · exact leaves_pure _
    · exact leaves_reject _ _
  | none =>
    dsimp only
    split
    · exact leaves_inferBuiltin _ _ _
    · exact leaves_inspect _

theorem leaves_requireItems (element : Ty) (origin : ElementOrigin) (originSpan : Option Span) :
    ∀ (index : Nat) (es : List Expr) (ts : List Ty),
      Leaves (requireItems element origin originSpan index es ts) := by
  intro index es
  induction es generalizing index with
  | nil => intro ts; exact leaves_pure ()
  | cons e es ih =>
    intro ts
    cases ts with
    | nil => exact leaves_pure ()
    | cons t ts =>
      rw [requireItems]
      split
      · exact ih (index + 1) ts
      · exact leaves_reject _ _

theorem leavesOuter_declareFns (fns : List FnDecl) : LeavesOuter (declareFns fns) := by
  induction fns with
  | nil => exact leavesOuter_of_leaves (leaves_pure ())
  | cons f fs ih => exact leavesOuter_bind (leavesOuter_declareFn f) fun _ => ih

theorem leavesOuter_declareArgs (args : List ArgDecl) : LeavesOuter (declareArgs args) := by
  induction args with
  | nil => exact leavesOuter_of_leaves (leaves_pure ())
  | cons a as ih => exact leavesOuter_bind (leavesOuter_declareVar _ _) fun _ => ih

mutual
theorem leaves_infer : ∀ e : Expr, Leaves e.infer
  | literal v _ => leaves_pure _
  | var name span => leaves_bind (leaves_inspect _) fun _ => leaves_pure _
  | group body _ => leaves_bind (leaves_inferAll body) fun _ => leaves_pure _
  | letIn vars fns body _ => by
    apply leaves_inScope
    apply leavesOuter_bind (leavesOuter_checkVars vars)
    intro _
    apply leavesOuter_bind (leavesOuter_declareFns fns)
    intro _
    apply leavesOuter_of_leaves
    apply leaves_bind (leaves_checkFns fns)
    intro _
    exact leaves_bind (leaves_inferAll body) fun _ => leaves_pure _
  | assign name value nameSpan _ =>
    leaves_bind (leaves_infer value) fun _ => leaves_inferAssign _ _ _ _
  | matchWith pattern value _ => by
    by_cases named : ∃ name nameSpan, pattern = var name nameSpan
    · obtain ⟨name, nameSpan, rfl⟩ := named
      apply leaves_bind (leaves_inspect _)
      intro _
      apply leaves_bind (leaves_infer value)
      intro got
      exact leaves_bind (leaves_inferAssign _ _ _ _) fun _ => leaves_pure _
    · rw [infer_matchWith fun name nameSpan same => named ⟨name, nameSpan, same⟩]
      apply leaves_bind (leaves_inspect _)
      intro _
      apply leaves_bind (leaves_infer pattern)
      intro expected
      apply leaves_bind (leaves_infer value)
      intro got
      split
      · exact leaves_pure _
      · exact leaves_reject _ _
  | call name args span => leaves_bind (leaves_inferAll args) fun _ => leaves_inferCall _ _ _
  | ifElse cond whenTrue whenFalse _ => by
    apply leaves_bind (leaves_infer cond)
    intro c
    apply leaves_bind (leaves_requireCondition _ _)
    intro _
    apply leaves_bind (leaves_infer whenTrue)
    intro trueType
    apply leaves_bind (leaves_infer whenFalse)
    intro falseType
    split
    · exact leaves_pure _
    · exact leaves_reject _ _
  | whileDo cond body _ => by
    apply leaves_bind (leaves_infer cond)
    intro c
    apply leaves_bind (leaves_requireCondition _ _)
    intro _
    exact leaves_bind (leaves_infer body) fun _ => leaves_pure _
  | forTo ⟨name, start, declSpan⟩ goal body _ => by
    apply leaves_bind _ fun _ => leaves_pure _
    apply leaves_inScope
    apply leavesOuter_bind (leavesOuter_of_leaves (leaves_infer start))
    intro s
    apply leavesOuter_bind (leavesOuter_of_leaves (leaves_requireInteger _ _))
    intro _
    apply leavesOuter_bind (leavesOuter_of_leaves (leaves_infer goal))
    intro g
    apply leavesOuter_bind (leavesOuter_of_leaves (leaves_requireInteger _ _))
    intro _
    apply leavesOuter_bind (leavesOuter_declareVar _ _)
    intro _
    exact leavesOuter_of_leaves (leaves_bind (leaves_infer body) fun _ => leaves_pure _)
  | binary left op right span => by
    apply leaves_bind (leaves_infer left)
    intro leftType
    exact leaves_bind (leaves_infer right) fun _ => leaves_inferBuiltin _ _ _
  | unary op operand span =>
    leaves_bind (leaves_infer operand) fun _ => leaves_inferBuiltin _ _ _
  | cast operand target _ => by
    rw [infer]
    apply leaves_bind (leaves_infer operand)
    intro source
    split
    · exact leaves_pure _
    · exact leaves_reject _ _
  | array items (some element) elementSpan _ => by
    apply leaves_bind (leaves_inferAll items)
    intro types
    exact leaves_bind (leaves_requireItems _ _ _ _ _ _) fun _ => leaves_pure _
  | array items none _ span => by
    apply leaves_bind (leaves_inferAll items)
    intro types
    split
    · exact leaves_bind (leaves_requireItems _ _ _ _ _ _) fun _ => leaves_pure _
    · exact leaves_reject _ _
  | tuple items _ => leaves_bind (leaves_inferAll items) fun _ => leaves_pure _

theorem leaves_inferAll : ∀ es : List Expr, Leaves (inferAll es)
  | [] => leaves_pure []
  | e :: es =>
    leaves_bind (leaves_infer e) fun _ => leaves_bind (leaves_inferAll es) fun _ => leaves_pure _

theorem leavesOuter_checkVars : ∀ vars : List VarDecl, LeavesOuter (checkVars vars)
  | [] => leavesOuter_of_leaves (leaves_pure ())
  | ⟨name, value, span⟩ :: rest => by
    apply leavesOuter_bind (leavesOuter_of_leaves (leaves_infer value))
    intro type
    split
    · exact leavesOuter_of_leaves (leaves_reject _ _)
    · exact leavesOuter_bind (leavesOuter_declareVar _ _) fun _ => leavesOuter_checkVars rest

theorem leaves_checkFn : ∀ f : FnDecl, Leaves (checkFn f)
  | ⟨name, args, result, body, span⟩ => by
    apply leaves_bind _ fun _ => leaves_pure _
    apply leaves_inScope
    apply leavesOuter_bind (leavesOuter_declareArgs args)
    intro _
    apply leavesOuter_of_leaves
    apply leaves_bind (leaves_infer body)
    intro got
    split
    · exact leaves_pure _
    · exact leaves_reject _ _

theorem leaves_checkFns : ∀ fns : List FnDecl, Leaves (checkFns fns)
  | [] => leaves_pure ()
  | f :: fs => leaves_bind (leaves_checkFn f) fun _ => leaves_checkFns fs
end

section Inside

theorem leavesOuter_letScope (vars : List VarDecl) (fns : List FnDecl) (body : List Expr) :
    LeavesOuter (do
      checkVars vars
      declareFns fns
      checkFns fns
      let types ← inferAll body
      Pure.pure (rowType types)) := by
  apply leavesOuter_bind (leavesOuter_checkVars vars)
  intro _
  apply leavesOuter_bind (leavesOuter_declareFns fns)
  intro _
  apply leavesOuter_of_leaves
  apply leaves_bind (leaves_checkFns fns)
  intro _
  exact leaves_bind (leaves_inferAll body) fun _ => leaves_pure _

theorem leavesOuter_forScope (name : String) (start goal body : Expr) (declSpan : Option Span) :
    LeavesOuter (do
      requireInteger (← start.infer) start.span
      requireInteger (← goal.infer) goal.span
      Action.update (Scopes.declareVar (.var ⟨name, start, declSpan⟩) .integer)
      let _ ← body.infer) := by
  apply leavesOuter_bind (leavesOuter_of_leaves (leaves_infer start))
  intro s
  apply leavesOuter_bind (leavesOuter_of_leaves (leaves_requireInteger _ _))
  intro _
  apply leavesOuter_bind (leavesOuter_of_leaves (leaves_infer goal))
  intro g
  apply leavesOuter_bind (leavesOuter_of_leaves (leaves_requireInteger _ _))
  intro _
  apply leavesOuter_bind (leavesOuter_declareVar _ _)
  intro _
  exact leavesOuter_of_leaves (leaves_bind (leaves_infer body) fun _ => leaves_pure _)

theorem leavesOuter_fnScope (name : String) (args : List ArgDecl) (result : Ty) (body : Expr)
    (span : Option Span) :
    LeavesOuter (do
      declareArgs args
      let got ← body.infer
      if got = result then Pure.pure ()
      else
        reject (.mismatch (.exactly result) got (some (.fn ⟨name, args, result, body, span⟩)))
          body.span) := by
  apply leavesOuter_bind (leavesOuter_declareArgs args)
  intro _
  apply leavesOuter_of_leaves
  apply leaves_bind (leaves_infer body)
  intro got
  split
  · exact leaves_pure _
  · exact leaves_reject _ _

end Inside

end Expr

theorem Tree.leaves_infer : ∀ tree : Tree, Action.Leaves tree.infer
  | expr e => Expr.leaves_infer e
  | block body => Action.leaves_bind (Expr.leaves_inferAll body) fun _ => Action.leaves_pure _

end TypedLet
