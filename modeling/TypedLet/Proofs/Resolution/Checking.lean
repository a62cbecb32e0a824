import TypedLet.Proofs.Checking.Leaves
import TypedLet.Proofs.Resolution.Visit

/-
The checker with a record of its lookups. It is the checker, told where in the tree it
stands and which places opened the scopes. It looks names up by locating them, notes what
it has located and goes on with that and with nothing else of the scopes. Forgetting the
record gives back the checker. Lookups that come before an error are recorded as well.

The parts of an expression are numbered in the order in which they are written. Under a
let at a place, step 0 leads to its variables, step 1 to its functions and step 2 to its
body; under a function step 0 leads to its arguments and step 1 to its body; the variable
of a for loop stands where the first variable of a let would.
-/
namespace TypedLet

def Watched (ι α : Type) := Scopes ι → (Except Error α × Scopes ι) × List Visit

namespace Watched

def erase (x : Watched ι α) : Action ι α := fun scopes => (x scopes).1

def visits (x : Watched ι α) (scopes : Scopes ι) : List Visit := (x scopes).2

def lift (x : Action ι α) : Watched ι α := fun scopes => (x scopes, [])

/-- Looks something up, notes what is found and hands it on. -/
def look (place : Place) (seek : Scopes ι → β) (found : β → Found) : Watched ι β := fun scopes =>
  ((.ok (seek scopes), scopes), [⟨place, found (seek scopes)⟩])

def lookVar (openers : List Place) (place : Place) (name : String) :
    Watched ι (Option (Spot (Binding ι))) :=
  look place (Scopes.locateVar name) (Found.ofVar openers)

def lookCallee (openers : List Place) (place : Place) (name : String) : Watched ι Callee :=
  look place (Scopes.callee name) (Found.ofCallee openers)

protected def pure (a : α) : Watched ι α := lift (Action.pure a)

protected def bind (x : Watched ι α) (f : α → Watched ι β) : Watched ι β := fun scopes =>
  match x scopes with
  | ((.ok a, after), seen) => ((f a).erase after, seen ++ (f a).visits after)
  | ((.error e, after), seen) => ((.error e, after), seen)

instance : Monad (Watched ι) where
  pure := Watched.pure
  bind := Watched.bind

def inScope (x : Watched ι α) : Watched ι α := fun scopes =>
  (Action.inScope x.erase scopes, x.visits (Scope.empty :: scopes))

@[simp] theorem erase_lift (x : Action ι α) : (lift x).erase = x := rfl

@[simp] theorem erase_pure (a : α) : (Pure.pure a : Watched ι α).erase = Pure.pure a := rfl

@[simp] theorem erase_inScope (x : Watched ι α) : (inScope x).erase = Action.inScope x.erase := rfl

@[simp] theorem erase_bind (x : Watched ι α) (f : α → Watched ι β) :
    (x >>= f).erase = x.erase >>= fun a => (f a).erase := by
  funext scopes
  change (Watched.bind x f scopes).1 = Action.bind x.erase (fun a => (f a).erase) scopes
  unfold Watched.bind Action.bind erase
  cases x scopes with
  | mk run seen =>
    obtain ⟨result, after⟩ := run
    cases result <;> rfl

end Watched

namespace Expr

open Watched (lift lookVar lookCallee)
open Scopes

section

variable (openers : List Place)

def located (name : String) (span : Option Span) : Option (Spot (Binding Ty)) → Check (Binding Ty)
  | some spot => pure spot.item
  | none => Action.inspect fun scopes =>
      .error (.typing (.unboundVariable name (visibleVars scopes)) span)

def watchVar (place : Place) (name : String) (span : Option Span) : Watched Ty (Binding Ty) := do
  let spot ← lookVar openers place name
  lift (located name span spot)

def watchAssign (place : Place) (name : String) (nameSpan : Option Span) (got : Ty)
    (valueSpan : Option Span) : Watched Ty Ty := do
  let binding ← watchVar openers place name nameSpan
  lift (if binding.info = got then pure got
    else reject (.mismatch (.exactly binding.info) got (some binding.decl)) valueSpan)

def inferCallee (name : String) (types : List Ty) (span : Option Span) : Callee → Check Ty
  | .fn spot =>
    match spot.item.resultFor types with
    | some result => pure result
    | none => reject (.noSuchSignature name types) span
  | .builtin b => inferBuiltin b types span
  | .unknown => Action.inspect fun scopes =>
      .error (.typing (.undefinedFunction name (visibleFns scopes)) span)

def watchCall (place : Place) (name : String) (types : List Ty) (span : Option Span) :
    Watched Ty Ty := do
  let callee ← lookCallee openers place name
  lift (inferCallee name types span callee)

end

mutual

def watch (openers : List Place) (place : Place) : Expr → Watched Ty Ty
  | literal v span => lift (literal v span).infer
  | var name span => do
    let binding ← watchVar openers place name span
    pure binding.info
  | group body _ => do
    let types ← watchAll openers place 0 body
    pure (rowType types)
  | letIn vars fns body _ => Watched.inScope do
    watchVars (openers ++ [place]) (0 :: place) 0 vars
    lift (declareFns fns)
    watchFns (openers ++ [place]) (1 :: place) 0 fns
    let types ← watchAll (openers ++ [place]) (2 :: place) 0 body
    pure (rowType types)
  | assign name value nameSpan _ => do
    let got ← watch openers (0 :: place) value
    watchAssign openers place name nameSpan got value.span
  | matchWith pattern value _ => do
    lift (Action.inspect fun _ => pattern.requirePattern)
    match pattern with
    | var name nameSpan =>
      let got ← watch openers (1 :: place) value
      let _ ← watchAssign openers (0 :: place) name nameSpan got value.span
      pure .bool
    | pattern =>
      let expected ← watch openers (0 :: place) pattern
      let got ← watch openers (1 :: place) value
      lift (if expected = got then Pure.pure .bool
        else reject (.mismatch (.exactly expected) got none) value.span)
  | call name args span => do
    let types ← watchAll openers place 0 args
    watchCall openers place name types span
  | ifElse cond whenTrue whenFalse _ => do
    let c ← watch openers (0 :: place) cond
    lift (requireCondition c cond.span)
    let trueType ← watch openers (1 :: place) whenTrue
    let falseType ← watch openers (2 :: place) whenFalse
    lift (if trueType = falseType then Pure.pure trueType
      else reject (.armMismatch trueType falseType whenTrue.span) whenFalse.span)
  | whileDo cond body _ => do
    let c ← watch openers (0 :: place) cond
    lift (requireCondition c cond.span)
    let _ ← watch openers (1 :: place) body
    pure .void
  | forTo ⟨name, start, declSpan⟩ goal body _ => do
    Watched.inScope do
      let s ← watch (openers ++ [place]) (0 :: 0 :: 0 :: place) start
      lift (requireInteger s start.span)
      let g ← watch (openers ++ [place]) (1 :: place) goal
      lift (requireInteger g goal.span)
      lift (Action.update (declareVar (.var ⟨name, start, declSpan⟩) .integer))
      let _ ← watch (openers ++ [place]) (2 :: place) body
    pure .void
  | binary left op right span => do
    let leftType ← watch openers (0 :: place) left
    let rightType ← watch openers (1 :: place) right
    lift (inferBuiltin (.binary op) [leftType, rightType] span)
  | unary op operand span => do
    let type ← watch openers (0 :: place) operand
    lift (inferBuiltin (.unary op) [type] span)
  | cast operand target _ => do
    let source ← watch openers (0 :: place) operand
    lift (if source.castsTo target then Pure.pure target
      else reject (.conversion source target) operand.span)
  | array items (some element) elementSpan _ => do
    let types ← watchAll openers place 0 items
    lift do
      requireItems element .declared elementSpan 0 items types
      Pure.pure (.array element)
  | array items none _ span => do
    let types ← watchAll openers place 0 items
    lift (match items, types with
      | first :: _, element :: _ => do
        requireItems element .firstItem first.span 0 items types
        Pure.pure (.array element)
      | _, _ => reject .untypedEmptyArray span)
  | tuple items _ => do
    let types ← watchAll openers place 0 items
    pure (.tuple types)

def watchAll (openers : List Place) (place : Place) (index : Nat) :
    List Expr → Watched Ty (List Ty)
  | [] => pure []
  | e :: es => do
    let type ← watch openers (index :: place) e
    let types ← watchAll openers place (index + 1) es
    pure (type :: types)

def watchVars (openers : List Place) (place : Place) (index : Nat) :
    List VarDecl → Watched Ty Unit
  | [] => pure ()
  | ⟨name, value, span⟩ :: rest => do
    let type ← watch openers (0 :: index :: place) value
    lift (if type = .void then reject (.voidVariable name) value.span
      else Action.update (declareVar (.var ⟨name, value, span⟩) type))
    watchVars openers place (index + 1) rest

def watchFn (openers : List Place) (place : Place) : FnDecl → Watched Ty Ty
  | ⟨name, args, result, body, span⟩ => do
    Watched.inScope do
      lift (declareArgs args)
      let got ← watch (openers ++ [place]) (1 :: place) body
      lift (if got = result then Pure.pure ()
        else
          reject (.mismatch (.exactly result) got (some (.fn ⟨name, args, result, body, span⟩)))
            body.span)
    pure result

def watchFns (openers : List Place) (place : Place) (index : Nat) :
    List FnDecl → Watched Ty Unit
  | [] => pure ()
  | f :: fs => do
    let _ ← watchFn openers (index :: place) f
    watchFns openers place (index + 1) fs

end

theorem watch_matchWith {openers : List Place} {place : Place} {pattern value : Expr}
    {span : Option Span} (other : ∀ name nameSpan, pattern ≠ var name nameSpan) :
    watch openers place (matchWith pattern value span) = (do
      lift (Action.inspect fun _ => pattern.requirePattern)
      let expected ← watch openers (0 :: place) pattern
      let got ← watch openers (1 :: place) value
      lift (if expected = got then Pure.pure .bool
        else reject (.mismatch (.exactly expected) got none) value.span)) := by
  cases pattern with
  | var name nameSpan => exact absurd rfl (other name nameSpan)
  | _ => rfl

/-- What is located is what the lookup of the checker finds. -/
theorem erase_watchVar (openers : List Place) (place : Place) (name : String)
    (span : Option Span) :
    (watchVar openers place name span).erase = Action.inspect (·.lookupVar name span) := by
  funext scopes
  change located name span (scopes.locateVar name) scopes = _
  rw [Action.inspect, lookupVar, findVar_eq_locate]
  cases scopes.locateVar name <;> rfl

theorem erase_watchAssign (openers : List Place) (place : Place) (name : String)
    (nameSpan : Option Span) (got : Ty) (valueSpan : Option Span) :
    (watchAssign openers place name nameSpan got valueSpan).erase =
      inferAssign name nameSpan got valueSpan := by
  rw [watchAssign, inferAssign, Watched.erase_bind, erase_watchVar]
  rfl

theorem erase_watchCall (openers : List Place) (place : Place) (name : String)
    (types : List Ty) (span : Option Span) :
    (watchCall openers place name types span).erase = inferCall name types span := by
  funext scopes
  have look :
      (Action.inspect fun scopes => .ok (findFn scopes name) : Check (Option FnDecl)) scopes =
        (.ok ((scopes.locateFn name).map (·.item)), scopes) := by
    rw [Action.inspect, findFn, resolveFn_eq_locate, Option.map_map]
    rfl
  change inferCallee name types span (scopes.callee name) scopes = inferCall name types span scopes
  rw [inferCall, Action.bind_of_ok look, callee]
  cases scopes.locateFn name with
  | some spot => rfl
  | none => cases Builtin.find? name <;> rfl

theorem ite_reject_bind (c : Prop) [Decidable c] (cause : TypeError) (span : Option Span)
    (x : Check Unit) (f : Unit → Check Unit) :
    (if c then reject cause span else x) >>= f = if c then reject cause span else x >>= f := by
  split <;> rfl

mutual
theorem erase_watch : ∀ (e : Expr) (openers : List Place) (place : Place),
    (watch openers place e).erase = e.infer
  | literal v _, openers, place => rfl
  | var name span, openers, place => by
    simp only [watch, infer, Watched.erase_bind, Watched.erase_pure, erase_watchVar]
  | group body _, openers, place => by
    simp only [watch, infer, Watched.erase_bind, Watched.erase_pure, erase_watchAll body]
  | letIn vars fns body _, openers, place => by
    simp only [watch, infer, Watched.erase_inScope, Watched.erase_bind, Watched.erase_pure,
      Watched.erase_lift, erase_watchVars vars, erase_watchFns fns, erase_watchAll body]
  | assign name value nameSpan _, openers, place => by
    simp only [watch, infer, Watched.erase_bind, erase_watchAssign, erase_watch value]
  | matchWith pattern value span, openers, place => by
    by_cases named : ∃ name nameSpan, pattern = var name nameSpan
    · obtain ⟨name, nameSpan, rfl⟩ := named
      simp only [watch, infer, Watched.erase_bind, Watched.erase_pure, Watched.erase_lift,
        erase_watchAssign, erase_watch value]
    · have other : ∀ name nameSpan, pattern ≠ var name nameSpan := by
        intro name nameSpan same
        exact named ⟨name, nameSpan, same⟩
      rw [watch_matchWith other, infer_matchWith other]
      simp only [Watched.erase_bind, Watched.erase_lift, erase_watch pattern, erase_watch value]
  | call name args span, openers, place => by
    simp only [watch, infer, Watched.erase_bind, erase_watchCall, erase_watchAll args]
  | ifElse cond whenTrue whenFalse _, openers, place => by
    simp only [watch, infer, Watched.erase_bind, Watched.erase_lift, erase_watch cond,
      erase_watch whenTrue, erase_watch whenFalse]
  | whileDo cond body _, openers, place => by
    simp only [watch, infer, Watched.erase_bind, Watched.erase_lift, Watched.erase_pure,
      erase_watch cond, erase_watch body]
  | forTo ⟨name, start, declSpan⟩ goal body _, openers, place => by
    simp only [watch, infer, Watched.erase_bind, Watched.erase_inScope, Watched.erase_lift,
      Watched.erase_pure, erase_watch start, erase_watch goal, erase_watch body]
  | binary left op right span, openers, place => by
    simp only [watch, infer, Watched.erase_bind, Watched.erase_lift, erase_watch left,
      erase_watch right]
  | unary op operand span, openers, place => by
    simp only [watch, infer, Watched.erase_bind, Watched.erase_lift, erase_watch operand]
  | cast operand target _, openers, place => by
    simp only [watch, infer, Watched.erase_bind, Watched.erase_lift, erase_watch operand]
  | array items (some element) elementSpan _, openers, place => by
    simp only [watch, infer, Watched.erase_bind, Watched.erase_lift, erase_watchAll items]
  | array items none _ span, openers, place =>
    (Watched.erase_bind _ _).trans (congrArg (· >>= _) (erase_watchAll items openers place 0))
  | tuple items _, openers, place => by
    simp only [watch, infer, Watched.erase_bind, Watched.erase_pure, erase_watchAll items]

theorem erase_watchAll : ∀ (es : List Expr) (openers : List Place) (place : Place) (index : Nat),
    (watchAll openers place index es).erase = inferAll es
  | [], openers, place, index => rfl
  | e :: es, openers, place, index => by
    simp only [watchAll, inferAll, Watched.erase_bind, Watched.erase_pure, erase_watch e,
      erase_watchAll es]

theorem erase_watchVars : ∀ (vars : List VarDecl) (openers : List Place) (place : Place)
    (index : Nat), (watchVars openers place index vars).erase = checkVars vars
  | [], openers, place, index => rfl
  | ⟨name, value, span⟩ :: rest, openers, place, index => by
    simp only [watchVars, checkVars, Watched.erase_bind, Watched.erase_lift, erase_watch value,
      erase_watchVars rest, ite_reject_bind]

theorem erase_watchFn : ∀ (f : FnDecl) (openers : List Place) (place : Place),
    (watchFn openers place f).erase = checkFn f
  | ⟨name, args, result, body, span⟩, openers, place => by
    simp only [watchFn, checkFn, Watched.erase_bind, Watched.erase_inScope, Watched.erase_lift,
      Watched.erase_pure, erase_watch body]

theorem erase_watchFns : ∀ (fns : List FnDecl) (openers : List Place) (place : Place)
    (index : Nat), (watchFns openers place index fns).erase = checkFns fns
  | [], openers, place, index => rfl
  | f :: fs, openers, place, index => by
    simp only [watchFns, checkFns, Watched.erase_bind, erase_watchFn f, erase_watchFns fs]
end

theorem leaves_watch (e : Expr) (openers : List Place) (place : Place) :
    Action.Leaves (watch openers place e).erase := by
  rw [erase_watch]
  exact leaves_infer e

theorem leaves_watchAll (es : List Expr) (openers : List Place) (place : Place) (index : Nat) :
    Action.Leaves (watchAll openers place index es).erase := by
  rw [erase_watchAll]
  exact leaves_inferAll es

theorem leaves_watchFn (f : FnDecl) (openers : List Place) (place : Place) :
    Action.Leaves (watchFn openers place f).erase := by
  rw [erase_watchFn]
  exact leaves_checkFn f

theorem leaves_watchFns (fns : List FnDecl) (openers : List Place) (place : Place) (index : Nat) :
    Action.Leaves (watchFns openers place index fns).erase := by
  rw [erase_watchFns]
  exact leaves_checkFns fns

end Expr

namespace Tree

def watch : Tree → Watched Ty Ty
  | expr e => e.watch [] []
  | block body => do
    let types ← Expr.watchAll [] [] 0 body
    pure (Expr.rowType types)

theorem erase_watch : ∀ tree : Tree, tree.watch.erase = tree.infer
  | expr e => Expr.erase_watch e [] []
  | block body => by
    simp only [watch, infer, Watched.erase_bind, Watched.erase_pure, Expr.erase_watchAll body]

def lookups (tree : Tree) : List Visit := tree.watch.visits []

end Tree
end TypedLet
