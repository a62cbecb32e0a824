import Mathlib.Data.List.Forall2
import TypedLet.Expr

/-
Trees that differ in the order of their function declarations only. Any let may list its
functions in another order, wherever it stands: in a function body, in the value of a
variable, in a pattern. All else is the same, spans included, and the parts of the two
trees differ in the same way only.
-/
namespace TypedLet

namespace Expr

mutual

/-- The second expression is the first one with the functions of its lets in another order. -/
inductive Reordered : Expr → Expr → Prop
  | literal {v : Value} {span : Option Span} : Reordered (literal v span) (literal v span)
  | var {name : String} {span : Option Span} : Reordered (var name span) (var name span)
  | group {body body' : List Expr} {span : Option Span} (row : List.Forall₂ Reordered body body') :
      Reordered (group body span) (group body' span)
  | letIn {vars vars' : List VarDecl} {fns fns' same : List FnDecl} {body body' : List Expr}
      {span : Option Span} (values : List.Forall₂ ReorderedVar vars vars')
      (each : List.Forall₂ ReorderedFn fns same) (order : same.Perm fns')
      (row : List.Forall₂ Reordered body body') :
      Reordered (letIn vars fns body span) (letIn vars' fns' body' span)
  | assign {name : String} {value value' : Expr} {nameSpan span : Option Span}
      (new : Reordered value value') :
      Reordered (assign name value nameSpan span) (assign name value' nameSpan span)
  | matchWith {pattern pattern' value value' : Expr} {span : Option Span}
      (shape : Reordered pattern pattern') (candidate : Reordered value value') :
      Reordered (matchWith pattern value span) (matchWith pattern' value' span)
  | call {name : String} {args args' : List Expr} {span : Option Span}
      (given : List.Forall₂ Reordered args args') :
      Reordered (call name args span) (call name args' span)
  | ifElse {cond cond' whenTrue whenTrue' whenFalse whenFalse' : Expr} {span : Option Span}
      (test : Reordered cond cond') (first : Reordered whenTrue whenTrue')
      (second : Reordered whenFalse whenFalse') :
      Reordered (ifElse cond whenTrue whenFalse span) (ifElse cond' whenTrue' whenFalse' span)
  | whileDo {cond cond' body body' : Expr} {span : Option Span} (test : Reordered cond cond')
      (round : Reordered body body') : Reordered (whileDo cond body span) (whileDo cond' body' span)
  | forTo {loop loop' : VarDecl} {goal goal' body body' : Expr} {span : Option Span}
      (start : ReorderedVar loop loop') (bound : Reordered goal goal')
      (round : Reordered body body') :
      Reordered (forTo loop goal body span) (forTo loop' goal' body' span)
  | binary {left left' right right' : Expr} {op : BinaryOp} {span : Option Span}
      (first : Reordered left left') (second : Reordered right right') :
      Reordered (binary left op right span) (binary left' op right' span)
  | unary {operand operand' : Expr} {op : UnaryOp} {span : Option Span}
      (inner : Reordered operand operand') :
      Reordered (unary op operand span) (unary op operand' span)
  | cast {operand operand' : Expr} {target : Ty} {span : Option Span}
      (inner : Reordered operand operand') :
      Reordered (cast operand target span) (cast operand' target span)
  | array {items items' : List Expr} {element : Option Ty} {elementSpan span : Option Span}
      (each : List.Forall₂ Reordered items items') :
      Reordered (array items element elementSpan span) (array items' element elementSpan span)
  | tuple {items items' : List Expr} {span : Option Span}
      (each : List.Forall₂ Reordered items items') :
      Reordered (tuple items span) (tuple items' span)

inductive ReorderedVar : VarDecl → VarDecl → Prop
  | intro {name : String} {value value' : Expr} {span : Option Span}
      (new : Reordered value value') : ReorderedVar ⟨name, value, span⟩ ⟨name, value', span⟩

inductive ReorderedFn : FnDecl → FnDecl → Prop
  | intro {name : String} {args : List ArgDecl} {result : Ty} {body body' : Expr}
      {span : Option Span} (inner : Reordered body body') :
      ReorderedFn ⟨name, args, result, body, span⟩ ⟨name, args, result, body', span⟩

end

theorem ReorderedVar.value {d d' : VarDecl} (related : ReorderedVar d d') :
    Reordered d.value d'.value := by
  obtain ⟨inner⟩ := related
  exact inner

theorem ReorderedVar.name_eq {d d' : VarDecl} (related : ReorderedVar d d') :
    d.name = d'.name := by
  cases related
  rfl

theorem ReorderedFn.name_eq {f f' : FnDecl} (related : ReorderedFn f f') : f.name = f'.name := by
  cases related
  rfl

mutual
theorem reordered_refl : ∀ e : Expr, Reordered e e
  | literal _ _ => .literal
  | var _ _ => .var
  | group body _ => .group (allReordered_refl body)
  | letIn vars fns body _ =>
    .letIn (varsReordered_refl vars) (fnsReordered_refl fns) (.refl fns) (allReordered_refl body)
  | assign _ value _ _ => .assign (reordered_refl value)
  | matchWith pattern value _ => .matchWith (reordered_refl pattern) (reordered_refl value)
  | call _ args _ => .call (allReordered_refl args)
  | ifElse cond whenTrue whenFalse _ =>
    .ifElse (reordered_refl cond) (reordered_refl whenTrue) (reordered_refl whenFalse)
  | whileDo cond body _ => .whileDo (reordered_refl cond) (reordered_refl body)
  | forTo ⟨_, start, _⟩ goal body _ =>
    .forTo (.intro (reordered_refl start)) (reordered_refl goal) (reordered_refl body)
  | binary left _ right _ => .binary (reordered_refl left) (reordered_refl right)
  | unary _ operand _ => .unary (reordered_refl operand)
  | cast operand _ _ => .cast (reordered_refl operand)
  | array items _ _ _ => .array (allReordered_refl items)
  | tuple items _ => .tuple (allReordered_refl items)
theorem allReordered_refl : ∀ es : List Expr, List.Forall₂ Reordered es es
  | [] => .nil
  | e :: es => .cons (reordered_refl e) (allReordered_refl es)
theorem varsReordered_refl : ∀ vars : List VarDecl, List.Forall₂ ReorderedVar vars vars
  | [] => .nil
  | ⟨_, value, _⟩ :: rest => .cons (.intro (reordered_refl value)) (varsReordered_refl rest)
theorem fnsReordered_refl : ∀ fns : List FnDecl, List.Forall₂ ReorderedFn fns fns
  | [] => .nil
  | ⟨_, _, _, body, _⟩ :: rest => .cons (.intro (reordered_refl body)) (fnsReordered_refl rest)
end

theorem reorderedFn_refl : ∀ f : FnDecl, ReorderedFn f f
  | ⟨_, _, _, body, _⟩ => .intro (reordered_refl body)

theorem names_eq_of_varsReordered {vars vars' : List VarDecl}
    (each : List.Forall₂ ReorderedVar vars vars') :
    vars.map VarDecl.name = vars'.map VarDecl.name := by
  induction each with
  | nil => rfl
  | cons first _ ih => rw [List.map_cons, List.map_cons, first.name_eq, ih]

theorem names_eq_of_fnsReordered {fns fns' : List FnDecl}
    (each : List.Forall₂ ReorderedFn fns fns') :
    fns.map FnDecl.name = fns'.map FnDecl.name := by
  induction each with
  | nil => rfl
  | cons first _ ih => rw [List.map_cons, List.map_cons, first.name_eq, ih]

theorem names_differ {f g : FnDecl} {fns : List FnDecl}
    (once : ((f :: g :: fns).map FnDecl.name).Nodup) : f.name ≠ g.name := by
  intro same
  rw [List.map_cons, List.map_cons, same] at once
  exact (List.nodup_cons.mp once).1 List.mem_cons_self

theorem find?_of_perm {fns fns' : List FnDecl} (order : fns.Perm fns')
    (once : (fns.map FnDecl.name).Nodup) (name : String) :
    fns.find? (·.name = name) = fns'.find? (·.name = name) := by
  induction order with
  | nil => rfl
  | cons f _ ih =>
    rw [List.map_cons, List.nodup_cons] at once
    rw [List.find?_cons, List.find?_cons, ih once.2]
  | swap f g fs =>
    have differ := names_differ once
    rw [List.find?_cons, List.find?_cons, List.find?_cons, List.find?_cons]
    by_cases here : g.name = name
    · have other : f.name ≠ name := fun same => differ (here.trans same.symm)
      simp [here, other]
    · simp [here]
  | trans first next ih ih' =>
    have later := (first.map FnDecl.name).nodup_iff.mp once
    rw [ih once, ih' later]

/-- In either order a name stands for the same function, up to the order inside of it. -/
theorem rel_find?_of_reordered {fns fns' same : List FnDecl}
    (each : List.Forall₂ ReorderedFn fns same) (order : same.Perm fns')
    (once : (fns.map FnDecl.name).Nodup) (name : String) :
    Option.Rel ReorderedFn (fns.find? (·.name = name)) (fns'.find? (·.name = name)) := by
  rw [names_eq_of_fnsReordered each] at once
  rw [← find?_of_perm order once]
  clear order once
  induction each with
  | nil => exact .none
  | cons first _ ih =>
    rw [List.find?_cons, List.find?_cons, first.name_eq]
    split
    · exact .some first
    · exact ih

end Expr

inductive Tree.Reordered : Tree → Tree → Prop
  | expr {e e' : Expr} (inner : e.Reordered e') : Reordered (.expr e) (.expr e')
  | block {body body' : List Expr} (row : List.Forall₂ Expr.Reordered body body') :
      Reordered (.block body) (.block body')

end TypedLet
