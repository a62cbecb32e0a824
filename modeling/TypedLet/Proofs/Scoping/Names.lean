import TypedLet.Expr

/-
The names that an expression uses as variables: those it reads, assigns, matches or
declares, those of its loops and of the arguments and bodies of its functions included.
An expression avoids some names when it uses none of them as a variable; it may still
call functions that do.
-/
namespace TypedLet

namespace Expr

mutual
def varNames : Expr → List String
  | literal _ _ => []
  | var name _ => [name]
  | group body _ => varNamesAll body
  | letIn vars fns body _ => varNamesVars vars ++ varNamesFns fns ++ varNamesAll body
  | assign name value _ _ => name :: value.varNames
  | matchWith pattern value _ => pattern.varNames ++ value.varNames
  | call _ args _ => varNamesAll args
  | ifElse cond whenTrue whenFalse _ =>
    cond.varNames ++ whenTrue.varNames ++ whenFalse.varNames
  | whileDo cond body _ => cond.varNames ++ body.varNames
  | forTo ⟨name, start, _⟩ goal body _ =>
    name :: start.varNames ++ goal.varNames ++ body.varNames
  | binary left _ right _ => left.varNames ++ right.varNames
  | unary _ operand _ => operand.varNames
  | cast operand _ _ => operand.varNames
  | array items _ _ _ => varNamesAll items
  | tuple items _ => varNamesAll items
def varNamesAll : List Expr → List String
  | [] => []
  | e :: es => e.varNames ++ varNamesAll es
def varNamesVars : List VarDecl → List String
  | [] => []
  | ⟨name, value, _⟩ :: rest => name :: value.varNames ++ varNamesVars rest
def varNamesFns : List FnDecl → List String
  | [] => []
  | ⟨_, args, _, body, _⟩ :: rest => args.map (·.name) ++ body.varNames ++ varNamesFns rest
end

variable (P : String → Prop)

def Avoids (e : Expr) : Prop := ∀ n ∈ e.varNames, ¬ P n

def AllAvoid (es : List Expr) : Prop := ∀ e ∈ es, Avoids P e

def VarsAvoid (vars : List VarDecl) : Prop := ∀ d ∈ vars, ¬ P d.name ∧ Avoids P d.value

def FnAvoids (f : FnDecl) : Prop := (∀ a ∈ f.args, ¬ P a.name) ∧ Avoids P f.body

variable {P}

theorem forall_varNamesAll {es : List Expr} :
    (∀ n ∈ varNamesAll es, ¬ P n) ↔ AllAvoid P es := by
  induction es with
  | nil => simp [varNamesAll, AllAvoid]
  | cons e es ih =>
    unfold AllAvoid at ih ⊢
    rw [varNamesAll, List.forall_mem_append, List.forall_mem_cons, ih]
    rfl

theorem forall_varNamesVars {vars : List VarDecl} :
    (∀ n ∈ varNamesVars vars, ¬ P n) ↔ VarsAvoid P vars := by
  induction vars with
  | nil => simp [varNamesVars, VarsAvoid]
  | cons d ds ih =>
    obtain ⟨name, value, span⟩ := d
    unfold VarsAvoid at ih ⊢
    rw [varNamesVars, List.forall_mem_append, List.forall_mem_cons, List.forall_mem_cons, ih]
    rfl

theorem forall_varNamesFns {fns : List FnDecl} :
    (∀ n ∈ varNamesFns fns, ¬ P n) ↔ ∀ f ∈ fns, FnAvoids P f := by
  induction fns with
  | nil => simp [varNamesFns]
  | cons f fs ih =>
    obtain ⟨name, args, result, body, span⟩ := f
    rw [varNamesFns, List.forall_mem_append, List.forall_mem_append, List.forall_mem_map,
      List.forall_mem_cons, ih]
    rfl

section Forms

variable {span nameSpan elementSpan : Option Span} {name : String} {e e' e'' : Expr}
  {es : List Expr}

theorem avoids_var : Avoids P (var name span) ↔ ¬ P name := List.forall_mem_singleton

theorem avoids_group : Avoids P (group es span) ↔ AllAvoid P es := forall_varNamesAll

theorem avoids_letIn {vars : List VarDecl} {fns : List FnDecl} :
    Avoids P (letIn vars fns es span) ↔
      VarsAvoid P vars ∧ (∀ f ∈ fns, FnAvoids P f) ∧ AllAvoid P es := by
  change (∀ n ∈ varNamesVars vars ++ varNamesFns fns ++ varNamesAll es, ¬ P n) ↔ _
  rw [List.forall_mem_append, List.forall_mem_append, forall_varNamesVars,
    forall_varNamesFns, forall_varNamesAll, and_assoc]

theorem avoids_assign : Avoids P (assign name e nameSpan span) ↔ ¬ P name ∧ Avoids P e :=
  List.forall_mem_cons

theorem avoids_matchWith : Avoids P (matchWith e e' span) ↔ Avoids P e ∧ Avoids P e' :=
  List.forall_mem_append

theorem avoids_call : Avoids P (call name es span) ↔ AllAvoid P es := forall_varNamesAll

theorem avoids_ifElse :
    Avoids P (ifElse e e' e'' span) ↔ Avoids P e ∧ Avoids P e' ∧ Avoids P e'' := by
  change (∀ n ∈ e.varNames ++ e'.varNames ++ e''.varNames, ¬ P n) ↔ _
  rw [List.forall_mem_append, List.forall_mem_append, and_assoc]
  rfl

theorem avoids_whileDo : Avoids P (whileDo e e' span) ↔ Avoids P e ∧ Avoids P e' :=
  List.forall_mem_append

theorem avoids_forTo {loop : VarDecl} : Avoids P (forTo loop e e' span) ↔
    ¬ P loop.name ∧ Avoids P loop.value ∧ Avoids P e ∧ Avoids P e' := by
  obtain ⟨n, start, declSpan⟩ := loop
  change (∀ m ∈ n :: start.varNames ++ e.varNames ++ e'.varNames, ¬ P m) ↔ _
  rw [List.forall_mem_append, List.forall_mem_append, List.forall_mem_cons, and_assoc, and_assoc]
  rfl

theorem avoids_binary {op : BinaryOp} :
    Avoids P (binary e op e' span) ↔ Avoids P e ∧ Avoids P e' :=
  List.forall_mem_append

theorem avoids_array {element : Option Ty} :
    Avoids P (array es element elementSpan span) ↔ AllAvoid P es := forall_varNamesAll

theorem avoids_tuple : Avoids P (tuple es span) ↔ AllAvoid P es := forall_varNamesAll

end Forms

theorem avoids_none (e : Expr) : Avoids (fun _ => False) e := fun _ _ => id

theorem fnAvoids_none (f : FnDecl) : FnAvoids (fun _ => False) f :=
  ⟨fun _ _ => id, avoids_none f.body⟩

end Expr
end TypedLet
