import TypedLet.Expr

/-
Trees without their spans. A text does not say where the parts of a tree were read from.
-/
namespace TypedLet

def ArgDecl.bare (a : ArgDecl) : ArgDecl := { a with span := none }

namespace Expr

mutual
def bare : Expr → Expr
  | literal v _ => literal v none
  | var name _ => var name none
  | group body _ => group (bareAll body) none
  | letIn vars fns body _ => letIn (bareVars vars) (bareFns fns) (bareAll body) none
  | assign name value _ _ => assign name (bare value) none none
  | matchWith pattern value _ => matchWith (bare pattern) (bare value) none
  | call name args _ => call name (bareAll args) none
  | ifElse cond whenTrue whenFalse _ => ifElse (bare cond) (bare whenTrue) (bare whenFalse) none
  | whileDo cond body _ => whileDo (bare cond) (bare body) none
  | forTo loop goal body _ => forTo (bareVar loop) (bare goal) (bare body) none
  | binary left op right _ => binary (bare left) op (bare right) none
  | unary op operand _ => unary op (bare operand) none
  | cast operand target _ => cast (bare operand) target none
  | array items element _ _ => array (bareAll items) element none none
  | tuple items _ => tuple (bareAll items) none
def bareAll : List Expr → List Expr
  | [] => []
  | e :: es => bare e :: bareAll es
def bareVar : VarDecl → VarDecl
  | ⟨name, value, _⟩ => ⟨name, bare value, none⟩
def bareVars : List VarDecl → List VarDecl
  | [] => []
  | d :: ds => bareVar d :: bareVars ds
def bareFn : FnDecl → FnDecl
  | ⟨name, args, result, body, _⟩ => ⟨name, args.map ArgDecl.bare, result, bare body, none⟩
def bareFns : List FnDecl → List FnDecl
  | [] => []
  | f :: fs => bareFn f :: bareFns fs
end

theorem bareAll_eq_map (es : List Expr) : bareAll es = es.map bare := by
  induction es with
  | nil => rfl
  | cons e es ih => rw [bareAll, ih, List.map_cons]

theorem bareVars_eq_map (ds : List VarDecl) : bareVars ds = ds.map bareVar := by
  induction ds with
  | nil => rfl
  | cons d ds ih => rw [bareVars, ih, List.map_cons]

theorem bareFns_eq_map (fs : List FnDecl) : bareFns fs = fs.map bareFn := by
  induction fs with
  | nil => rfl
  | cons f fs ih => rw [bareFns, ih, List.map_cons]

@[simp] theorem bareVar_name (d : VarDecl) : (bareVar d).name = d.name := by
  cases d
  rfl

@[simp] theorem bareVar_value (d : VarDecl) : (bareVar d).value = d.value.bare := by
  cases d
  rfl

@[simp] theorem bareVar_span (d : VarDecl) : (bareVar d).span = none := by
  cases d
  rfl

@[simp] theorem bareFn_name (f : FnDecl) : (bareFn f).name = f.name := by
  cases f
  rfl

@[simp] theorem bareFn_args (f : FnDecl) : (bareFn f).args = f.args.map ArgDecl.bare := by
  cases f
  rfl

@[simp] theorem bareFn_result (f : FnDecl) : (bareFn f).result = f.result := by
  cases f
  rfl

@[simp] theorem bareFn_body (f : FnDecl) : (bareFn f).body = f.body.bare := by
  cases f
  rfl

@[simp] theorem bareFn_span (f : FnDecl) : (bareFn f).span = none := by
  cases f
  rfl

@[simp] theorem bareFn_argTypes (f : FnDecl) : (bareFn f).argTypes = f.argTypes := by
  rw [FnDecl.argTypes, bareFn_args, List.map_map, FnDecl.argTypes]
  rfl

end Expr

namespace Tree

def parts : Tree → List Expr
  | expr e => [e]
  | block body => body

def bare (tree : Tree) : List Expr := Expr.bareAll tree.parts

end Tree
end TypedLet
