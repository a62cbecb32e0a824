import TypedLet.Proofs.Reading.Bare
import TypedLet.Proofs.Typing.Decision

/-
Spans have no part in typing.
-/
namespace TypedLet

namespace Context

variable (G : Context)

@[simp] theorem withFn_bareFn (f : FnDecl) : G.withFn (Expr.bareFn f) = G.withFn f := by
  rw [withFn, withFn, Expr.bareFn_name, Expr.bareFn_argTypes, Expr.bareFn_result]

theorem withFns_bareFns (fs : List FnDecl) : G.withFns (Expr.bareFns fs) = G.withFns fs := by
  induction fs generalizing G with
  | nil => rfl
  | cons f fs ih => rw [Expr.bareFns, withFns, withFns, withFn_bareFn, ih]

theorem withArgs_bare (args : List ArgDecl) :
    G.withArgs (args.map ArgDecl.bare) = G.withArgs args := by
  induction args generalizing G with
  | nil => rfl
  | cons a args ih => exact ih _

end Context

namespace Expr

theorem names_bareVars (ds : List VarDecl) :
    (bareVars ds).map VarDecl.name = ds.map VarDecl.name := by
  induction ds with
  | nil => rfl
  | cons d ds ih => rw [bareVars, List.map_cons, List.map_cons, bareVar_name, ih]

theorem names_bareFns (fs : List FnDecl) :
    (bareFns fs).map FnDecl.name = fs.map FnDecl.name := by
  induction fs with
  | nil => rfl
  | cons f fs ih => rw [bareFns, List.map_cons, List.map_cons, bareFn_name, ih]

theorem bareAll_eq_nil {es : List Expr} : bareAll es = [] ↔ es = [] := by
  cases es <;> simp [bareAll]

mutual
theorem forbidden_bare : ∀ p : Expr, p.bare.forbidden? = p.forbidden?.map bare
  | array items _ _ _ => anyForbidden_bare items
  | tuple items _ => anyForbidden_bare items
  | var .. | literal .. | group .. | letIn .. | assign .. | matchWith .. | call .. | ifElse ..
  | whileDo .. | forTo .. | binary .. | unary .. | cast .. => rfl
theorem anyForbidden_bare : ∀ ps : List Expr,
    anyForbidden? (bareAll ps) = (anyForbidden? ps).map bare
  | [] => rfl
  | p :: ps => by
    rw [bareAll, anyForbidden?, anyForbidden?, forbidden_bare p, anyForbidden_bare ps]
    cases p.forbidden? <;> rfl
end

mutual
theorem hasType_bare : ∀ (e : Expr) {G : Context} {t : Ty}, HasType G e.bare t ↔ HasType G e t
  | literal v span, G, t => by rw [bare, hasType_literal, hasType_literal]
  | var name span, G, t => by rw [bare, hasType_var, hasType_var]
  | group body span, G, t => by
    rw [bare, hasType_group, hasType_group, rowHasType_bare]
  | letIn vars fns body span, G, t => by
    simp only [bare, hasType_letIn, names_bareVars, names_bareFns, extends_bare vars,
      rowHasType_bare body, Context.withFns_bareFns, fnsHaveType_bare fns]
  | assign name value nameSpan span, G, t => by
    rw [bare, hasType_assign, hasType_assign, hasType_bare value]
  | matchWith pattern value span, G, t => by
    simp only [bare, hasType_matchWith, patternHasType_iff, forbidden_bare,
      Option.map_eq_none_iff, hasType_bare pattern, hasType_bare value]
  | call name args span, G, t => by
    simp only [bare, hasType_call, haveTypes_bare args]
  | ifElse cond whenTrue whenFalse span, G, t => by
    simp only [bare, hasType_ifElse, hasType_bare cond, hasType_bare whenTrue,
      hasType_bare whenFalse]
  | whileDo cond body span, G, t => by
    simp only [bare, hasType_whileDo, hasType_bare cond, hasType_bare body]
  | forTo ⟨name, start, loopSpan⟩ goal body span, G, t => by
    simp only [bare, bareVar, hasType_forTo, hasType_bare start, hasType_bare goal,
      hasType_bare body]
  | binary left op right span, G, t => by
    simp only [bare, hasType_binary, hasType_bare left, hasType_bare right]
  | unary op operand span, G, t => by
    simp only [bare, hasType_unary, hasType_bare operand]
  | cast operand target span, G, t => by
    simp only [bare, hasType_cast, hasType_bare operand]
  | array items element elementSpan span, G, t => by
    simp only [bare, hasType_array, allHaveType_iff, haveTypes_bare items, ne_eq, bareAll_eq_nil]
  | tuple items span, G, t => by
    simp only [bare, hasType_tuple, haveTypes_bare items]
theorem haveTypes_bare : ∀ (es : List Expr) {G : Context} {ts : List Ty},
    HaveTypes G (bareAll es) ts ↔ HaveTypes G es ts
  | [], G, ts => Iff.rfl
  | e :: es, G, ts => by
    simp only [bareAll, haveTypes_cons, hasType_bare e, haveTypes_bare es]
theorem rowHasType_bare : ∀ (es : List Expr) {G : Context} {t : Ty},
    RowHasType G (bareAll es) t ↔ RowHasType G es t
  | [], G, t => Iff.rfl
  | e :: es, G, t => by
    simp only [bareAll, rowHasType_iff, haveTypes_cons, hasType_bare e, haveTypes_bare es]
theorem extends_bare : ∀ (ds : List VarDecl) {G H : Context},
    Extends G (bareVars ds) H ↔ Extends G ds H
  | [], G, H => Iff.rfl
  | ⟨name, value, span⟩ :: ds, G, H => by
    simp only [bareVars, bareVar, extends_cons, hasType_bare value, extends_bare ds]
theorem fnsHaveType_bare : ∀ (fs : List FnDecl) {G : Context},
    (∀ f ∈ bareFns fs, FnHasType G f) ↔ ∀ f ∈ fs, FnHasType G f
  | [], G => Iff.rfl
  | ⟨name, args, result, body, span⟩ :: fs, G => by
    have names : (args.map ArgDecl.bare).map ArgDecl.name = args.map ArgDecl.name := by
      rw [List.map_map]
      rfl
    rw [bareFns, List.forall_mem_cons, List.forall_mem_cons, fnsHaveType_bare fs, fnHasType_iff,
      fnHasType_iff, bareFn, names, Context.withArgs_bare, hasType_bare body]
end

end Expr

namespace Tree

theorem hasType_parts (tree : Tree) {G : Context} {t : Ty} :
    tree.HasType G t ↔ Expr.RowHasType G tree.parts t := by
  cases tree with
  | block body => exact Iff.rfl
  | expr e =>
    constructor
    · exact .last
    · intro row
      cases row with
      | last last => exact last

theorem check_of_bare {tree tree' : Tree} (same : tree.bare = tree'.bare) (t : Ty) :
    tree.check = .ok t ↔ tree'.check = .ok t := by
  have stripped : ∀ tree : Tree,
      tree.check = .ok t ↔ Expr.RowHasType Context.empty tree.bare t := by
    intro tree
    rw [tree.check_iff_hasType.1, hasType_parts, bare, Expr.rowHasType_bare]
  rw [stripped, stripped, same]

end Tree
end TypedLet
