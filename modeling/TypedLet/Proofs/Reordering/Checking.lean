import TypedLet.Proofs.Reordering.Trees
import TypedLet.Proofs.Typing.Decision

/-
Typing does not depend on the order of function declarations. All functions of a let enter
its context at once and by name, and each body is judged in that context.
-/
namespace TypedLet

open TypedLet.Expr

namespace Context

variable {G : Context} {fns fns' : List FnDecl}

theorem withFns_of_reordered (each : List.Forall₂ ReorderedFn fns fns') :
    G.withFns fns = G.withFns fns' := by
  induction each generalizing G with
  | nil => rfl
  | cons first _ ih =>
    obtain ⟨_⟩ := first
    exact ih

theorem withFn_comm {f g : FnDecl} (differ : f.name ≠ g.name) :
    (G.withFn f).withFn g = (G.withFn g).withFn f := by
  unfold withFn
  rw [Context.mk.injEq]
  refine ⟨rfl, funext fun name => ?_⟩
  dsimp only
  by_cases here : name = f.name
  · have other : name ≠ g.name := fun same => differ (here.symm.trans same)
    rw [if_pos here, if_neg other, if_pos here]
  · rw [if_neg here, if_neg here]

/-- Functions with different names can be added in any order. -/
theorem withFns_of_perm (order : fns.Perm fns') (once : (fns.map FnDecl.name).Nodup) :
    G.withFns fns = G.withFns fns' := by
  induction order generalizing G with
  | nil => rfl
  | cons f _ ih => exact ih (List.nodup_cons.mp once).2
  | swap f g fs =>
    have differ := names_differ once
    change ((G.withFn g).withFn f).withFns fs = ((G.withFn f).withFn g).withFns fs
    rw [withFn_comm differ]
  | trans first _ ih ih' =>
    rw [ih once, ih' ((first.map FnDecl.name).nodup_iff.mp once)]

end Context

namespace Expr

mutual
theorem forbidden_of_reordered : ∀ {p p' : Expr}, Reordered p p' →
    (p.forbidden? = none ↔ p'.forbidden? = none)
  | var .., _, .var => Iff.rfl
  | literal .., _, .literal => Iff.rfl
  | array .., _, .array each => anyForbidden_of_reordered each
  | tuple .., _, .tuple each => anyForbidden_of_reordered each
  | group .., _, .group _ | letIn .., _, .letIn .. | assign .., _, .assign _
  | matchWith .., _, .matchWith .. | call .., _, .call _ | ifElse .., _, .ifElse ..
  | whileDo .., _, .whileDo .. | forTo .., _, .forTo .. | binary .., _, .binary ..
  | unary .., _, .unary _ | cast .., _, .cast _ => iff_of_false nofun nofun
theorem anyForbidden_of_reordered : ∀ {ps ps' : List Expr}, List.Forall₂ Reordered ps ps' →
    (anyForbidden? ps = none ↔ anyForbidden? ps' = none)
  | [], _, .nil => Iff.rfl
  | p :: ps, _, .cons first others => by
    rw [anyForbidden_cons_iff, anyForbidden_cons_iff, forbidden_of_reordered first,
      anyForbidden_of_reordered others]
end

theorem nonempty_of_reordered {es es' : List Expr} (each : List.Forall₂ Reordered es es') :
    es ≠ [] ↔ es' ≠ [] := by
  cases each with
  | nil => exact Iff.rfl
  | cons => exact iff_of_true nofun nofun

mutual

theorem hasType_of_reordered : ∀ {e e' : Expr}, Reordered e e' → ∀ {G : Context} {t : Ty},
    HasType G e t ↔ HasType G e' t
  | literal .., _, .literal, G, t => Iff.rfl
  | var .., _, .var, G, t => Iff.rfl
  | group .., _, .group row, G, t => by
    simp only [hasType_group, rowHasType_iff, haveTypes_of_reordered row]
  | letIn vars fns body _, _, @Reordered.letIn _ _ _ fns' same _ body' _ values each order row,
      G, t => by
    have names := names_eq_of_fnsReordered each
    have once : (fns.map FnDecl.name).Nodup ↔ (fns'.map FnDecl.name).Nodup := by
      rw [names]
      exact (order.map FnDecl.name).nodup_iff
    have sees : (fns.map FnDecl.name).Nodup → ∀ H : Context, H.withFns fns = H.withFns fns' := by
      intro distinct H
      rw [Context.withFns_of_reordered each, Context.withFns_of_perm order (names ▸ distinct)]
    have checked : ∀ H : Context, (∀ f ∈ fns, FnHasType H f) ↔ ∀ f ∈ fns', FnHasType H f := by
      intro H
      rw [fnsHaveTypes_of_reordered each]
      simp only [order.mem_iff]
    have rows : ∀ H : Context, RowHasType H body t ↔ RowHasType H body' t := by
      intro H
      simp only [rowHasType_iff, haveTypes_of_reordered row]
    rw [hasType_letIn, hasType_letIn, names_eq_of_varsReordered values]
    apply exists_congr
    intro H
    rw [extends_of_reordered values, ← once, ← checked, ← rows]
    constructor
    · rintro ⟨varsOnce, extend, distinct, each, last⟩
      rw [sees distinct] at each last
      exact ⟨varsOnce, extend, distinct, each, last⟩
    · rintro ⟨varsOnce, extend, distinct, each, last⟩
      rw [← sees distinct] at each last
      exact ⟨varsOnce, extend, distinct, each, last⟩
  | assign .., _, .assign new, G, t => by
    rw [hasType_assign, hasType_assign, hasType_of_reordered new]
  | matchWith .., _, .matchWith shape candidate, G, t => by
    simp only [hasType_matchWith, patternHasType_iff, forbidden_of_reordered shape,
      hasType_of_reordered shape, hasType_of_reordered candidate]
  | call .., _, .call given, G, t => by
    simp only [hasType_call, haveTypes_of_reordered given]
  | ifElse .., _, .ifElse test first second, G, t => by
    simp only [hasType_ifElse, hasType_of_reordered test, hasType_of_reordered first,
      hasType_of_reordered second]
  | whileDo .., _, .whileDo test round, G, t => by
    simp only [hasType_whileDo, hasType_of_reordered test, hasType_of_reordered round]
  | forTo ⟨_, _, _⟩ .., _, .forTo (.intro start) bound round, G, t => by
    simp only [hasType_forTo, hasType_of_reordered start, hasType_of_reordered bound,
      hasType_of_reordered round]
  | binary .., _, .binary first second, G, t => by
    simp only [hasType_binary, hasType_of_reordered first, hasType_of_reordered second]
  | unary .., _, .unary inner, G, t => by
    simp only [hasType_unary, hasType_of_reordered inner]
  | cast .., _, .cast inner, G, t => by
    simp only [hasType_cast, hasType_of_reordered inner]
  | array .., _, .array each, G, t => by
    simp only [hasType_array, allHaveType_iff, haveTypes_of_reordered each,
      nonempty_of_reordered each]
  | tuple .., _, .tuple each, G, t => by
    simp only [hasType_tuple, haveTypes_of_reordered each]

theorem haveTypes_of_reordered : ∀ {es es' : List Expr}, List.Forall₂ Reordered es es' →
    ∀ {G : Context} {ts : List Ty}, HaveTypes G es ts ↔ HaveTypes G es' ts
  | [], _, .nil, G, ts => Iff.rfl
  | e :: es, _, .cons first others, G, ts => by
    simp only [haveTypes_cons, hasType_of_reordered first, haveTypes_of_reordered others]

theorem extends_of_reordered : ∀ {vars vars' : List VarDecl},
    List.Forall₂ ReorderedVar vars vars' → ∀ {G H : Context},
      Extends G vars H ↔ Extends G vars' H
  | [], _, .nil, G, H => Iff.rfl
  | ⟨_, _, _⟩ :: rest, _, .cons (.intro new) others, G, H => by
    simp only [extends_cons, hasType_of_reordered new, extends_of_reordered others]

theorem fnsHaveTypes_of_reordered : ∀ {fns same : List FnDecl},
    List.Forall₂ ReorderedFn fns same → ∀ {G : Context},
      (∀ f ∈ fns, FnHasType G f) ↔ ∀ f ∈ same, FnHasType G f
  | [], _, .nil, G => Iff.rfl
  | ⟨_, _, _, _, _⟩ :: rest, _, .cons (.intro inner) others, G => by
    rw [List.forall_mem_cons, List.forall_mem_cons, fnHasType_iff, fnHasType_iff,
      hasType_of_reordered inner, fnsHaveTypes_of_reordered others]

end

end Expr
end TypedLet
