import TypedLet.Proofs.Checking.Accept
import TypedLet.Proofs.Typing.Rules

/-
The checker decides the typing rules. Scopes stand for a context: of every name the
context knows what the innermost scope with that name knows. Declaring a fresh name in
the innermost scope is extending the context, and entering a scope changes nothing. So
the rules derive a type in the context of some scopes exactly when checking under these
scopes gives it.
-/
namespace TypedLet

open Scopes

variable {Γ : Scopes Ty} {t : Ty}

def Unused (find : String → Option β) (names : List String) : Prop :=
  names.Nodup ∧ ∀ name ∈ names, find name = none

theorem unused_iff_nodup {find : String → Option β} {names : List String}
    (free : ∀ name, find name = none) : Unused find names ↔ names.Nodup :=
  and_iff_left fun name _ => free name

theorem unused_cons {find after : String → Option β} {name : String} {names : List String} {b : β}
    (given : ∀ x, after x = if x = name then some b else find x) :
    Unused find (name :: names) ↔ find name = none ∧ Unused after names := by
  have others : (∀ x ∈ names, after x = none) ↔ name ∉ names ∧ ∀ x ∈ names, find x = none := by
    constructor
    · intro free
      refine ⟨fun member => ?_, fun x member => ?_⟩
      · have taken := free name member
        rw [given, if_pos rfl] at taken
        cases taken
      · have here := free x member
        rw [given] at here
        split at here
        · cases here
        · exact here
    · rintro ⟨absent, free⟩ x member
      have differ : x ≠ name := fun same => absent (same ▸ member)
      rw [given, if_neg differ]
      exact free x member
  unfold Unused
  rw [others, List.nodup_cons, List.forall_mem_cons]
  constructor
  · rintro ⟨⟨absent, once⟩, first, free⟩
    exact ⟨first, once, absent, free⟩
  · rintro ⟨first, once, absent, free⟩
    exact ⟨⟨absent, once⟩, first, free⟩

theorem Scope.findFn_declared {s : Scope α} {f : FnDecl} (fresh : s.findFn f.name = none)
    (name : String) :
    (s.withFns [f]).findFn name =
      if name = f.name then some f else s.findFn name := by
  rw [Scope.findFn_withFns]
  split
  · next same => rw [same, fresh]; simp
  · next differ =>
    have other : f.name ≠ name := fun same => differ same.symm
    simp [other]

namespace Context

def ofScopes (Γ : Scopes Ty) : Context where
  vars name := (Γ.findVar name).map Binding.info
  fns name := (Γ.findFn name).map fun f => (f.argTypes, f.result)

theorem vars_ofScopes {name : String} : (ofScopes Γ).vars name = some t ↔
    ∃ b, Γ.findVar name = some b ∧ b.info = t := Option.map_eq_some_iff

theorem ofScopes_empty : ofScopes (Scope.empty :: Γ) = ofScopes Γ := rfl

theorem ofScopes_declareVar {s : Scope Ty} {decl : Declaration}
    (fresh : s.findVar decl.name = none) :
    ofScopes (s.withVar decl t :: Γ) = (ofScopes (s :: Γ)).withVar decl.name t := by
  have vars : ∀ name, (findVar name (s.withVar decl t :: Γ)).map Binding.info =
      if name = decl.name then some t else (findVar name (s :: Γ)).map Binding.info := by
    intro name
    rw [findVar, findVar, Scope.findVar_withVar t fresh]
    by_cases same : name = decl.name
    · rw [if_pos same, if_pos same]
      rfl
    · rw [if_neg same, if_neg same]
  unfold ofScopes withVar
  rw [Context.mk.injEq]
  exact ⟨funext vars, rfl⟩

theorem ofScopes_ofVar {loop : VarDecl} :
    ofScopes (Scope.ofVar loop t :: Γ) = (ofScopes Γ).withVar loop.name t := by
  have fresh : (Scope.empty : Scope Ty).findVar (Declaration.var loop).name = none := rfl
  exact ofScopes_declareVar fresh

theorem ofScopes_declareFn {s : Scope Ty} {f : FnDecl} (fresh : s.findFn f.name = none) :
    ofScopes (s.withFns [f] :: Γ) = (ofScopes (s :: Γ)).withFn f := by
  have fns : ∀ name, (findFn (s.withFns [f] :: Γ) name).map
        (fun f => (f.argTypes, f.result)) =
      if name = f.name then some (f.argTypes, f.result)
      else (findFn (s :: Γ) name).map fun f => (f.argTypes, f.result) := by
    intro name
    rw [findFn, findFn, resolveFn, resolveFn, Scope.findFn_declared fresh]
    by_cases same : name = f.name
    · rw [if_pos same, if_pos same]
      rfl
    · rw [if_neg same, if_neg same]
  unfold ofScopes withFn
  rw [Context.mk.injEq]
  exact ⟨rfl, funext fns⟩

end Context

namespace Expr

open Context

theorem declareArgs_iff {args : List ArgDecl} : ∀ {s : Scope Ty},
    (∃ g, declareArgs args (s :: Γ) = (.ok (), g :: Γ)) ↔
      Unused s.findVar (args.map ArgDecl.name) := by
  induction args with
  | nil =>
    intro s
    exact iff_of_true ⟨s, rfl⟩ ⟨List.nodup_nil, nofun⟩
  | cons a as ih =>
    intro s
    rw [List.map_cons]
    constructor
    · rintro ⟨g, run⟩
      obtain ⟨_, declared, others⟩ := declareArgs_cons_ok_iff.mp run
      obtain ⟨fresh, rfl⟩ := declareVar_cons_ok_iff.mp declared
      exact (unused_cons (Scope.findVar_withVar a.type fresh)).mpr ⟨fresh, ih.mp ⟨g, others⟩⟩
    · intro unused
      have fresh : s.findVar (Declaration.arg a).name = none := unused.2 a.name (by simp)
      obtain ⟨_, later⟩ := (unused_cons (Scope.findVar_withVar a.type fresh)).mp unused
      obtain ⟨g, others⟩ := ih.mpr later
      exact ⟨g, declareArgs_cons_ok_iff.mpr
        ⟨_, declareVar_cons_ok_iff.mpr ⟨fresh, rfl⟩, others⟩⟩

theorem ofScopes_declareArgs {args : List ArgDecl} : ∀ {s g : Scope Ty},
    declareArgs args (s :: Γ) = (.ok (), g :: Γ) →
      ofScopes (g :: Γ) = (ofScopes (s :: Γ)).withArgs args := by
  induction args with
  | nil =>
    intro s g run
    cases (Action.pure_ok_iff.mp run).2
    rfl
  | cons a as ih =>
    intro s g run
    obtain ⟨_, declared, others⟩ := declareArgs_cons_ok_iff.mp run
    obtain ⟨fresh, rfl⟩ := declareVar_cons_ok_iff.mp declared
    rw [ih others, ofScopes_declareVar fresh]
    rfl

theorem declareFns_iff {fns : List FnDecl} : ∀ {s : Scope Ty},
    (∃ h, declareFns fns (s :: Γ) = (.ok (), h :: Γ)) ↔
      Unused s.findFn (fns.map FnDecl.name) := by
  induction fns with
  | nil =>
    intro s
    exact iff_of_true ⟨s, rfl⟩ ⟨List.nodup_nil, nofun⟩
  | cons f fs ih =>
    intro s
    rw [List.map_cons]
    constructor
    · rintro ⟨h, run⟩
      obtain ⟨_, declared, others⟩ := declareFns_cons_ok_iff.mp run
      obtain ⟨fresh, rfl⟩ := declareFn_cons_ok_iff.mp declared
      exact (unused_cons (Scope.findFn_declared fresh)).mpr ⟨fresh, ih.mp ⟨h, others⟩⟩
    · intro unused
      have fresh : s.findFn f.name = none := unused.2 f.name (by simp)
      obtain ⟨_, later⟩ := (unused_cons (Scope.findFn_declared fresh)).mp unused
      obtain ⟨h, others⟩ := ih.mpr later
      exact ⟨h, declareFns_cons_ok_iff.mpr ⟨_, declareFn_cons_ok_iff.mpr ⟨fresh, rfl⟩, others⟩⟩

theorem ofScopes_declareFns {fns : List FnDecl} : ∀ {s h : Scope Ty},
    declareFns fns (s :: Γ) = (.ok (), h :: Γ) →
      ofScopes (h :: Γ) = (ofScopes (s :: Γ)).withFns fns := by
  induction fns with
  | nil =>
    intro s h run
    cases (Action.pure_ok_iff.mp run).2
    rfl
  | cons f fs ih =>
    intro s h run
    obtain ⟨_, declared, others⟩ := declareFns_cons_ok_iff.mp run
    obtain ⟨fresh, rfl⟩ := declareFn_cons_ok_iff.mp declared
    rw [ih others, ofScopes_declareFn fresh]
    rfl

theorem fns_of_checkVars {vars : List VarDecl} : ∀ {s g : Scope Ty},
    checkVars vars (s :: Γ) = (.ok (), g :: Γ) → g.fns = s.fns := by
  induction vars with
  | nil =>
    intro s g run
    cases (Action.pure_ok_iff.mp run).2
    rfl
  | cons d ds ih =>
    intro s g run
    obtain ⟨_, _, _, _, declared, others⟩ := checkVars_cons_ok_iff.mp run
    obtain ⟨_, rfl⟩ := declareVar_cons_ok_iff.mp declared
    have same := ih others
    exact same

variable {G : Context}

theorem rowHasType_iff : ∀ {es : List Expr} {t : Ty},
    RowHasType G es t ↔ ∃ ts, HaveTypes G es ts ∧ rowType ts = t
  | [], t => by
    constructor
    · rintro ⟨⟩
      exact ⟨[], .nil, rfl⟩
    · rintro ⟨_, ⟨⟩, rfl⟩
      exact .empty
  | [e], t => by
    constructor
    · intro row
      cases row with
      | last last => exact ⟨[t], .cons last .nil, rfl⟩
    · rintro ⟨_, types, rfl⟩
      cases types with
      | cons first others =>
        cases others
        exact .last first
  | e :: next :: es, t => by
    constructor
    · intro row
      cases row with
      | cons first others =>
        obtain ⟨ts, types, rfl⟩ := rowHasType_iff.mp others
        refine ⟨_, .cons first types, ?_⟩
        cases types
        rfl
    · rintro ⟨_, types, rfl⟩
      cases types with
      | cons first others =>
        refine .cons first (rowHasType_iff.mpr ⟨_, others, ?_⟩)
        cases others
        rfl

theorem allHaveType_iff {es : List Expr} :
    (∀ e ∈ es, HasType G e t) ↔ ∃ ts, HaveTypes G es ts ∧ ∀ s ∈ ts, s = t := by
  induction es with
  | nil => exact iff_of_true nofun ⟨[], .nil, nofun⟩
  | cons e es ih =>
    rw [List.forall_mem_cons, ih]
    constructor
    · rintro ⟨first, ts, others, same⟩
      exact ⟨t :: ts, .cons first others, List.forall_mem_cons.mpr ⟨rfl, same⟩⟩
    · rintro ⟨_, types, same⟩
      cases types with
      | cons first others =>
        obtain ⟨rfl, later⟩ := List.forall_mem_cons.mp same
        exact ⟨first, _, others, later⟩

mutual
theorem patternHasType_iff : ∀ {p : Expr} {t : Ty},
    PatternHasType G p t ↔ p.forbidden? = none ∧ HasType G p t
  | var name span, t => by
    constructor
    · intro shape
      cases shape with
      | var bound => exact ⟨rfl, .var bound⟩
    · rintro ⟨_, typed⟩
      cases typed with
      | var bound => exact .var bound
  | literal v span, t => by
    constructor
    · rintro ⟨⟩
      exact ⟨rfl, .literal⟩
    · rintro ⟨_, ⟨⟩⟩
      exact .literal
  | array items declared elementSpan span, t => by
    rw [forbidden?]
    constructor
    · intro shape
      cases shape with
      | array element each =>
        obtain ⟨legal, typed⟩ := allPatternsHaveType_iff.mp each
        exact ⟨legal, .array element typed⟩
    · rintro ⟨legal, typed⟩
      cases typed with
      | array element each => exact .array element (allPatternsHaveType_iff.mpr ⟨legal, each⟩)
  | tuple items span, t => by
    rw [forbidden?]
    constructor
    · intro shape
      cases shape with
      | tuple each =>
        obtain ⟨legal, typed⟩ := patternsHaveTypes_iff.mp each
        exact ⟨legal, .tuple typed⟩
    · rintro ⟨legal, typed⟩
      cases typed with
      | tuple each => exact .tuple (patternsHaveTypes_iff.mpr ⟨legal, each⟩)
  | group .., _ | letIn .., _ | assign .., _ | matchWith .., _ | call .., _ | ifElse .., _
  | whileDo .., _ | forTo .., _ | binary .., _ | unary .., _ | cast .., _ =>
    iff_of_false nofun fun ⟨legal, _⟩ => nomatch legal
theorem patternsHaveTypes_iff : ∀ {ps : List Expr} {ts : List Ty},
    PatternsHaveTypes G ps ts ↔ anyForbidden? ps = none ∧ HaveTypes G ps ts
  | [], ts => by
    constructor
    · rintro ⟨⟩
      exact ⟨rfl, .nil⟩
    · rintro ⟨_, ⟨⟩⟩
      exact .nil
  | p :: ps, ts => by
    rw [anyForbidden_cons_iff]
    constructor
    · intro shapes
      cases shapes with
      | cons first others =>
        obtain ⟨here, typed⟩ := patternHasType_iff.mp first
        obtain ⟨below, types⟩ := patternsHaveTypes_iff.mp others
        exact ⟨⟨here, below⟩, .cons typed types⟩
    · rintro ⟨⟨here, below⟩, types⟩
      cases types with
      | cons first others =>
        exact .cons (patternHasType_iff.mpr ⟨here, first⟩)
          (patternsHaveTypes_iff.mpr ⟨below, others⟩)
theorem allPatternsHaveType_iff : ∀ {ps : List Expr} {t : Ty},
    (∀ p ∈ ps, PatternHasType G p t) ↔ anyForbidden? ps = none ∧ ∀ p ∈ ps, HasType G p t
  | [], t => iff_of_true nofun ⟨rfl, nofun⟩
  | p :: ps, t => by
    rw [anyForbidden_cons_iff, List.forall_mem_cons, List.forall_mem_cons, patternHasType_iff,
      allPatternsHaveType_iff]
    exact and_and_and_comm
end

theorem callGives_iff {name : String} {ts : List Ty} : CallGives Γ name ts t ↔
    (ofScopes Γ).fns name = some (ts, t) ∨
      (ofScopes Γ).fns name = none ∧ ∃ b : Builtin, b.name = name ∧ b.HasType ts t := by
  unfold CallGives ofScopes
  dsimp only
  cases Γ.findFn name with
  | some f => simp [FnDecl.resultFor, eq_comm]
  | none => simp [Builtin.find?_iff, Builtin.resultFor_iff]

mutual

theorem hasType_iff : ∀ (e : Expr) {Γ : Scopes Ty} {t : Ty},
    HasType (ofScopes Γ) e t ↔ Infers Γ e t
  | literal v span, Γ, t => by
    rw [hasType_literal, infers_literal]
  | var name span, Γ, t => by
    rw [hasType_var, infers_var, vars_ofScopes]
  | group body span, Γ, t => by
    simp only [hasType_group, infers_group, rowHasType_iff, haveTypes_iff body]
  | letIn vars fns body span, Γ, t => by
    rw [hasType_letIn, infers_letIn]
    constructor
    · rintro ⟨H, varsOnce, extend, fnsOnce, each, row⟩
      rw [← ofScopes_empty] at extend
      obtain ⟨g, checked, rfl⟩ :=
        (extends_iff vars).mp ⟨extend, (unused_iff_nodup fun _ => rfl).mpr varsOnce⟩
      have free : ∀ name, g.findFn name = none := by
        intro name
        rw [Scope.findFn_eq, fns_of_checkVars checked]
        rfl
      obtain ⟨h, declared⟩ := declareFns_iff.mpr ((unused_iff_nodup free).mpr fnsOnce)
      rw [← ofScopes_declareFns declared] at each row
      obtain ⟨ts, types, last⟩ := rowHasType_iff.mp row
      exact ⟨g, h, ts, checked, declared, (fnsHaveTypes_iff fns).mp each,
        (haveTypes_iff body).mp types, last⟩
    · rintro ⟨g, h, ts, checked, declared, checks, types, last⟩
      obtain ⟨extend, varsOnce, _⟩ := (extends_iff vars).mpr ⟨g, checked, rfl⟩
      obtain ⟨fnsOnce, _⟩ := declareFns_iff.mp ⟨h, declared⟩
      have each := (fnsHaveTypes_iff fns).mpr checks
      have row := rowHasType_iff.mpr ⟨ts, (haveTypes_iff body).mpr types, last⟩
      rw [ofScopes_declareFns declared] at each row
      exact ⟨ofScopes (g :: Γ), varsOnce, extend, fnsOnce, each, row⟩
  | assign name value nameSpan span, Γ, t => by
    rw [hasType_assign, infers_assign, vars_ofScopes, hasType_iff value]
  | matchWith pattern value span, Γ, t => by
    simp only [hasType_matchWith, infers_matchWith, patternHasType_iff, hasType_iff pattern,
      hasType_iff value, and_assoc, exists_and_left]
  | call name args span, Γ, t => by
    simp only [hasType_call, infers_call, callGives_iff, haveTypes_iff args]
  | ifElse cond whenTrue whenFalse span, Γ, t => by
    simp only [hasType_ifElse, infers_ifElse, Ty.isCondition_iff, hasType_iff cond,
      hasType_iff whenTrue, hasType_iff whenFalse]
  | whileDo cond body span, Γ, t => by
    simp only [hasType_whileDo, infers_whileDo, Ty.isCondition_iff, hasType_iff cond,
      hasType_iff body]
  | forTo ⟨name, start, declSpan⟩ goal body span, Γ, t => by
    have inside : ofScopes (Scope.ofVar ⟨name, start, declSpan⟩ .integer :: Γ) =
        (ofScopes Γ).withVar name .integer := ofScopes_ofVar
    simp only [hasType_forTo, infers_forTo, ← hasType_iff start, ← hasType_iff goal,
      ← hasType_iff body, ofScopes_empty, inside]
  | binary left op right span, Γ, t => by
    simp only [hasType_binary, infers_binary, Builtin.resultFor_iff, Builtin.hasType_binary,
      hasType_iff left, hasType_iff right]
  | unary op operand span, Γ, t => by
    simp only [hasType_unary, infers_unary, Builtin.resultFor_iff, Builtin.hasType_unary,
      hasType_iff operand]
  | cast operand target span, Γ, t => by
    simp only [hasType_cast, infers_cast, Ty.castsTo_iff, hasType_iff operand]
  | array items declared elementSpan span, Γ, t => by
    simp only [hasType_array, infers_array, allHaveType_iff, haveTypes_iff items, exists_and_left]
  | tuple items span, Γ, t => by
    simp only [hasType_tuple, infers_tuple, haveTypes_iff items]

theorem haveTypes_iff : ∀ (es : List Expr) {Γ : Scopes Ty} {ts : List Ty},
    HaveTypes (ofScopes Γ) es ts ↔ InfersAll Γ es ts
  | [], Γ, ts => by
    rw [haveTypes_nil, infersAll_nil]
  | e :: es, Γ, ts => by
    simp only [haveTypes_cons, infersAll_cons, hasType_iff e, haveTypes_iff es]

theorem extends_iff : ∀ (vars : List VarDecl) {s : Scope Ty} {Γ : Scopes Ty} {H : Context},
    Extends (ofScopes (s :: Γ)) vars H ∧ Unused s.findVar (vars.map VarDecl.name) ↔
      ∃ g, checkVars vars (s :: Γ) = (.ok (), g :: Γ) ∧ ofScopes (g :: Γ) = H
  | [], s, Γ, H => by
    rw [extends_nil]
    constructor
    · rintro ⟨rfl, _⟩
      exact ⟨s, rfl, rfl⟩
    · rintro ⟨g, run, rfl⟩
      cases (Action.pure_ok_iff.mp run).2
      exact ⟨rfl, List.nodup_nil, nofun⟩
  | ⟨name, value, span⟩ :: ds, s, Γ, H => by
    let decl := Declaration.var ⟨name, value, span⟩
    have inside : ∀ t, s.findVar name = none → ofScopes (s.withVar decl t :: Γ) =
        (ofScopes (s :: Γ)).withVar name t := fun _ fresh => ofScopes_declareVar fresh
    -- The name is checked against the scope now, and the other names once it is there.
    have turns : ∀ t, s.findVar name = none →
        (Unused s.findVar (name :: ds.map VarDecl.name) ↔ s.findVar name = none ∧
          Unused (s.withVar decl t).findVar (ds.map VarDecl.name)) :=
      fun t fresh => unused_cons (Scope.findVar_withVar t fresh)
    rw [extends_cons, List.map_cons]
    constructor
    · rintro ⟨⟨t, typed, held, others⟩, unused⟩
      have fresh : s.findVar name = none := unused.2 name (by simp)
      rw [← inside t fresh] at others
      obtain ⟨g, run, same⟩ := (extends_iff ds).mp ⟨others, ((turns t fresh).mp unused).2⟩
      have declared : declareVar decl t (s :: Γ) = .ok (s.withVar decl t :: Γ) :=
        declareVar_cons_ok_iff.mpr ⟨fresh, rfl⟩
      exact ⟨g, checkVars_cons_ok_iff.mpr
        ⟨t, _, (hasType_iff value).mp typed, held, declared, run⟩, same⟩
    · rintro ⟨g, run, same⟩
      obtain ⟨t, _, infers, held, declared, rest⟩ := checkVars_cons_ok_iff.mp run
      obtain ⟨fresh, rfl⟩ := declareVar_cons_ok_iff.mp declared
      obtain ⟨others, later⟩ := (extends_iff ds).mpr ⟨g, rest, same⟩
      rw [inside t fresh] at others
      exact ⟨⟨t, (hasType_iff value).mpr infers, held, others⟩,
        (turns t fresh).mpr ⟨fresh, later⟩⟩

theorem fnChecks_iff_hasType : ∀ (f : FnDecl) {Γ : Scopes Ty},
    FnHasType (ofScopes Γ) f ↔ FnChecks Γ f
  | ⟨name, args, result, body, span⟩, Γ => by
    rw [fnHasType_iff, fnChecks_iff]
    constructor
    · rintro ⟨argsOnce, typed⟩
      have unused : Unused (Scope.empty : Scope Ty).findVar (args.map ArgDecl.name) :=
        (unused_iff_nodup fun _ => rfl).mpr argsOnce
      obtain ⟨g, declared⟩ := declareArgs_iff.mpr unused
      rw [← ofScopes_empty, ← ofScopes_declareArgs declared] at typed
      exact ⟨g, declared, (hasType_iff body).mp typed⟩
    · rintro ⟨g, declared, infers⟩
      obtain ⟨argsOnce, _⟩ := declareArgs_iff.mp ⟨g, declared⟩
      have typed := (hasType_iff body).mpr infers
      rw [ofScopes_declareArgs declared] at typed
      exact ⟨argsOnce, typed⟩

theorem fnsHaveTypes_iff : ∀ (fns : List FnDecl) {Γ : Scopes Ty},
    (∀ f ∈ fns, FnHasType (ofScopes Γ) f) ↔ ∀ f ∈ fns, FnChecks Γ f
  | [], Γ => iff_of_true nofun nofun
  | f :: fs, Γ => by
    rw [List.forall_mem_cons, List.forall_mem_cons, fnChecks_iff_hasType f, fnsHaveTypes_iff fs]

end

end Expr

/-- Checking a whole program gives a type exactly when the rules derive it where no name
    is known, and there is no other. -/
theorem Tree.check_iff_hasType (tree : Tree) :
    (∀ t, tree.check = .ok t ↔ tree.HasType Context.empty t) ∧
      ∀ t u, tree.HasType Context.empty t → tree.HasType Context.empty u → t = u := by
  have decides : ∀ t, tree.check = .ok t ↔ tree.HasType Context.empty t := by
    intro t
    cases tree with
    | expr e => exact Expr.infers_iff.symm.trans (Expr.hasType_iff e).symm
    | block body =>
      rw [Tree.check_block_ok_iff]
      simp only [← Expr.haveTypes_iff body, ← Expr.rowHasType_iff]
      rfl
  refine ⟨decides, fun t u first second => ?_⟩
  have one := (decides t).mpr first
  rw [(decides u).mpr second] at one
  exact (Except.ok.inj one).symm

end TypedLet
