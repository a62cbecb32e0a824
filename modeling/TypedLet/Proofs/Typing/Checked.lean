import TypedLet.Proofs.Checking.Accept
import TypedLet.Proofs.Environment.Carry
import TypedLet.Proofs.Typing.Values

/-
Scopes in which every function has been checked. A body runs under the scopes that
were there when its function was declared, and those are the ones it was checked
under, so a call needs no check of its own. What an accepted let, loop or call builds
on top of such scopes is such again.
-/
namespace TypedLet

namespace Expr

mutual
def LiteralsFormed : Expr → Prop
  | literal v _ => v.WellFormed
  | var _ _ => True
  | group body _ => AllLiteralsFormed body
  | letIn vars fns body _ =>
    VarLiteralsFormed vars ∧ FnLiteralsFormed fns ∧ AllLiteralsFormed body
  | assign _ value _ _ => value.LiteralsFormed
  | matchWith pattern value _ => pattern.LiteralsFormed ∧ value.LiteralsFormed
  | call _ args _ => AllLiteralsFormed args
  | ifElse cond whenTrue whenFalse _ =>
    cond.LiteralsFormed ∧ whenTrue.LiteralsFormed ∧ whenFalse.LiteralsFormed
  | whileDo cond body _ => cond.LiteralsFormed ∧ body.LiteralsFormed
  | forTo ⟨_, start, _⟩ goal body _ =>
    start.LiteralsFormed ∧ goal.LiteralsFormed ∧ body.LiteralsFormed
  | binary left _ right _ => left.LiteralsFormed ∧ right.LiteralsFormed
  | unary _ operand _ => operand.LiteralsFormed
  | cast operand _ _ => operand.LiteralsFormed
  | array items _ _ _ => AllLiteralsFormed items
  | tuple items _ => AllLiteralsFormed items
def AllLiteralsFormed : List Expr → Prop
  | [] => True
  | e :: es => e.LiteralsFormed ∧ AllLiteralsFormed es
def VarLiteralsFormed : List VarDecl → Prop
  | [] => True
  | ⟨_, value, _⟩ :: rest => value.LiteralsFormed ∧ VarLiteralsFormed rest
def FnLiteralsFormed : List FnDecl → Prop
  | [] => True
  | ⟨_, _, _, body, _⟩ :: rest => body.LiteralsFormed ∧ FnLiteralsFormed rest
end

theorem literalsFormed_forTo {loop : VarDecl} {goal body : Expr} {span : Option Span} :
    (forTo loop goal body span).LiteralsFormed ↔
      loop.value.LiteralsFormed ∧ goal.LiteralsFormed ∧ body.LiteralsFormed := by
  obtain ⟨⟩ := loop
  rfl

theorem varLiteralsFormed_cons {d : VarDecl} {ds : List VarDecl} :
    VarLiteralsFormed (d :: ds) ↔ d.value.LiteralsFormed ∧ VarLiteralsFormed ds := by
  obtain ⟨⟩ := d
  rfl

theorem fnLiteralsFormed_iff {fns : List FnDecl} :
    FnLiteralsFormed fns ↔ ∀ f ∈ fns, f.body.LiteralsFormed := by
  induction fns with
  | nil => simp [FnLiteralsFormed]
  | cons f fs ih => obtain ⟨⟩ := f; simp [FnLiteralsFormed, ih]

end Expr

def Tree.LiteralsFormed : Tree → Prop
  | .expr e => e.LiteralsFormed
  | .block body => Expr.AllLiteralsFormed body

open TypedLet.Expr Scopes

/-- No scope declares a variable twice, and every function has been checked under the
    scopes that its body runs on. -/
def Checked : Scopes Ty → Prop
  | [] => True
  | s :: outer =>
    (s.varNames.Nodup ∧ ∀ f ∈ s.fns, FnChecks (s :: outer) f ∧ f.body.LiteralsFormed) ∧
      Checked outer

variable {Γ Δ : Scopes Ty} {t : Ty}

theorem Checked.distinct : ∀ {Γ : Scopes Ty}, Checked Γ → Distinct Γ := by
  intro Γ
  induction Γ with
  | nil => intro _ s member; cases member
  | cons s outer ih =>
    intro checked
    exact List.forall_mem_cons.mpr ⟨checked.1.1, ih checked.2⟩

theorem Checked.drop : ∀ {Γ : Scopes Ty} (n : Nat), Checked Γ → Checked (Γ.drop n) := by
  intro Γ n
  induction n generalizing Γ with
  | zero => exact id
  | succ n ih =>
    intro checked
    cases Γ with
    | nil => trivial
    | cons s outer => exact ih checked.2

theorem Checked.outermost (h : Checked Γ) (depth : Nat) : Checked (Γ.outermost depth) := h.drop _

theorem Checked.enter (h : Checked Γ) : Checked (Scope.empty :: Γ) := ⟨⟨List.nodup_nil, nofun⟩, h⟩

theorem Checked.resolveFn (h : Checked Γ) {name : String} {f : FnDecl} {depth : Nat}
    (found : Γ.resolveFn name = some (f, depth)) :
    FnChecks (Γ.outermost depth) f ∧ f.body.LiteralsFormed := by
  obtain ⟨s, outer, cut, _, here⟩ := mem_scope_of_resolveFn found
  have checked := h.outermost depth
  rw [cut] at checked ⊢
  exact checked.1.2 f (Scope.mem_of_findFn here)

theorem Checked.declareVar {s : Scope Ty} (h : Checked (s :: Γ)) (bare : s.fns = [])
    {decl : Declaration} (run : Scopes.declareVar decl t (s :: Γ) = .ok Δ) :
    ∃ g, Δ = g :: Γ ∧ g.fns = [] ∧ Checked (g :: Γ) := by
  obtain ⟨fresh, rfl⟩ := declareVar_cons_ok_iff.mp run
  have once := Scope.nodup_declared (Binding.of decl t) h.1.1 fresh
  refine ⟨_, rfl, bare, ⟨once, ?_⟩, h.2⟩
  intro f member
  rw [Scope.fns_withVar, bare] at member
  cases member

theorem Checked.checkVars {vars : List VarDecl} : ∀ {s : Scope Ty}, Checked (s :: Γ) →
    s.fns = [] → Expr.checkVars vars (s :: Γ) = (.ok (), Δ) →
      ∃ g, Δ = g :: Γ ∧ g.fns = [] ∧ Checked (g :: Γ) := by
  induction vars with
  | nil =>
    intro s checked bare run
    cases (Action.pure_ok_iff.mp run).2
    exact ⟨s, rfl, bare, checked⟩
  | cons d ds ih =>
    intro s checked bare run
    obtain ⟨_, Θ, _, _, declared, others⟩ := checkVars_cons_ok_iff.mp run
    obtain ⟨g, rfl, bare', checked'⟩ := checked.declareVar bare declared
    exact ih checked' bare' others

theorem Checked.declareArgs {args : List ArgDecl} : ∀ {s : Scope Ty}, Checked (s :: Γ) →
    s.fns = [] → Expr.declareArgs args (s :: Γ) = (.ok (), Δ) →
      ∃ g, Δ = g :: Γ ∧ g.fns = [] ∧ Checked (g :: Γ) := by
  induction args with
  | nil =>
    intro s checked bare run
    cases (Action.pure_ok_iff.mp run).2
    exact ⟨s, rfl, bare, checked⟩
  | cons a as ih =>
    intro s checked bare run
    obtain ⟨Θ, declared, others⟩ := declareArgs_cons_ok_iff.mp run
    obtain ⟨g, rfl, bare', checked'⟩ := checked.declareVar bare declared
    exact ih checked' bare' others

theorem Checked.letScope {g h : Scope Ty} {fns : List FnDecl} (checked : Checked (g :: Γ))
    (bare : g.fns = []) (declared : Expr.declareFns fns (g :: Γ) = (.ok (), h :: Γ))
    (checks : ∀ f ∈ fns, FnChecks (h :: Γ) f) (formed : FnLiteralsFormed fns) :
    Checked (h :: Γ) := by
  have built := fns_of_declareFns declared
  rw [List.cons.injEq] at built
  obtain ⟨rfl, _⟩ := built
  refine ⟨⟨checked.1.1, ?_⟩, checked.2⟩
  intro f member
  rw [Scope.fns_withFns, bare, List.nil_append] at member
  exact ⟨checks f member, fnLiteralsFormed_iff.mp formed f member⟩

theorem Checked.ofVar (h : Checked Γ) (loop : VarDecl) :
    Checked (Scope.ofVar loop t :: Γ) := ⟨⟨by simp [Scope.ofVar, Scope.varNames], nofun⟩, h⟩

end TypedLet
