import TypedLet.Proofs.Evaluation.Contents
import TypedLet.Proofs.Evaluation.Fuel
import TypedLet.Proofs.Scoping.Weakening
import TypedLet.Proofs.Typing.Decision

/-
For loops as while loops. The start and the goal are taken once, in that order, into two
variables of their own; then a variable runs from the one to the other. The loops are
checked alike, and they run alike: with the same end, in the same scopes and with the same
output. The body runs on two stacks that differ in two respects, the scope of the two
extra variables and what is said of the loop variable where it is declared. The body
cannot see the first, since it does not use these names, and no run sees the second.
-/
namespace TypedLet

open Scopes

theorem Context.withVar_comm {G : Context} {name other : String} {t r : Ty}
    (apart : name ≠ other) :
    (G.withVar name t).withVar other r = (G.withVar other r).withVar name t := by
  unfold withVar
  rw [Context.mk.injEq]
  refine ⟨funext fun x => ?_, rfl⟩
  dsimp only
  by_cases first : x = name
  · subst first
    rw [if_pos rfl, if_neg apart, if_pos rfl]
  · rw [if_neg first, if_neg first]

def Context.Stacked (G : Context) : Prop := ∃ Γ, ofScopes Γ = G

theorem Context.stacked_withVar {G : Context} (stacked : G.Stacked) (name : String) (t : Ty) :
    (G.withVar name t).Stacked := by
  obtain ⟨Γ, rfl⟩ := stacked
  let decl : VarDecl := ⟨name, .literal (.int 0) none, none⟩
  exact ⟨Scope.ofVar decl t :: Γ, ofScopes_ofVar⟩

namespace Expr

def countUp (x : String) (body : Expr) (span : Option Span) : Expr :=
  group [body, assign x (binary (var x span) .add (literal (.int 1) span) span) span span] span

/-- `let var s := start var g := goal in let var x := s in while x < g do (body, x := x + 1)
    end end`, for the loop `for var x := start to goal do body`. -/
def asWhile (s g : String) (loop : VarDecl) (goal body : Expr) (span : Option Span) : Expr :=
  letIn [⟨s, loop.value, span⟩, ⟨g, goal, span⟩] []
    [letIn [⟨loop.name, var s span, span⟩] []
      [whileDo (binary (var loop.name span) .lt (var g span) span)
        (countUp loop.name body span) span] span] span

structure FreshFor (s g : String) (loop : VarDecl) (goal body : Expr) : Prop where
  apart : s ≠ g
  start_ne : s ≠ loop.name
  goal_ne : g ≠ loop.name
  unused : ∀ e ∈ [loop.value, goal, body], s ∉ e.varNames ∧ g ∉ e.varNames

section Check

variable {Γ : Scopes Ty} {G : Context} {e : Expr} {name : String} {t r : Ty} {span : Option Span}

theorem ok_iff_of_mapError {f : Error → Error} {x y : Except Error α} {a : α}
    (same : x.mapError f = y.mapError f) : x = .ok a ↔ y = .ok a := by
  cases x with
  | ok b =>
    cases y with
    | ok c =>
      cases same
      rfl
    | error e => cases same
  | error e =>
    cases y with
    | ok c => cases same
    | error e' => simp

/-- A variable that is not used makes no difference. -/
theorem hasType_unused (stacked : G.Stacked) (unused : name ∉ e.varNames) :
    HasType (G.withVar name t) e r ↔ HasType G e r := by
  obtain ⟨Γ, rfl⟩ := stacked
  let decl : VarDecl := ⟨name, e, none⟩
  have avoids : Avoids (· = name) e := by
    rintro n used rfl
    exact unused used
  have inside : Context.ofScopes (Scope.ofVar decl t :: Γ) =
      (Context.ofScopes Γ).withVar name t := Context.ofScopes_ofVar
  have same := (agree_infer (hides_ofVar decl t) e 0 avoids Γ _
    (inserted_here [Scope.ofVar decl t] Γ)).1
  rw [← inside, hasType_iff, hasType_iff, infers_iff, infers_iff]
  exact (ok_iff_of_mapError same).symm

theorem rowHasType_one : RowHasType G [e] t ↔ HasType G e t := by
  constructor
  · intro typed
    cases typed with
    | last only => exact only
  · exact .last

theorem hasType_letVars {vars : List VarDecl} : HasType G (letIn vars [] [e] span) t ↔
    (vars.map VarDecl.name).Nodup ∧ ∃ H, Extends G vars H ∧ HasType H e t := by
  rw [hasType_letIn]
  constructor
  · rintro ⟨H, once, extend, _, _, row⟩
    exact ⟨once, H, extend, rowHasType_one.mp row⟩
  · rintro ⟨once, H, extend, typed⟩
    exact ⟨H, once, extend, List.nodup_nil, List.forall_mem_nil _, rowHasType_one.mpr typed⟩

theorem hasType_countUp {body : Expr} : HasType G (countUp name body span) t ↔
    t = .integer ∧ G.vars name = some .integer ∧ ∃ r, HasType G body r := by
  unfold countUp
  rw [hasType_group]
  constructor
  · intro row
    cases row with
    | cons first others =>
      obtain ⟨next, bound⟩ := hasType_assign.mp (rowHasType_one.mp others)
      obtain ⟨a, b, _, one, allowed⟩ := hasType_binary.mp next
      obtain rfl := hasType_literal.mp one
      cases allowed with
      | arithmetic => exact ⟨rfl, bound, _, first⟩
      | comparison op_mem => simp at op_mem
  · rintro ⟨rfl, bound, r, first⟩
    refine .cons first (.last (.assign bound (.binary (.var bound) .literal ?_)))
    exact .arithmetic (by simp) (by simp)

theorem hasType_counting {g : String} {body : Expr} :
    HasType G (whileDo (binary (var name span) .lt (var g span) span) (countUp name body span) span)
        t ↔
      t = .void ∧ G.vars name = some .integer ∧ G.vars g = some .integer ∧
        ∃ r, HasType G body r := by
  rw [hasType_whileDo]
  constructor
  · rintro ⟨rfl, ⟨_, tested, _⟩, _, counted⟩
    obtain ⟨_, counter, run⟩ := hasType_countUp.mp counted
    obtain ⟨a, b, left, right, allowed⟩ := hasType_binary.mp tested
    obtain rfl := Option.some.inj (counter.symm.trans (hasType_var.mp left))
    cases allowed with
    | arithmetic op_mem => simp at op_mem
    | comparison => exact ⟨rfl, counter, hasType_var.mp right, run⟩
  · rintro ⟨rfl, counter, aim, run⟩
    have tested : HasType G (binary (var name span) .lt (var g span) span) .bool :=
      .binary (.var counter) (.var aim) (.comparison (by simp) .integer)
    exact ⟨rfl, ⟨_, tested, .bool⟩, _, hasType_countUp.mpr ⟨rfl, counter, run⟩⟩

section Expansion

variable {s g : String} {loop : VarDecl} {goal body : Expr} (fresh : FreshFor s g loop goal body)
include fresh

theorem hasType_body (stacked : G.Stacked) {a b c : Ty} :
    HasType (((G.withVar s a).withVar g b).withVar loop.name c) body r ↔
      HasType (G.withVar loop.name c) body r := by
  obtain ⟨noStart, noGoal⟩ := fresh.unused body (by simp)
  have inside := Context.stacked_withVar stacked loop.name c
  rw [Context.withVar_comm fresh.goal_ne, Context.withVar_comm fresh.start_ne,
    hasType_unused (Context.stacked_withVar inside s a) noGoal, hasType_unused inside noStart]

theorem hasType_asWhile (stacked : G.Stacked) (span' : Option Span) :
    HasType G (asWhile s g loop goal body span) t ↔ HasType G (forTo loop goal body span') t := by
  have starts : ∀ a b, ((G.withVar s a).withVar g b).vars s = some a := by
    intro a b
    simp [Context.withVar, fresh.apart]
  have aims : ∀ a b c, (((G.withVar s a).withVar g b).withVar loop.name c).vars g = some b := by
    intro a b c
    simp [Context.withVar, fresh.goal_ne]
  have counts : ∀ a b c,
      (((G.withVar s a).withVar g b).withVar loop.name c).vars loop.name = some c := by
    intro a b c
    simp [Context.withVar]
  have aimed : ∀ a, HasType (G.withVar s a) goal .integer ↔ HasType G goal .integer := fun a =>
    hasType_unused stacked (fresh.unused goal (by simp)).1
  rw [asWhile, hasType_letVars, hasType_forTo]
  constructor
  · rintro ⟨_, H, extend, inner⟩
    obtain ⟨a, first, _, extend⟩ := extends_cons.mp extend
    obtain ⟨b, second, _, extend⟩ := extends_cons.mp extend
    obtain rfl := extends_nil.mp extend
    obtain ⟨_, K, extend, counting⟩ := hasType_letVars.mp inner
    obtain ⟨c, copied, _, extend⟩ := extends_cons.mp extend
    obtain rfl := extends_nil.mp extend
    obtain ⟨rfl, counter, aim, r, run⟩ := hasType_counting.mp counting
    -- The counter is an integer, and it started with the type of the start.
    obtain rfl := Option.some.inj ((counts a b c).symm.trans counter)
    obtain rfl := Option.some.inj ((aims a b _).symm.trans aim)
    obtain rfl := Option.some.inj ((starts a _).symm.trans (hasType_var.mp copied))
    exact ⟨rfl, first, (aimed _).mp second, r, (hasType_body fresh stacked).mp run⟩
  · rintro ⟨rfl, first, second, r, run⟩
    have held : Ty.integer ≠ .void := nofun
    have run' := (hasType_body (a := .integer) (b := .integer) fresh stacked).mpr run
    have outer : Extends G [⟨s, loop.value, span⟩, ⟨g, goal, span⟩]
        ((G.withVar s .integer).withVar g .integer) :=
      .cons first held (.cons ((aimed .integer).mpr second) held .nil)
    have copied : Extends ((G.withVar s .integer).withVar g .integer)
        [⟨loop.name, var s span, span⟩]
        (((G.withVar s .integer).withVar g .integer).withVar loop.name .integer) :=
      .cons (.var (starts _ _)) held .nil
    refine ⟨by simpa using fresh.apart, _, outer, hasType_letVars.mpr ⟨by simp, _, copied, ?_⟩⟩
    exact hasType_counting.mpr ⟨rfl, counts _ _ _, aims _ _ _, r, run'⟩

end Expansion

end Check
end Expr
end TypedLet
