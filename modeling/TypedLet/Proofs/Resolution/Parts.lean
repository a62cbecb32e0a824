import TypedLet.Proofs.Resolution.Following

/-
Where the findings point. A place names a part of the tree. A lookup stands at an occurrence of
the name, and what it has found is declared in the tree at the place that the finding gives. So
two findings with one place are of one declaration, and not of two that look alike.

The invariant is that for every scope the tree declares, under its opener, what the scope has.
-/
namespace TypedLet

open Scopes

inductive Part where
  | expr (e : Expr)
  | body (es : List Expr)
  | decl (d : Declaration)
  | decls (ds : List Declaration)

def Expr.parts : Expr → List Part
  | literal .. | var .. => []
  | group body _ => body.map .expr
  | letIn vars fns body _ => [.decls (vars.map .var), .decls (fns.map .fn), .body body]
  | assign _ value _ _ => [.expr value]
  | matchWith pattern value _ => [.expr pattern, .expr value]
  | call _ args _ => args.map .expr
  | ifElse cond whenTrue whenFalse _ => [.expr cond, .expr whenTrue, .expr whenFalse]
  | whileDo cond body _ => [.expr cond, .expr body]
  | forTo loop goal body _ => [.decls [.var loop], .expr goal, .expr body]
  | binary left _ right _ => [.expr left, .expr right]
  | unary _ operand _ | cast operand _ _ => [.expr operand]
  | array items _ _ _ | tuple items _ => items.map .expr

/-- The name that an expression looks up itself. -/
def Expr.occurrence : Expr → Option String
  | var name _ | assign name _ _ _ | call name _ _ => some name
  | _ => none

namespace Part

def parts : Part → List Part
  | expr e => e.parts
  | body es => es.map expr
  | decl (.var d) => [expr d.value]
  | decl (.arg _) => []
  | decl (.fn f) => [decls (f.args.map .arg), expr f.body]
  | decls ds => ds.map decl

def follow (root : Part) : Place → Option Part
  | [] => some root
  | step :: place => (root.follow place).bind (·.parts[step]?)

end Part

/-- What was found under the name is declared in the tree where the finding says. -/
def Found.Declared (root : Part) (name : String) : Found → Prop
  | var _ node decl => decl.name = name ∧ root.follow node = some (.decl decl)
  | fn _ node decl => decl.name = name ∧ root.follow node = some (.decl (.fn decl))
  | builtin b => Builtin.find? name = some b
  | unbound => True

def Visit.Points (root : Part) (visit : Visit) : Prop :=
  ∃ e name, root.follow visit.place = some (.expr e) ∧ e.occurrence = some name ∧
    visit.found.Declared root name

variable {root : Part} {place : Place} {openers : List Place} {index : Nat}

def Along (root : Part) (place : Place) (index : Nat) (part : β → Part) (xs : List β) : Prop :=
  ∀ k x, xs[k]? = some x → root.follow ((k + index) :: place) = some (part x)

theorem Part.follow_cons {p : Part} (here : root.follow place = some p) (step : Nat) :
    root.follow (step :: place) = p.parts[step]? := by
  rw [follow, here, Option.bind_some]

theorem along_of_parts {p : Part} {part : β → Part} {xs : List β}
    (here : root.follow place = some p) (parts : p.parts = xs.map part) :
    Along root place 0 part xs := by
  intro k x member
  rw [Nat.add_zero, Part.follow_cons here, parts, List.getElem?_map, member, Option.map_some]

theorem along_of_decls {declare : β → Declaration} {xs : List β}
    (here : root.follow place = some (.decls (xs.map declare))) :
    Along root place 0 (fun x => .decl (declare x)) xs :=
  along_of_parts here List.map_map

theorem along_cons {part : β → Part} {x : β} {xs : List β}
    (h : Along root place index part (x :: xs)) :
    root.follow (index :: place) = some (part x) ∧ Along root place (index + 1) part xs := by
  constructor
  · have first := h 0 x rfl
    rwa [Nat.zero_add] at first
  · intro k y member
    have later := h (k + 1) y member
    rwa [Nat.add_right_comm] at later

theorem along_concat {part : β → Part} {x : β} {xs : List β} (h : Along root place 0 part xs)
    (last : root.follow (xs.length :: place) = some (part x)) :
    Along root place 0 part (xs ++ [x]) := by
  intro k y member
  rcases Nat.lt_trichotomy k xs.length with inside | rfl | outside
  · rw [List.getElem?_append_left inside] at member
    exact h k y member
  · rw [List.getElem?_concat_length] at member
    cases member
    exact last
  · rw [List.getElem?_eq_none (by simp; omega)] at member
    cases member

structure Scope.At (root : Part) (place : Place) (s : Scope α) : Prop where
  vars : Along root (0 :: place) 0 (fun b => .decl b.decl) s.vars
  fns : Along root (1 :: place) 0 (fun f => .decl (.fn f)) s.fns

namespace Scope.At

variable {s : Scope α}

theorem empty : (Scope.empty : Scope α).At root place := ⟨nofun, nofun⟩

theorem withVar (h : s.At root place) {decl : Declaration} (info : α)
    (declared : root.follow (s.vars.length :: 0 :: place) = some (.decl decl)) :
    (s.withVar decl info).At root place :=
  ⟨along_concat h.vars declared, h.fns⟩

theorem withFns (h : s.At root place) (bare : s.fns = []) {fns : List FnDecl}
    (declared : Along root (1 :: place) 0 (fun f => .decl (.fn f)) fns) :
    (s.withFns fns).At root place := by
  refine ⟨h.vars, ?_⟩
  rw [fns_withFns, bare]
  exact declared

end Scope.At

/-- The tree declares, under the opener of each scope, what the scope has. -/
abbrev Housed (root : Part) (openers : List Place) (scopes : Scopes α) : Prop :=
  Opened (fun openers s outer => s.At root (opener openers outer.length)) openers scopes

namespace Housed

variable {scopes : Scopes α} {name : String}

theorem enter (h : Housed root openers scopes) {s : Scope α} (here : s.At root place) :
    Housed root (openers ++ [place]) (s :: scopes) := by
  apply Opened.enter h
  rwa [opener_concat h.count]

theorem at_of_cut (h : Housed root openers scopes) {index : Nat} {s : Scope α} {outer : Scopes α}
    (cut : scopes.outermost (index + 1) = s :: outer) (count : outer.length = index) :
    s.At root (opener openers index) := by
  have here := h.of_cut cut count
  rwa [count, opener_take] at here

theorem declared_ofVar (h : Housed root openers scopes) :
    (Found.ofVar openers (scopes.locateVar name)).Declared root name := by
  cases found : scopes.locateVar name with
  | none => trivial
  | some spot =>
    obtain ⟨s, outer, cut, count, has, member⟩ := locateVar_cut found
    have here := h.at_of_cut cut count
    exact ⟨Scope.name_of_findVar has, here.vars spot.number spot.item member⟩

theorem declared_ofCallee (h : Housed root openers scopes) :
    (Found.ofCallee openers (scopes.callee name)).Declared root name := by
  rw [callee]
  cases found : scopes.locateFn name with
  | some spot =>
    obtain ⟨s, outer, cut, count, has, member⟩ := locateFn_cut found
    have here := h.at_of_cut cut count
    exact ⟨Scope.name_of_findFn has, here.fns spot.number spot.item member⟩
  | none =>
    cases builtin : Builtin.find? name with
    | some b => exact builtin
    | none => trivial

end Housed

namespace Expr

section Declarations

variable {Γ Δ : Scopes Ty}

theorem at_of_checkVars {vars : List VarDecl} : ∀ {s : Scope Ty}, s.At root place → s.fns = [] →
    Along root (0 :: place) s.vars.length (fun d => .decl (.var d)) vars →
      checkVars vars (s :: Γ) = (.ok (), Δ) → ∃ g, Δ = g :: Γ ∧ g.fns = [] ∧ g.At root place := by
  induction vars with
  | nil =>
    intro s here bare _ run
    cases (Action.pure_ok_iff.mp run).2
    exact ⟨s, rfl, bare, here⟩
  | cons d ds ih =>
    intro s here bare along run
    obtain ⟨t, Θ, _, _, declared, others⟩ := checkVars_cons_ok_iff.mp run
    obtain ⟨_, rfl⟩ := declareVar_cons_ok_iff.mp declared
    obtain ⟨first, rest⟩ := along_cons along
    apply ih (here.withVar t first) bare _ others
    simpa using rest

theorem at_of_declareArgs {args : List ArgDecl} : ∀ {s : Scope Ty}, s.At root place →
    Along root (0 :: place) s.vars.length (fun a => .decl (.arg a)) args →
      declareArgs args (s :: Γ) = (.ok (), Δ) → ∃ g, Δ = g :: Γ ∧ g.At root place := by
  induction args with
  | nil =>
    intro s here _ run
    cases (Action.pure_ok_iff.mp run).2
    exact ⟨s, rfl, here⟩
  | cons a as ih =>
    intro s here along run
    obtain ⟨Θ, declared, others⟩ := declareArgs_cons_ok_iff.mp run
    obtain ⟨_, rfl⟩ := declareVar_cons_ok_iff.mp declared
    obtain ⟨first, rest⟩ := along_cons along
    apply ih (here.withVar a.type first) _ others
    simpa using rest

end Declarations

end Expr

def Tree.part : Tree → Part
  | expr e => .expr e
  | block body => .body body

end TypedLet
