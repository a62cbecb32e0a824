import TypedLet.Proofs.Environment.Lookup
import TypedLet.Proofs.Reading.Bare

/-
Declarations and scopes without spans. Spans are only there for messages: every lookup and
every change does the same without them.
-/
namespace TypedLet

open TypedLet.Expr

def Declaration.bare : Declaration → Declaration
  | var d => var (bareVar d)
  | arg a => arg a.bare
  | fn f => fn (bareFn f)

@[simp] theorem Declaration.name_bare (d : Declaration) : d.bare.name = d.name := by
  cases d with
  | var d => exact bareVar_name d
  | arg a => rfl
  | fn f => exact bareFn_name f

@[simp] theorem Declaration.span_bare (d : Declaration) : d.bare.span = none := by
  cases d with
  | var d => cases d; rfl
  | arg a => rfl
  | fn f => cases f; rfl

def TypeError.bare : TypeError → TypeError
  | alreadyDeclared name first => alreadyDeclared name first.bare
  | mismatch expected got binding => mismatch expected got (binding.map Declaration.bare)
  | armMismatch whenTrue whenFalse _ => armMismatch whenTrue whenFalse none
  | itemMismatch expected got index origin _ => itemMismatch expected got index origin none
  | e => e

/-- An error without the spans that it points to. Its class and its message stay. -/
def Error.bare : Error → Error
  | typing cause _ => typing cause.bare none
  | internal cause _ => internal cause none
  | general text _ => general text none
  | divisionByZero => divisionByZero

def Binding.bare (b : Binding α) : Binding α :=
  ⟨b.name, b.decl.bare, b.info, b.named.trans b.decl.name_bare.symm⟩

def FnEntry.bare (e : FnEntry) : FnEntry :=
  ⟨e.name, bareFn e.decl, e.named.trans (bareFn_name e.decl).symm⟩

def Scope.bare (s : Scope α) : Scope α :=
  ⟨s.vars.map Binding.bare, s.functions.map FnEntry.bare⟩

namespace Scope

variable (s : Scope α) (name : String)

theorem findVar_bare : s.bare.findVar name = (s.findVar name).map Binding.bare := by
  rw [findVar, bare, List.find?_map]
  rfl

theorem findFn_bare : s.bare.findFn name = (s.findFn name).map bareFn := by
  rw [findFn, bare, List.find?_map, findFn, Option.map_map, Option.map_map]
  rfl

theorem setVar_bare (a : α) : (s.setVar name a).bare = s.bare.setVar name a := by
  simp only [setVar, bare, List.map_map, mk.injEq, and_true]
  apply List.map_congr_left
  intro b _
  change Binding.bare (if b.name = name then _ else _) = if b.name = name then _ else _
  split <;> rfl

end Scope

namespace Scopes

def bare (scopes : Scopes α) : Scopes α := List.map Scope.bare scopes

@[simp] theorem bare_cons (s : Scope α) (outer : Scopes α) :
    bare (s :: outer) = s.bare :: bare outer := rfl

@[simp] theorem bare_append (inner outer : Scopes α) :
    bare (inner ++ outer) = bare inner ++ bare outer := List.map_append

@[simp] theorem length_bare (scopes : Scopes α) : (bare scopes).length = scopes.length :=
  List.length_map _

theorem innermost_bare (scopes : Scopes α) (depth : Nat) :
    (bare scopes).innermost depth = bare (scopes.innermost depth) := by
  rw [innermost, innermost, length_bare, bare, bare, List.map_take]

theorem outermost_bare (scopes : Scopes α) (depth : Nat) :
    (bare scopes).outermost depth = bare (scopes.outermost depth) := by
  rw [outermost, outermost, length_bare, bare, bare, List.map_drop]

theorem findVar_bare (name : String) (scopes : Scopes α) :
    findVar name (bare scopes) = (findVar name scopes).map Binding.bare := by
  induction scopes with
  | nil => rfl
  | cons s outer ih =>
    rw [bare_cons, findVar, findVar, Scope.findVar_bare, ih]
    cases s.findVar name <;> rfl

theorem resolveFn_bare (name : String) (scopes : Scopes α) :
    resolveFn name (bare scopes) = (resolveFn name scopes).map fun r => (bareFn r.1, r.2) := by
  induction scopes with
  | nil => rfl
  | cons s outer ih =>
    rw [bare_cons, resolveFn, resolveFn, Scope.findFn_bare, ih, length_bare]
    cases s.findFn name <;> rfl

theorem assign?_bare (name : String) (a : α) (scopes : Scopes α) :
    assign? name a (bare scopes) = (assign? name a scopes).map bare := by
  induction scopes with
  | nil => rfl
  | cons s outer ih =>
    rw [bare_cons, assign?, assign?, Scope.findVar_bare, ih]
    cases s.findVar name with
    | some b => exact congrArg some (congrArg (· :: bare outer) (s.setVar_bare name a).symm)
    | none => cases assign? name a outer <;> rfl

theorem declareVar_bare (decl : Declaration) (a : α) (scopes : Scopes α) :
    declareVar decl.bare a (bare scopes) =
      ((declareVar decl a scopes).mapError Error.bare).map bare := by
  cases scopes with
  | nil => rfl
  | cons s outer =>
    rw [bare_cons, declareVar, declareVar, Scope.findVar_bare, decl.name_bare, decl.span_bare]
    cases s.findVar decl.name with
    | none =>
      change Except.ok _ = Except.ok (bare (_ :: outer))
      simp [Scope.bare, Scope.withVar, Binding.bare, Binding.of]
    | some b => rfl

theorem declareFn_bare (f : FnDecl) (scopes : Scopes α) :
    declareFn (bareFn f) (bare scopes) =
      ((declareFn f scopes).mapError Error.bare).map bare := by
  cases scopes with
  | nil => rfl
  | cons s outer =>
    rw [bare_cons, declareFn, declareFn, Scope.findFn_bare, bareFn_name, bareFn_span]
    cases s.findFn f.name with
    | none =>
      change Except.ok _ = Except.ok (bare (_ :: outer))
      simp [Scope.bare, Scope.withFns, FnEntry.bare, FnEntry.of]
    | some first => rfl

end Scopes

end TypedLet
