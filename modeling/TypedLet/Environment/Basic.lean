import TypedLet.Builtin.Basic

/-
The environment: scopes, innermost first, shared in form by checking, where a
variable carries its type, and by evaluation, where it carries its value. A
scope keeps its variables and its functions in the order of their declaration.
Operations that can fail leave the scopes to the caller, who then still has
them as they were.
-/
namespace TypedLet

/-- An entry of a table of variables: the key, and the declared variable or argument that is kept
    under it, with what that carries. A declaration is kept under the name that it bears. -/
structure Binding (α : Type) where
  name : String
  decl : Declaration
  info : α
  named : name = decl.name

def Binding.of (decl : Declaration) (info : α) : Binding α := ⟨decl.name, decl, info, rfl⟩

/-- An entry of a table of functions, likewise. -/
structure FnEntry where
  name : String
  decl : FnDecl
  named : name = decl.name

def FnEntry.of (decl : FnDecl) : FnEntry := ⟨decl.name, decl, rfl⟩

structure Scope (α : Type) where
  vars : List (Binding α)
  functions : List FnEntry

/-- The scopes, innermost first. -/
abbrev Scopes (α : Type) := List (Scope α)

namespace Scope

def empty : Scope α := ⟨[], []⟩

def fns (s : Scope α) : List FnDecl := s.functions.map (·.decl)

def findVar (s : Scope α) (name : String) : Option (Binding α) :=
  s.vars.find? (·.name = name)

def findFn (s : Scope α) (name : String) : Option FnDecl :=
  (s.functions.find? (·.name = name)).map (·.decl)

def varNames (s : Scope α) : List String := s.vars.map (·.name)

def fnNames (s : Scope α) : List String := s.functions.map (·.name)

def withVar (s : Scope α) (decl : Declaration) (info : α) : Scope α :=
  { s with vars := s.vars ++ [.of decl info] }

def withFns (s : Scope α) (fns : List FnDecl) : Scope α :=
  { s with functions := s.functions ++ fns.map .of }

/-- Gives the variable of that name something else to carry. -/
def setVar (s : Scope α) (name : String) (info : α) : Scope α :=
  { s with vars := s.vars.map fun b => if b.name = name then { b with info } else b }

end Scope

namespace Scopes

variable (scopes : Scopes α)

/-- The scopes without the innermost one. -/
def leave : Scopes α → Except Error (Scopes α)
  | [] => .error (.internal .noScopeToLeave none)
  | _ :: outer => .ok outer

def declareVar (decl : Declaration) (info : α) : Scopes α → Except Error (Scopes α)
  | [] => .error (.internal .noScopeToDeclareIn none)
  | s :: outer =>
    match s.findVar decl.name with
    | some b => .error (.typing (.alreadyDeclared decl.name b.decl) decl.span)
    | none => .ok (s.withVar decl info :: outer)

def declareFn (decl : FnDecl) : Scopes α → Except Error (Scopes α)
  | [] => .error (.internal .noScopeToDeclareIn none)
  | s :: outer =>
    match s.findFn decl.name with
    | some first => .error (.typing (.alreadyDeclared decl.name (.fn first)) decl.span)
    | none => .ok (s.withFns [decl] :: outer)

/-- The innermost variable of a name. -/
def findVar (name : String) : Scopes α → Option (Binding α)
  | [] => none
  | s :: outer =>
    match s.findVar name with
    | some b => some b
    | none => findVar name outer

/-- The innermost function of a name, and how many scopes its body sees: the one
    that declares it and all outside of it. -/
def resolveFn (name : String) : Scopes α → Option (FnDecl × Nat)
  | [] => none
  | s :: outer =>
    match s.findFn name with
    | some f => some (f, outer.length + 1)
    | none => resolveFn name outer

def findFn (name : String) : Option FnDecl := (resolveFn name scopes).map (·.1)

/-- Appends what is not listed yet. -/
def addNew (names : List String) : List String → List String
  | [] => names
  | n :: ns => if n ∈ names then addNew names ns else addNew (names ++ [n]) ns

def collect (names : Scope α → List String) : Scopes α → List String → List String
  | [], listed => listed
  | s :: outer, listed => collect names outer (addNew listed (names s))

/-- The names of the variables that can be found, innermost first. -/
def visibleVars : List String := collect Scope.varNames scopes []

/-- The names of the functions that can be found, innermost first, and then
    those of the builtins. -/
def visibleFns : List String := addNew (collect Scope.fnNames scopes []) Builtin.names

def lookupVar (name : String) (span : Option Span) : Except Error (Binding α) :=
  match findVar name scopes with
  | some b => .ok b
  | none => .error (.typing (.unboundVariable name (visibleVars scopes)) span)

def lookupFn (name : String) (span : Option Span) : Except Error FnDecl :=
  match findFn scopes name with
  | some f => .ok f
  | none => .error (.typing (.undefinedFunction name (visibleFns scopes)) span)

/-- Gives the innermost variable of a name something else to carry. -/
def assign? (name : String) (info : α) : Scopes α → Option (Scopes α)
  | [] => none
  | s :: outer =>
    match s.findVar name with
    | some _ => some (s.setVar name info :: outer)
    | none => (assign? name info outer).map (s :: ·)

def assign (name : String) (info : α) : Except Error (Scopes α) :=
  match assign? name info scopes with
  | some after => .ok after
  | none => .error (.internal (.nothingToAssign name) none)

/-- The `depth` outermost scopes. -/
def outermost (depth : Nat) : Scopes α := scopes.drop (scopes.length - depth)

/-- The scopes above the `depth` outermost ones. -/
def innermost (depth : Nat) : Scopes α := scopes.take (scopes.length - depth)

/-- A function declared under `depth` scopes can run only on a stack that has
    them. -/
def checkFrame (depth : Int) : Except Error Nat :=
  if 0 < depth ∧ depth ≤ scopes.length then .ok depth.toNat
  else .error (.internal (.frameDepth depth scopes.length) none)

theorem innermost_append_outermost (depth : Nat) :
    innermost scopes depth ++ outermost scopes depth = scopes :=
  List.take_append_drop _ scopes

theorem length_outermost (depth : Nat) (h : depth ≤ scopes.length) :
    (outermost scopes depth).length = depth := by
  simp only [outermost, List.length_drop]
  omega

theorem length_of_assign? (name : String) (info : α) :
    ∀ {scopes after : Scopes α}, assign? name info scopes = some after →
      after.length = scopes.length := by
  intro scopes
  induction scopes with
  | nil => intro after h; simp [assign?] at h
  | cons s outer ih =>
    intro after h
    rw [assign?] at h
    split at h
    · cases h
      rfl
    · obtain ⟨rest, found, rfl⟩ := Option.map_eq_some_iff.mp h
      have same := ih found
      simp [same]

/-- A variable can be assigned exactly when it can be found. -/
theorem isSome_assign? (name : String) (info : α) :
    (assign? name info scopes).isSome = (findVar name scopes).isSome := by
  induction scopes with
  | nil => rfl
  | cons s outer ih =>
    rw [assign?, findVar]
    split
    · simp
    · next none => simpa [none] using ih

end Scopes
end TypedLet
