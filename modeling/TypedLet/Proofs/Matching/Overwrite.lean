import TypedLet.Proofs.Environment.Carry

/-
Assignments to several names at once. Of each name the innermost variable gets
what is new for it, and all other variables keep what they have. Assignments one
after another come to the same, where the later one of a name counts.
-/
namespace TypedLet
namespace Scope

variable (s : Scope α)

def overwrite (new : String → Option α) : Scope α :=
  { s with vars := s.vars.map fun b => { b with info := (new b.name).getD b.info } }

def pass (new : String → Option α) (name : String) : Option α :=
  if (s.findVar name).isSome then none else new name

theorem findVar_overwrite (new : String → Option α) (name : String) :
    (s.overwrite new).findVar name =
      (s.findVar name).map fun b => { b with info := (new name).getD b.info } := by
  simp only [findVar, overwrite, List.find?_map]
  change ((s.vars.find? (·.name = name)).map _) = _
  cases found : s.vars.find? (·.name = name) with
  | none => rfl
  | some b =>
    have named : b.name = name := by simpa using List.find?_some found
    simp [named]

theorem pass_overwrite (new next : String → Option α) :
    (s.overwrite new).pass next = s.pass next := by
  funext name
  rw [pass, pass, findVar_overwrite, Option.isSome_map]

def only (name : String) (a : α) (other : String) : Option α :=
  if other = name then some a else none

theorem setVar_eq_overwrite (name : String) (a : α) :
    s.setVar name a = s.overwrite (only name a) := by
  simp only [setVar, overwrite, Scope.mk.injEq, and_true]
  apply List.map_congr_left
  intro b _
  by_cases same : b.name = name
  · simp [only, same]
  · simp [only, same]

theorem overwrite_only_of_none {s : Scope α} {name : String} (a : α)
    (absent : s.findVar name = none) : s.overwrite (only name a) = s := by
  have others : ∀ b ∈ s.vars, b.name ≠ name := by
    intro b member same
    have unlike := List.find?_eq_none.mp absent b member
    simp [same] at unlike
  have kept : s.vars.map (fun b => { b with info := (only name a b.name).getD b.info }) =
      s.vars.map id := by
    apply List.map_congr_left
    intro b member
    simp [only, others b member]
  rw [overwrite, kept, List.map_id]

theorem pass_none : s.pass (fun _ => none) = fun _ => none := by
  funext name
  simp [pass]

theorem pass_only_of_some {s : Scope α} {name : String} (a : α) {b : Binding α}
    (here : s.findVar name = some b) : s.pass (only name a) = fun _ => none := by
  funext other
  by_cases same : other = name
  · simp [pass, same, here]
  · simp [pass, only, same]

theorem pass_only_of_none {s : Scope α} {name : String} (a : α)
    (absent : s.findVar name = none) : s.pass (only name a) = only name a := by
  funext other
  by_cases same : other = name
  · simp [pass, same, absent]
  · simp [pass, only, same]

end Scope

namespace Scopes

/-- Gives the innermost variable of each name what is new for it. -/
def overwrite (new : String → Option α) : Scopes α → Scopes α
  | [] => []
  | s :: outer => s.overwrite new :: overwrite (s.pass new) outer

theorem overwrite_none (scopes : Scopes α) : overwrite (fun _ => none) scopes = scopes := by
  induction scopes with
  | nil => rfl
  | cons s outer ih =>
    rw [overwrite, s.pass_none, ih]
    simp [Scope.overwrite]

theorem length_overwrite (scopes : Scopes α) : ∀ new : String → Option α,
    (overwrite new scopes).length = scopes.length := by
  induction scopes with
  | nil => intro new; rfl
  | cons s outer ih => intro new; rw [overwrite, List.length_cons, List.length_cons, ih]

theorem overwrite_overwrite (scopes : Scopes α) : ∀ first next : String → Option α,
    overwrite next (overwrite first scopes) =
      overwrite (fun name => (next name).or (first name)) scopes := by
  induction scopes with
  | nil => intro first next; rfl
  | cons s outer ih =>
    intro first next
    have here : (s.overwrite first).overwrite next =
        s.overwrite fun name => (next name).or (first name) := by
      simp only [Scope.overwrite, List.map_map, Scope.mk.injEq, and_true]
      apply List.map_congr_left
      intro b _
      change { b with info := (next b.name).getD ((first b.name).getD b.info) } = _
      cases next b.name <;> rfl
    have below : (fun name => (s.pass next name).or (s.pass first name)) =
        s.pass fun name => (next name).or (first name) := by
      funext name
      simp only [Scope.pass]
      split <;> rfl
    rw [overwrite, overwrite, overwrite, here, Scope.pass_overwrite, ih, below]

theorem overwrite_of_assign? {name : String} {a : α} :
    ∀ {scopes after : Scopes α}, assign? name a scopes = some after →
      after = overwrite (Scope.only name a) scopes := by
  intro scopes
  induction scopes with
  | nil => intro after run; cases run
  | cons s outer ih =>
    intro after run
    rw [assign?] at run
    cases here : s.findVar name with
    | some b =>
      rw [here] at run
      cases run
      rw [overwrite, Scope.pass_only_of_some a here, overwrite_none, s.setVar_eq_overwrite]
    | none =>
      rw [here] at run
      obtain ⟨rest, below, rfl⟩ := Option.map_eq_some_iff.mp run
      rw [overwrite, Scope.overwrite_only_of_none a here, Scope.pass_only_of_none a here,
        ← ih below]

theorem findVar_overwrite (name : String) (scopes : Scopes α) : ∀ new : String → Option α,
    findVar name (overwrite new scopes) =
      (findVar name scopes).map fun b => { b with info := (new name).getD b.info } := by
  induction scopes with
  | nil => intro new; rfl
  | cons s outer ih =>
    intro new
    rw [overwrite, findVar, findVar, Scope.findVar_overwrite]
    cases here : s.findVar name with
    | some b => rfl
    | none =>
      have goes : s.pass new name = new name := by simp [Scope.pass, here]
      simp only [Option.map_none, ih, goes]

end Scopes
end TypedLet
