import TypedLet.Proofs.Environment.Contents
import TypedLet.Proofs.Reordering.Trees

/-
Two stacks that hold the same in another arrangement. A scope of the first stack may stand
on the second one as two scopes, between which its variables are divided by their names;
its functions are those of the upper one. Each scope has the same functions up to their
order, on both stacks. Then a name stands for a variable with the same content, and for a
function with the same signature, whose body sees the corresponding part of the stack.
-/
namespace TypedLet

open TypedLet.Expr

namespace Scope

def SameFns (s s' : Scope α) : Prop :=
  ∀ name, Option.Rel ReorderedFn (s.findFn name) (s'.findFn name)

variable {s s' : Scope α}

theorem sameFns_refl (s : Scope α) : s.SameFns s := by
  intro name
  cases s.findFn name with
  | none => exact .none
  | some f => exact .some (reorderedFn_refl f)

theorem SameFns.cases (same : s.SameFns s') (name : String) :
    (s.findFn name = none ∧ s'.findFn name = none) ∨
      ∃ f f', s.findFn name = some f ∧ s'.findFn name = some f' ∧ ReorderedFn f f' := by
  have related := same name
  generalize s.findFn name = found, s'.findFn name = found' at related
  cases related with
  | none => exact .inl ⟨rfl, rfl⟩
  | some inner => exact .inr ⟨_, _, rfl, rfl, inner⟩

theorem findVar_eq_none_iff {name : String} :
    s.findVar name = none ↔ ∀ b ∈ s.vars, b.name ≠ name := by
  simp [findVar]

theorem setVar_of_none {name : String} (none : s.findVar name = none) (a : α) :
    s.setVar name a = s := by
  have others := findVar_eq_none_iff.mp none
  obtain ⟨vars, fns⟩ := s
  rw [setVar, Scope.mk.injEq]
  refine ⟨?_, rfl⟩
  conv_rhs => rw [← List.map_id vars]
  apply List.map_congr_left
  intro b member
  rw [if_neg (others b member), id]

theorem exists_of_mem_setVar {name : String} {a : α} {b : Binding α}
    (member : b ∈ (s.setVar name a).vars) : ∃ c ∈ s.vars, c.name = b.name := by
  obtain ⟨c, declared, rfl⟩ := List.mem_map.mp member
  refine ⟨c, declared, ?_⟩
  split <;> rfl

theorem map_content_setVar (s : Scope α) (name : String) (a : α) :
    (s.setVar name a).vars.map Binding.content =
      (s.vars.map Binding.content).map fun c => if c.1 = name then (c.1, a) else c :=
  congrArg Prod.fst (contents_setVar s name a)

end Scope

namespace Scopes

/-- A scope of the first stack and what stands for it on the second one: a scope and, when it
    is split, another one below. -/
inductive Layered (P : String → Prop) : Bool → Scope α → Scope α → Scopes α → Prop
  | whole {s s' : Scope α} (vars : s.vars.map Binding.content = s'.vars.map Binding.content)
      (fns : s.SameFns s') : Layered P false s s' []
  | split {s top under : Scope α} (others : ∀ b ∈ top.vars, ¬ P b.name)
      (own : ∀ b ∈ under.vars, P b.name) (bare : under.fns = [])
      (vars : s.vars.map Binding.content = (under.vars ++ top.vars).map Binding.content)
      (fns : s.SameFns top) : Layered P true s top [under]

/-- The second stack holds the same as the first, with two scopes for each one that is marked
    as split. -/
inductive Spread (P : String → Prop) : List Bool → Scopes α → Scopes α → Prop
  | nil : Spread P [] [] []
  | cons {split : Bool} {splits : List Bool} {s t : Scope α} {lower rest rest' : Scopes α}
      (first : Layered P split s t lower) (others : Spread P splits rest rest') :
      Spread P (split :: splits) (s :: rest) (t :: (lower ++ rest'))

/-- Two functions found on such stacks, with the numbers of scopes that their bodies see: these
    are stacks of that kind again, and so are the scopes above them. -/
inductive Alike (P : String → Prop) :
    List Bool → Scopes α → Scopes α → FnDecl × Nat → FnDecl × Nat → Prop
  | intro {above seen : List Bool} {inner inner' outer outer' : Scopes α} {f f' : FnDecl}
      (upper : Spread P above inner inner') (lower : Spread P seen outer outer')
      (same : ReorderedFn f f') : Alike P (above ++ seen) (inner ++ outer) (inner' ++ outer')
        (f, outer.length) (f', outer'.length)

variable {P : String → Prop} {split : Bool} {splits : List Bool} {s t : Scope α}
  {lower scopes scopes' : Scopes α}

theorem none_of_divided {top under : Scope α} (others : ∀ b ∈ top.vars, ¬ P b.name)
    (own : ∀ b ∈ under.vars, P b.name) (name : String) :
    top.findVar name = none ∨ under.findVar name = none := by
  by_cases here : P name
  · exact .inl (Scope.findVar_eq_none_iff.mpr fun b member same => others b member (same ▸ here))
  · exact .inr (Scope.findVar_eq_none_iff.mpr fun b member same => here (same ▸ own b member))

namespace Layered

theorem sameFns (layered : Layered P split s t lower) : s.SameFns t := by
  cases layered with
  | whole _ fns => exact fns
  | split _ _ _ _ fns => exact fns

theorem findVar (layered : Layered P split s t lower) (name : String) :
    (s.findVar name).map Binding.content =
      (Scopes.findVar name (t :: lower)).map Binding.content := by
  rw [Scope.map_content_findVar, findVar_cons, Option.map_or]
  cases layered with
  | whole vars _ =>
    rw [vars, ← Scope.map_content_findVar]
    exact Option.or_none.symm
  | @split _ _ under others own _ vars _ =>
    have swap : (t.findVar name).or (Scopes.findVar name [under]) =
        (under.findVar name).or (t.findVar name) := by
      rw [findVar_cons, Scopes.findVar, Option.or_none]
      rcases none_of_divided others own name with none | none
      · rw [none, Option.none_or, Option.or_none]
      · rw [none, Option.none_or, Option.or_none]
    rw [vars, ← Option.map_or, swap, Option.map_or, Scope.map_content_findVar,
      Scope.map_content_findVar, List.map_append, List.find?_append]

theorem findVar_top (layered : Layered P split s t lower) {name : String}
    (shown : split = true → ¬ P name) : s.findVar name = none ↔ t.findVar name = none := by
  have below : Scopes.findVar name lower = none := by
    cases layered with
    | whole => rfl
    | @split _ _ under _ own _ _ _ =>
      have absent : under.findVar name = none :=
        Scope.findVar_eq_none_iff.mpr fun b member same => shown rfl (same ▸ own b member)
      rw [findVar_cons, absent]
      rfl
  have held := layered.findVar name
  rw [findVar_cons, below, Option.or_none] at held
  rw [← Option.map_eq_none_iff (f := Binding.content), held, Option.map_eq_none_iff]

theorem setVar (layered : Layered P split s t lower) (name : String) (a : α) :
    Layered P split (s.setVar name a) (t.setVar name a) (lower.map (·.setVar name a)) := by
  cases layered with
  | whole vars fns =>
    refine .whole ?_ fns
    rw [Scope.map_content_setVar, Scope.map_content_setVar, vars]
  | split others own bare vars fns =>
    refine .split ?_ ?_ bare ?_ fns
    · intro b member
      obtain ⟨c, declared, same⟩ := Scope.exists_of_mem_setVar member
      exact same ▸ others c declared
    · intro b member
      obtain ⟨c, declared, same⟩ := Scope.exists_of_mem_setVar member
      exact same ▸ own c declared
    · rw [Scope.map_content_setVar, vars, List.map_append, List.map_append, List.map_append,
        Scope.map_content_setVar, Scope.map_content_setVar]

/-- An assignment changes the scope that has the variable, and the other one has none of that
    name. -/
theorem assign? (layered : Layered P split s t lower) (name : String) (a : α) :
    Scopes.assign? name a (t :: lower) =
      (s.findVar name).map fun _ => t.setVar name a :: lower.map (·.setVar name a) := by
  have held := congrArg Option.isSome (layered.findVar name)
  rw [Option.isSome_map, Option.isSome_map] at held
  cases here : s.findVar name with
  | none =>
    rw [here, ← isSome_assign? (t :: lower) name a] at held
    exact Option.not_isSome_iff_eq_none.mp (by simp [← held])
  | some b =>
    rw [here, Scopes.findVar] at held
    rw [Scopes.assign?]
    cases layered with
    | whole =>
      cases there : t.findVar name with
      | none => rw [there] at held; cases held
      | some c => rfl
    | @split _ _ under others own _ _ _ =>
      rw [Scopes.findVar] at held
      rw [Scopes.assign?]
      rcases none_of_divided others own name with none | none
      · rw [none] at held ⊢
        rw [Scope.setVar_of_none none]
        cases there : under.findVar name with
        | none => rw [there] at held; cases held
        | some c => rfl
      · rw [List.map_singleton, Scope.setVar_of_none none]
        cases there : t.findVar name with
        | none => rw [there, none] at held; cases held
        | some c => rfl

theorem resolveFn (layered : Layered P split s t lower) (name : String) :
    (s.findFn name = none ∧ Scopes.resolveFn name (t :: lower) = none) ∨
      ∃ f f', s.findFn name = some f ∧
        Scopes.resolveFn name (t :: lower) = some (f', lower.length + 1) ∧ ReorderedFn f f' := by
  have below : Scopes.resolveFn name lower = none := by
    cases layered with
    | whole => rfl
    | split _ _ bare =>
      rw [Scopes.resolveFn, Scope.findFn_eq, bare]
      rfl
  rw [Scopes.resolveFn]
  rcases layered.sameFns.cases name with ⟨here, there⟩ | ⟨f, f', here, there, inner⟩
  · rw [there]
    exact .inl ⟨here, below⟩
  · rw [there]
    exact .inr ⟨f, f', here, rfl, inner⟩

theorem declareVar (layered : Layered P split s t lower) {decl decl' : Declaration} (a : α)
    (named : decl.name = decl'.name) (shown : split = true → ¬ P decl.name) :
    Layered P split (s.withVar decl a) (t.withVar decl' a) lower := by
  have added : [Binding.content (.of decl a)] = [Binding.content (.of decl' a)] := by
    simp [Binding.content, named]
  cases layered with
  | whole vars fns =>
    refine .whole ?_ fns
    simpa [vars] using added
  | split others own bare vars fns =>
    refine .split ?_ own bare ?_ fns
    · have last : ¬ P (Binding.of decl' a).name := fun here => shown rfl (named ▸ here)
      exact List.forall_mem_append.mpr ⟨others, List.forall_mem_singleton.mpr last⟩
    · simpa [vars] using added

theorem withFns (layered : Layered P split s t lower) {fns fns' : List FnDecl}
    (same : (s.withFns fns).SameFns (t.withFns fns')) :
    Layered P split (s.withFns fns) (t.withFns fns') lower := by
  cases layered with
  | whole vars _ => exact .whole vars same
  | split others own bare vars _ => exact .split others own bare vars same

end Layered

namespace Spread

variable {rest rest' : Scopes α}

theorem findVar (spread : Spread P splits scopes scopes') (name : String) :
    (Scopes.findVar name scopes).map Binding.content =
      (Scopes.findVar name scopes').map Binding.content := by
  induction spread with
  | nil => rfl
  | @cons _ _ s t lower rest rest' first _ ih =>
    rw [findVar_cons, ← List.cons_append, findVar_append, Option.map_or, Option.map_or,
      first.findVar, ih]

theorem assign? (spread : Spread P splits scopes scopes') (name : String) (a : α) :
    (Scopes.assign? name a scopes = none ∧ Scopes.assign? name a scopes' = none) ∨
      ∃ after after', Scopes.assign? name a scopes = some after ∧
        Scopes.assign? name a scopes' = some after' ∧ Spread P splits after after' := by
  induction spread with
  | nil => exact .inl ⟨rfl, rfl⟩
  | @cons _ _ s t lower rest rest' first others ih =>
    rw [Scopes.assign?, ← List.cons_append, assign?_append, first.assign? name a]
    cases s.findVar name with
    | some b => exact .inr ⟨_, _, rfl, rfl, .cons (first.setVar name a) others⟩
    | none =>
      rcases ih with ⟨run, run'⟩ | ⟨after, after', run, run', related⟩
      · rw [run, run']
        exact .inl ⟨rfl, rfl⟩
      · rw [run, run']
        exact .inr ⟨_, _, rfl, rfl, .cons first related⟩

theorem append {above : List Bool} (upper : Spread P above scopes scopes')
    (lower : Spread P splits rest rest') :
    Spread P (above ++ splits) (scopes ++ rest) (scopes' ++ rest') := by
  induction upper with
  | nil => exact lower
  | cons first _ ih =>
    rw [List.cons_append, List.cons_append, List.cons_append, List.append_assoc]
    exact .cons first ih

theorem resolveFn (spread : Spread P splits scopes scopes') (name : String) :
    Option.Rel (Alike P splits scopes scopes') (Scopes.resolveFn name scopes)
      (Scopes.resolveFn name scopes') := by
  induction spread with
  | nil => exact .none
  | @cons split splits s t lower rest rest' first others ih =>
    rw [Scopes.resolveFn, ← List.cons_append, resolveFn_append]
    rcases first.resolveFn name with ⟨here, there⟩ | ⟨f, f', here, there, same⟩
    · rw [here, there]
      generalize Scopes.resolveFn name rest = found, Scopes.resolveFn name rest' = found' at ih
      cases ih with
      | none => exact .none
      | some inner =>
        obtain ⟨upper, lower, same⟩ := inner
        rw [← List.append_assoc]
        exact .some (.intro (.cons first upper) lower same)
    · rw [here, there]
      have count : (t :: (lower ++ rest')).length = lower.length + 1 + rest'.length := by
        simp only [List.length_cons, List.length_append]
        omega
      have whole : Alike P (split :: splits) (s :: rest) (t :: (lower ++ rest'))
          (f, (s :: rest).length) (f', (t :: (lower ++ rest')).length) :=
        .intro .nil (.cons first others) same
      rw [count] at whole
      exact .some whole

theorem enter (spread : Spread P splits scopes scopes') :
    Spread P (false :: splits) (Scope.empty :: scopes) (Scope.empty :: scopes') :=
  .cons (.whole rfl (Scope.sameFns_refl _)) spread

theorem refl (scopes : Scopes α) : Spread P (scopes.map fun _ => false) scopes scopes := by
  induction scopes with
  | nil => exact .nil
  | cons s rest ih => exact .cons (.whole rfl (Scope.sameFns_refl s)) ih

theorem uncons (spread : Spread P (split :: splits) scopes scopes') :
    ∃ s t lower rest rest', scopes = s :: rest ∧ scopes' = t :: (lower ++ rest') ∧
      Layered P split s t lower ∧ Spread P splits rest rest' := by
  cases spread with
  | cons first others => exact ⟨_, _, _, _, _, rfl, rfl, first, others⟩

theorem length (spread : Spread P splits scopes scopes') :
    scopes.length = splits.length ∧ scopes'.length = splits.length + splits.count true := by
  induction spread with
  | nil => exact ⟨rfl, rfl⟩
  | cons first _ ih =>
    rw [List.length_cons, List.length_cons, List.length_cons, List.length_append, ih.1, ih.2]
    cases first with
    | whole => simp; omega
    | split => simp; omega

/-- Stacks without a split scope that show the same declarations are equal. -/
theorem eq_of_outline (spread : Spread P splits scopes scopes') (whole : true ∉ splits)
    (look : outline scopes = outline scopes') : scopes = scopes' := by
  induction spread with
  | nil => rfl
  | cons first others ih =>
    cases first with
    | split => exact absurd List.mem_cons_self whole
    | whole vars _ =>
      obtain ⟨top, below⟩ := List.cons.inj look
      have fns := congrArg Scope.fns top
      rw [Scope.eq_of_contents (Prod.ext vars fns) top,
        ih (fun member => whole (List.mem_cons_of_mem _ member)) below]
      rfl

end Spread

end Scopes
end TypedLet
