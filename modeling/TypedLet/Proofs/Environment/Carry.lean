import TypedLet.Environment.Action
import TypedLet.Proofs.Environment.Entries

/-
Changing what variables carry. A map over the carried things leaves names,
declarations and functions alone, so every lookup and every declaration gives
the mapped answer. The outline of scopes is what is left when nothing is carried:
which names stand where, and for what declaration.
-/
namespace TypedLet

def Binding.mapInfo (f : α → β) (b : Binding α) : Binding β := { b with info := f b.info }

def Scope.mapInfo (f : α → β) (s : Scope α) : Scope β := ⟨s.vars.map (·.mapInfo f), s.functions⟩

namespace Scopes

def mapInfo (f : α → β) (scopes : Scopes α) : Scopes β := List.map (Scope.mapInfo f) scopes

def outline (scopes : Scopes α) : Scopes Unit := scopes.mapInfo fun _ => ()

end Scopes

variable {f : α → β}

@[simp] theorem Binding.name_mapInfo (b : Binding α) : (b.mapInfo f).name = b.name := rfl

@[simp] theorem Scope.fns_mapInfo (s : Scope α) : (s.mapInfo f).fns = s.fns := rfl

theorem Scope.fns_of_mapInfo {g : γ → β} {s : Scope α} {t : Scope γ}
    (same : s.mapInfo f = t.mapInfo g) : s.fns = t.fns := by
  rw [← fns_mapInfo (f := f), same, fns_mapInfo]

@[simp] theorem Scope.findFn_mapInfo (s : Scope α) (name : String) :
    (s.mapInfo f).findFn name = s.findFn name := rfl

@[simp] theorem Scope.varNames_mapInfo (s : Scope α) : (s.mapInfo f).varNames = s.varNames := by
  simp [Scope.varNames, Scope.mapInfo]

theorem Scope.findVar_mapInfo (s : Scope α) (name : String) :
    (s.mapInfo f).findVar name = (s.findVar name).map (·.mapInfo f) := by
  simp only [Scope.findVar, Scope.mapInfo, List.find?_map]
  rfl

theorem Scope.mapInfo_setVar (s : Scope α) (name : String) (a : α)
    (same : ∀ b ∈ s.vars, b.name = name → f b.info = f a) :
    (s.setVar name a).mapInfo f = s.mapInfo f := by
  simp only [Scope.setVar, Scope.mapInfo, List.map_map, Scope.mk.injEq, and_true]
  apply List.map_congr_left
  intro b member
  simp only [Function.comp_apply]
  split
  · rename_i named
    rw [Binding.mapInfo, Binding.mapInfo, same b member named]
  · rfl

namespace Scopes

@[simp] theorem mapInfo_nil : mapInfo f ([] : Scopes α) = [] := rfl

@[simp] theorem mapInfo_cons (s : Scope α) (outer : Scopes α) :
    mapInfo f (s :: outer) = s.mapInfo f :: mapInfo f outer := rfl

@[simp] theorem mapInfo_append (inner outer : Scopes α) :
    mapInfo f (inner ++ outer) = mapInfo f inner ++ mapInfo f outer := by
  simp [mapInfo]

@[simp] theorem length_mapInfo (scopes : Scopes α) :
    (mapInfo f scopes).length = scopes.length := by
  simp [mapInfo]

theorem length_of_outline {scopes : Scopes α} {others : Scopes β}
    (same : outline scopes = outline others) : scopes.length = others.length := by
  have count := congrArg List.length same
  rwa [outline, outline, length_mapInfo, length_mapInfo] at count

@[simp] theorem outermost_mapInfo (scopes : Scopes α) (depth : Nat) :
    outermost (mapInfo f scopes) depth = mapInfo f (outermost scopes depth) := by
  simp [outermost, mapInfo]

@[simp] theorem innermost_mapInfo (scopes : Scopes α) (depth : Nat) :
    innermost (mapInfo f scopes) depth = mapInfo f (innermost scopes depth) := by
  simp [innermost, mapInfo]

theorem findVar_mapInfo (name : String) (scopes : Scopes α) :
    findVar name (mapInfo f scopes) = (findVar name scopes).map (·.mapInfo f) := by
  induction scopes with
  | nil => rfl
  | cons s outer ih =>
    rw [mapInfo_cons, findVar, findVar, Scope.findVar_mapInfo]
    cases s.findVar name with
    | none => exact ih
    | some b => rfl

theorem resolveFn_mapInfo (name : String) (scopes : Scopes α) :
    resolveFn name (mapInfo f scopes) = resolveFn name scopes := by
  induction scopes with
  | nil => rfl
  | cons s outer ih =>
    rw [mapInfo_cons, resolveFn, resolveFn, Scope.findFn_mapInfo, length_mapInfo, ih]

theorem declareVar_mapInfo (decl : Declaration) (a : α) (scopes : Scopes α) :
    declareVar decl (f a) (mapInfo f scopes) = (declareVar decl a scopes).map (mapInfo f) := by
  cases scopes with
  | nil => rfl
  | cons s outer =>
    rw [mapInfo_cons, declareVar, declareVar, Scope.findVar_mapInfo]
    cases s.findVar decl.name with
    | none => simp [Except.map, Scope.mapInfo, Scope.withVar, Binding.mapInfo, Binding.of]
    | some b => rfl

theorem declareFn_mapInfo (decl : FnDecl) (scopes : Scopes α) :
    declareFn decl (mapInfo f scopes) = (declareFn decl scopes).map (mapInfo f) := by
  cases scopes with
  | nil => rfl
  | cons s outer =>
    rw [mapInfo_cons, declareFn, declareFn, Scope.findFn_mapInfo]
    cases s.findFn decl.name with
    | none => simp [Except.map, Scope.mapInfo, Scope.withFns]
    | some first => rfl

def Distinct (scopes : Scopes α) : Prop := ∀ s ∈ scopes, s.varNames.Nodup

theorem find_var_of_mem {s : Scope α} (distinct : s.varNames.Nodup) {b : Binding α}
    (member : b ∈ s.vars) : s.findVar b.name = some b := by
  obtain ⟨vars, fns⟩ := s
  simp only [Scope.varNames, Scope.findVar] at *
  induction vars with
  | nil => simp at member
  | cons c rest ih =>
    simp only [List.map_cons, List.nodup_cons] at distinct
    rcases List.mem_cons.mp member with rfl | later
    · simp
    · have other : c.name ≠ b.name := by
        intro same
        exact distinct.1 (same ▸ List.mem_map_of_mem later)
      simpa [other] using ih distinct.2 later

theorem mapInfo_of_assign? {name : String} {a : α} {b : Binding α} :
    ∀ {scopes after : Scopes α}, Distinct scopes → findVar name scopes = some b →
      f b.info = f a → assign? name a scopes = some after →
        mapInfo f after = mapInfo f scopes := by
  intro scopes
  induction scopes with
  | nil => intro after _ _ _ run; simp [assign?] at run
  | cons s outer ih =>
    intro after distinct found same run
    rw [findVar] at found
    rw [assign?] at run
    cases here : s.findVar name with
    | none =>
      simp only [here] at found run
      obtain ⟨rest, below, rfl⟩ := Option.map_eq_some_iff.mp run
      have outside : Distinct outer := fun t mem => distinct t (List.mem_cons_of_mem s mem)
      simp [ih outside found same below]
    | some c =>
      simp only [here, Option.some.injEq] at found run
      subst found run
      rw [mapInfo_cons, mapInfo_cons, Scope.mapInfo_setVar]
      intro d member named
      have first := find_var_of_mem (distinct s (by simp)) member
      rw [named, here] at first
      rw [← Option.some.inj first, same]

theorem outline_of_assign? {name : String} {a : α} :
    ∀ {scopes after : Scopes α}, assign? name a scopes = some after →
      outline after = outline scopes := by
  intro scopes
  induction scopes with
  | nil => intro after run; simp [assign?] at run
  | cons s outer ih =>
    intro after run
    rw [assign?] at run
    split at run
    · cases run
      rw [outline, mapInfo_cons, Scope.mapInfo_setVar _ _ _ fun _ _ _ => rfl]
      rfl
    · obtain ⟨rest, below, rfl⟩ := Option.map_eq_some_iff.mp run
      have same := ih below
      simp only [outline, mapInfo_cons] at same ⊢
      rw [same]

end Scopes
end TypedLet
