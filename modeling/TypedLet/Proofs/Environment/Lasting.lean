import TypedLet.Proofs.Environment.Carry
import TypedLet.Proofs.Environment.Lookup

/-
What lasts of a scope. A property that an empty scope has, that declarations keep and that does
not depend on what variables carry lasts through all operations on scopes. Such a property is
that a scope is keyed: under each name it holds one declaration, and that one bears the name.
-/
namespace TypedLet

namespace Scope

structure Lasting (P : Scope α → Prop) : Prop where
  empty : P .empty
  declareVar : ∀ {s : Scope α} (decl : Declaration) (info : α), P s →
    s.findVar decl.name = none → P (s.withVar decl info)
  declareFn : ∀ {s : Scope α} (f : FnDecl), P s →
    s.findFn f.name = none → P (s.withFns [f])
  carry : ∀ {s s' : Scope α}, s'.mapInfo (fun _ => ()) = s.mapInfo (fun _ => ()) → P s → P s'

/-- No name is held twice, and what is found under a name is what is declared with it. -/
structure Keyed (s : Scope α) : Prop where
  varsOnce : s.varNames.Nodup
  fnsOnce : s.fnNames.Nodup
  findVar_iff : ∀ name b, s.findVar name = some b ↔ b ∈ s.vars ∧ b.decl.name = name
  findFn_iff : ∀ name f, s.findFn name = some f ↔ f ∈ s.fns ∧ f.name = name

theorem find?_name_iff {named : β → String} {xs : List β} (once : (xs.map named).Nodup)
    (name : String) (x : β) : xs.find? (named · = name) = some x ↔ x ∈ xs ∧ named x = name := by
  constructor
  · intro found
    exact ⟨List.mem_of_find?_eq_some found, by simpa using List.find?_some found⟩
  · rintro ⟨member, rfl⟩
    induction xs with
    | nil => cases member
    | cons y ys ih =>
      obtain ⟨first, others⟩ := List.nodup_cons.mp once
      rcases List.mem_cons.mp member with rfl | later
      · simp
      · have apart : named y ≠ named x := fun same => first (same ▸ List.mem_map_of_mem later)
        rw [List.find?_cons_of_neg (by simpa using apart)]
        exact ih others later

theorem keyed_of_nodup {s : Scope α} (vars : s.varNames.Nodup) (fns : s.fnNames.Nodup) :
    s.Keyed where
  varsOnce := vars
  fnsOnce := fns
  findVar_iff name b := by
    have found := find?_name_iff vars name b
    rwa [b.named] at found
  findFn_iff name f := by
    rw [findFn_eq]
    exact find?_name_iff (s.fnNames_eq ▸ fns) name f

theorem keyed_lasting : Lasting (Keyed (α := α)) where
  empty := keyed_of_nodup List.nodup_nil List.nodup_nil
  declareVar decl info keyed free := by
    have vars := nodup_declared (Binding.of decl info) keyed.varsOnce free
    exact keyed_of_nodup vars keyed.fnsOnce
  declareFn f keyed free := by
    have absent := Option.map_eq_none_iff.mp free
    have fns := nodup_declared (FnEntry.of f) keyed.fnsOnce absent
    exact keyed_of_nodup keyed.varsOnce fns
  carry same keyed := by
    have vars := congrArg Scope.varNames same
    have fns := congrArg Scope.fnNames same
    rw [varNames_mapInfo, varNames_mapInfo] at vars
    exact keyed_of_nodup (vars ▸ keyed.varsOnce) (fns ▸ keyed.fnsOnce)

end Scope

namespace Scopes

variable {P : Scope α → Prop} {scopes after : Scopes α}

theorem lasts_declareVar (lasting : Scope.Lasting P) {decl : Declaration} {info : α}
    (run : declareVar decl info scopes = .ok after) (all : ∀ s ∈ scopes, P s) :
    ∀ s ∈ after, P s := by
  cases scopes with
  | nil => cases run
  | cons s outer =>
    obtain ⟨here, outside⟩ := List.forall_mem_cons.mp all
    obtain ⟨free, rfl⟩ := declareVar_cons_ok_iff.mp run
    exact List.forall_mem_cons.mpr ⟨lasting.declareVar decl info here free, outside⟩

theorem lasts_declareFn (lasting : Scope.Lasting P) {f : FnDecl}
    (run : declareFn f scopes = .ok after) (all : ∀ s ∈ scopes, P s) : ∀ s ∈ after, P s := by
  cases scopes with
  | nil => cases run
  | cons s outer =>
    obtain ⟨here, outside⟩ := List.forall_mem_cons.mp all
    obtain ⟨free, rfl⟩ := declareFn_cons_ok_iff.mp run
    exact List.forall_mem_cons.mpr ⟨lasting.declareFn f here free, outside⟩

theorem lasts_of_outline (lasting : Scope.Lasting P) (same : outline after = outline scopes)
    (all : ∀ s ∈ scopes, P s) : ∀ s ∈ after, P s := by
  intro t member
  have seen : t.mapInfo (fun _ => ()) ∈ outline scopes := same ▸ List.mem_map_of_mem member
  obtain ⟨s, held, look⟩ := List.mem_map.mp seen
  exact lasting.carry look.symm (all s held)

theorem lasts_assign (lasting : Scope.Lasting P) {name : String} {info : α}
    (run : scopes.assign name info = .ok after) (all : ∀ s ∈ scopes, P s) : ∀ s ∈ after, P s := by
  unfold assign at run
  split at run
  · next found =>
    cases run
    exact lasts_of_outline lasting (outline_of_assign? found) all
  · cases run

end Scopes
end TypedLet
