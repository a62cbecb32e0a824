import TypedLet.Proofs.Checking.Accept
import TypedLet.Proofs.Environment.Carry
import TypedLet.Proofs.Typing.Values

/-
Scopes of values against scopes of types. Values fit types when the same variables
and functions stand in the same places and every variable carries a well-formed value
of its type. What finds, declares or assigns on one side does so on the other, and
they fit again.
-/
namespace TypedLet

def Value.Has (v : Value) (t : Ty) : Prop := v.type = t ∧ v.WellFormed

def Scope.Formed (s : Scope Value) : Prop := ∀ b ∈ s.vars, b.info.WellFormed

structure Fits (Γ : Scopes Ty) (scopes : Scopes Value) : Prop where
  types : scopes.mapInfo Value.type = Γ
  formed : ∀ s ∈ scopes, s.Formed

namespace Fits

open Scopes

variable {Γ Δ : Scopes Ty} {scopes : Scopes Value}

theorem length (h : Fits Γ scopes) : scopes.length = Γ.length := by
  rw [← h.types, length_mapInfo]

theorem cons_iff {g : Scope Ty} {s : Scope Value} :
    Fits (g :: Γ) (s :: scopes) ↔ (s.mapInfo Value.type = g ∧ s.Formed) ∧ Fits Γ scopes := by
  constructor
  · rintro ⟨types, formed⟩
    rw [mapInfo_cons, List.cons.injEq] at types
    rw [List.forall_mem_cons] at formed
    exact ⟨⟨types.1, formed.1⟩, types.2, formed.2⟩
  · rintro ⟨⟨type, here⟩, types, formed⟩
    exact ⟨by rw [mapInfo_cons, type, types], List.forall_mem_cons.mpr ⟨here, formed⟩⟩

theorem uncons {g : Scope Ty} (h : Fits (g :: Γ) scopes) :
    ∃ s rest, scopes = s :: rest ∧ Fits Γ rest := by
  cases scopes with
  | nil => cases h.types
  | cons s rest => exact ⟨s, rest, rfl, (cons_iff.mp h).2⟩

theorem enter (h : Fits Γ scopes) : Fits (Scope.empty :: Γ) (Scope.empty :: scopes) :=
  cons_iff.mpr ⟨⟨rfl, nofun⟩, h⟩

theorem append {scopes' : Scopes Value} (h : Fits Γ scopes) (h' : Fits Δ scopes') :
    Fits (Γ ++ Δ) (scopes ++ scopes') := by
  refine ⟨by rw [mapInfo_append, h.types, h'.types], ?_⟩
  intro s member
  rcases List.mem_append.mp member with first | second
  · exact h.formed s first
  · exact h'.formed s second

theorem outermost (h : Fits Γ scopes) (depth : Nat) :
    Fits (Γ.outermost depth) (scopes.outermost depth) := by
  refine ⟨by rw [← outermost_mapInfo, h.types], ?_⟩
  intro s member
  exact h.formed s (List.mem_of_mem_drop member)

theorem innermost (h : Fits Γ scopes) (depth : Nat) :
    Fits (Γ.innermost depth) (scopes.innermost depth) := by
  refine ⟨by rw [← innermost_mapInfo, h.types], ?_⟩
  intro s member
  exact h.formed s (List.mem_of_mem_take member)

theorem findVar (h : Fits Γ scopes) {name : String} {b : Binding Ty}
    (found : Γ.findVar name = some b) :
    ∃ c, scopes.findVar name = some c ∧ c.info.Has b.info := by
  rw [← h.types, findVar_mapInfo] at found
  obtain ⟨c, there, rfl⟩ := Option.map_eq_some_iff.mp found
  obtain ⟨s, member, declared⟩ := mem_of_findVar there
  exact ⟨c, there, rfl, h.formed s member c declared⟩

theorem resolveFn (h : Fits Γ scopes) (name : String) :
    scopes.resolveFn name = Γ.resolveFn name := by
  rw [← h.types, resolveFn_mapInfo]

theorem declareVar (h : Fits Γ scopes) {decl : Declaration} {t : Ty} {v : Value}
    (has : v.Has t) (run : Γ.declareVar decl t = .ok Δ) :
    ∃ after, scopes.declareVar decl v = .ok after ∧ Fits Δ after := by
  obtain ⟨rfl, formed⟩ := has
  have same := declareVar_mapInfo (f := Value.type) decl v scopes
  rw [h.types, run] at same
  cases scopes with
  | nil => cases same
  | cons s rest =>
    cases there : Scopes.declareVar decl v (s :: rest) with
    | error e => rw [there] at same; cases same
    | ok after =>
      rw [there] at same
      refine ⟨after, rfl, (Except.ok.inj same).symm, ?_⟩
      obtain ⟨_, rfl⟩ := declareVar_cons_ok_iff.mp there
      have ⟨first, others⟩ := List.forall_mem_cons.mp h.formed
      refine List.forall_mem_cons.mpr ⟨?_, others⟩
      intro b member
      rcases List.mem_append.mp member with old | new
      · exact first b old
      · rw [List.mem_singleton.mp new]
        exact formed

theorem declareFn (h : Fits Γ scopes) {f : FnDecl} (run : Γ.declareFn f = .ok Δ) :
    ∃ after, scopes.declareFn f = .ok after ∧ Fits Δ after := by
  have same := declareFn_mapInfo (f := Value.type) f scopes
  rw [h.types, run] at same
  cases scopes with
  | nil => cases same
  | cons s rest =>
    cases there : Scopes.declareFn f (s :: rest) with
    | error e => rw [there] at same; cases same
    | ok after =>
      rw [there] at same
      refine ⟨after, rfl, (Except.ok.inj same).symm, ?_⟩
      obtain ⟨_, rfl⟩ := declareFn_cons_ok_iff.mp there
      have ⟨first, others⟩ := List.forall_mem_cons.mp h.formed
      exact List.forall_mem_cons.mpr ⟨first, others⟩

theorem formed_of_assign? {name : String} {v : Value} (formed : v.WellFormed) :
    ∀ {scopes after : Scopes Value}, (∀ s ∈ scopes, s.Formed) →
      assign? name v scopes = some after → ∀ s ∈ after, s.Formed := by
  intro scopes
  induction scopes with
  | nil => intro after _ run; cases run
  | cons s rest ih =>
    intro after all run
    obtain ⟨first, others⟩ := List.forall_mem_cons.mp all
    rw [assign?] at run
    split at run
    · cases run
      refine List.forall_mem_cons.mpr ⟨?_, others⟩
      intro b member
      obtain ⟨c, old, rfl⟩ := List.mem_map.mp member
      split
      · exact formed
      · exact first c old
    · obtain ⟨below, found, rfl⟩ := Option.map_eq_some_iff.mp run
      exact List.forall_mem_cons.mpr ⟨first, ih others found⟩

theorem distinct (h : Fits Γ scopes) (once : Distinct Γ) : Distinct scopes := by
  intro s member
  have there : s.mapInfo Value.type ∈ Γ := by
    rw [← h.types]
    exact List.mem_map_of_mem member
  have nodup := once _ there
  rwa [Scope.varNames_mapInfo] at nodup

theorem assign? (h : Fits Γ scopes) (once : Distinct Γ) {name : String} {b : Binding Ty}
    {v : Value} (found : Γ.findVar name = some b) (has : v.Has b.info) :
    ∃ after, scopes.assign? name v = some after ∧ Fits Γ after := by
  obtain ⟨c, there, typed, _⟩ := h.findVar found
  have some := isSome_assign? scopes name v
  rw [there] at some
  obtain ⟨after, run⟩ := Option.isSome_iff_exists.mp some
  refine ⟨after, run, ?_, formed_of_assign? has.2 h.formed run⟩
  rw [mapInfo_of_assign? (h.distinct once) there (typed.trans has.1.symm) run, h.types]

end Fits
end TypedLet
