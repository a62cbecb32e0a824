import TypedLet.Proofs.Conversion.Recast

/-
What a conversion refuses. The casts are decided on the types that are recorded, a conversion
on the items that are there. The two come to the same but for empty arrays: an empty array is
retyped to any element type, also to one that its own does not cast to. So a conversion that
the casts do not allow is refused, or else it retypes an empty array in this way.
-/
namespace TypedLet

namespace Ty

theorem castsTo_of_mem_zip {s d : Ty} : ∀ {ss ds : List Ty}, eachCastsTo ss ds = true →
    (s, d) ∈ ss.zip ds → s.castsTo d = true
  | [], ds, _, member => by simp at member
  | _ :: _, [], _, member => by simp at member
  | t :: ss, u :: ds, casts, member => by
    rw [eachCastsTo, Bool.and_eq_true] at casts
    rcases List.mem_cons.mp member with first | later
    · cases first
      exact casts.1
    · exact castsTo_of_mem_zip casts.2 later

end Ty

namespace Value

/-- On the way to the type there is an empty array whose element type does not cast to the
    one it would get. -/
inductive Retypes : Value → Ty → Prop
  | empty {s d} (refused : s.castsTo d = false) : Retypes (array s []) (.array d)
  | inArray {s items v d} (member : v ∈ items) (inside : Retypes v d) :
      Retypes (array s items) (.array d)
  | spread {types items v d} (member : v ∈ items) (inside : Retypes v d) :
      Retypes (tuple types items) (.array d)
  | inTuple {types items targets v d} (member : (v, d) ∈ items.zip targets)
      (inside : Retypes v d) : Retypes (tuple types items) (.tuple targets)

/-- The conversion is refused, and with it the cast of a part of the value. -/
def Refused (v : Value) (target : Ty) : Prop :=
  ∃ source part, v.convert target = .error (.conversion source part)

theorem not_castsTo_of_retypes {v : Value} {target : Ty} (retypes : v.Retypes target) :
    v.WellFormed → v.type.castsTo target = false := by
  induction retypes with
  | empty refused =>
    intro _
    rw [type, Ty.castsTo, refused]
  | inArray member inside ih =>
    intro formed
    rw [type, Ty.castsTo, ← formed.1 _ member]
    exact ih (allWellFormed_iff.mp formed.2 _ member)
  | @spread types items v d member inside ih =>
    intro formed
    have refused := ih (allWellFormed_iff.mp formed.2 _ member)
    have there : v.type ∈ types := formed.1 ▸ List.mem_map_of_mem member
    rw [type, Ty.castsTo, Bool.eq_false_iff]
    intro casts
    rw [Ty.allCastTo_iff.mp casts _ there] at refused
    cases refused
  | @inTuple types items targets v d member inside ih =>
    intro formed
    have refused := ih (allWellFormed_iff.mp formed.2 _ (List.of_mem_zip member).1)
    have there : (v.type, d) ∈ types.zip targets := by
      rw [formed.1, ← List.map_id targets, List.zip_map]
      exact List.mem_map_of_mem member
    rw [type, Ty.castsTo, Bool.eq_false_iff]
    intro casts
    rw [Ty.castsTo_of_mem_zip casts there] at refused
    cases refused

theorem before_error {first : Except Fault Value} {others : Except Fault (List Value)}
    {fault : Fault} (run : before first others = .error fault) :
    first = .error fault ∨ others = .error fault := by
  cases first with
  | error other =>
    cases run
    exact .inl rfl
  | ok w =>
    cases others with
    | error other =>
      cases run
      exact .inr rfl
    | ok rest => cases run

theorem map_error {f : α → β} {x : Except Fault α} {fault : Fault}
    (run : x.map f = .error fault) : x = .error fault := by
  cases x with
  | error other =>
    cases run
    rfl
  | ok a => cases run

mutual
theorem conversion_of_recast_error : ∀ (v : Value) {target : Ty} {fault : Fault},
    v.recast target = .error fault → ∃ source part, fault = .conversion source part
  | void, target, fault, run | int _, target, fault, run | float _, target, fault, run
  | bool _, target, fault, run | str _, target, fault, run => by
    cases target <;> cases run <;> exact ⟨_, _, rfl⟩
  | array element items, target, fault, run => by
    cases target with
    | void => cases run
    | array t => exact conversion_of_recastAll_error items (map_error run)
    | _ =>
      cases run
      exact ⟨_, _, rfl⟩
  | tuple types items, target, fault, run => by
    cases target with
    | void => cases run
    | array t => exact conversion_of_recastAll_error items (map_error run)
    | tuple targets =>
      rw [recast] at run
      split at run
      · cases run
        exact ⟨_, _, rfl⟩
      · exact conversion_of_recastEach_error items (map_error run)
    | _ =>
      cases run
      exact ⟨_, _, rfl⟩
theorem conversion_of_recastAll_error : ∀ (vs : List Value) {target : Ty} {fault : Fault},
    recastAll vs target = .error fault → ∃ source part, fault = .conversion source part
  | [], target, fault, run => by cases run
  | v :: vs, target, fault, run => by
    rcases before_error run with first | others
    · exact conversion_of_recast_error v first
    · exact conversion_of_recastAll_error vs others
theorem conversion_of_recastEach_error : ∀ (vs : List Value) {targets : List Ty} {fault : Fault},
    recastEach vs targets = .error fault → ∃ source part, fault = .conversion source part
  | [], targets, fault, run | _ :: _, [], fault, run => by cases run
  | v :: vs, target :: targets, fault, run => by
    rcases before_error run with first | others
    · exact conversion_of_recast_error v first
    · exact conversion_of_recastEach_error vs others
end

mutual
/-- What is recast has a type that casts, or an empty array in it is retyped. -/
theorem casts_or_retypes : ∀ (v : Value) {target : Ty} {w : Value}, v.WellFormed →
    v.recast target = .ok w → v.type.castsTo target = true ∨ v.Retypes target
  | void, target, w, _, run | int _, target, w, _, run | float _, target, w, _, run
  | bool _, target, w, _, run | str _, target, w, _, run => by
    cases target <;> cases run <;> exact .inl rfl
  | array element items, target, w, formed, run => by
    cases target with
    | void => exact .inl rfl
    | array t =>
      obtain ⟨ws, inside, rfl⟩ := map_ok run
      rw [type, Ty.castsTo]
      -- Without items nothing is asked, and the two element types decide.
      cases items with
      | nil =>
        cases casts : element.castsTo t with
        | true => exact .inl rfl
        | false => exact .inr (.empty casts)
      | cons v vs =>
        rcases castAll_or_retypes (v :: vs) formed.2 inside with casts | ⟨u, member, part⟩
        · rw [← formed.1 v List.mem_cons_self]
          exact .inl (casts v List.mem_cons_self)
        · exact .inr (.inArray member part)
    | _ => cases run
  | tuple types items, target, w, formed, run => by
    cases target with
    | void => exact .inl rfl
    | array t =>
      obtain ⟨ws, inside, rfl⟩ := map_ok run
      rcases castAll_or_retypes items formed.2 inside with casts | ⟨u, member, part⟩
      · rw [type, Ty.castsTo, formed.1, Ty.allCastTo_iff]
        exact .inl (List.forall_mem_map.mpr casts)
      · exact .inr (.spread member part)
    | tuple targets =>
      rw [recast] at run
      split at run
      · cases run
      · next count =>
        obtain ⟨ws, inside, rfl⟩ := map_ok run
        have tall := (Decidable.not_not.mp count).symm
        rcases castEach_or_retypes items tall formed.2 inside with casts | ⟨u, d, member, part⟩
        · rw [type, Ty.castsTo, formed.1]
          exact .inl casts
        · exact .inr (.inTuple member part)
    | _ => cases run
theorem castAll_or_retypes : ∀ (vs : List Value) {target : Ty} {ws : List Value},
    AllWellFormed vs → recastAll vs target = .ok ws →
      (∀ v ∈ vs, v.type.castsTo target = true) ∨ ∃ v ∈ vs, v.Retypes target
  | [], target, ws, _, run => .inl nofun
  | v :: vs, target, ws, formed, run => by
    obtain ⟨w, rest, first, others, rfl⟩ := before_ok run
    rcases casts_or_retypes v formed.1 first with here | part
    · rcases castAll_or_retypes vs formed.2 others with casts | ⟨u, member, part⟩
      · exact .inl (List.forall_mem_cons.mpr ⟨here, casts⟩)
      · exact .inr ⟨u, List.mem_cons_of_mem v member, part⟩
    · exact .inr ⟨v, List.mem_cons_self, part⟩
theorem castEach_or_retypes : ∀ (vs : List Value) {targets : List Ty} {ws : List Value},
    vs.length = targets.length → AllWellFormed vs → recastEach vs targets = .ok ws →
      Ty.eachCastsTo (vs.map type) targets = true ∨
        ∃ v d, (v, d) ∈ vs.zip targets ∧ v.Retypes d
  | [], [], ws, _, _, run => .inl rfl
  | [], _ :: _, ws, count, _, run | _ :: _, [], ws, count, _, run => by simp at count
  | v :: vs, target :: targets, ws, count, formed, run => by
    obtain ⟨w, rest, first, others, rfl⟩ := before_ok run
    rcases casts_or_retypes v formed.1 first with here | part
    · rcases castEach_or_retypes vs (by simpa using count) formed.2 others with
        casts | ⟨u, d, member, part⟩
      · refine .inl ?_
        rw [List.map_cons, Ty.eachCastsTo, here, casts]
        rfl
      · exact .inr ⟨u, d, List.mem_cons_of_mem _ member, part⟩
    · exact .inr ⟨v, target, List.mem_cons_self, part⟩
end

/-- The casts do not allow a well-formed value to convert to a type exactly when the conversion
    is refused or retypes an empty array to an element type that its own does not cast to. So
    where there is no such empty array, whatever the casts do not allow is refused. -/
theorem convert_refused_iff {v : Value} (formed : v.WellFormed) (target : Ty) :
    v.type.castsTo target = false ↔ v.Refused target ∨ v.Retypes target := by
  constructor
  · intro refused
    have same := convert_eq_recast v target formed
    cases run : v.recast target with
    | error fault =>
      obtain ⟨source, part, rfl⟩ := conversion_of_recast_error v run
      exact .inl ⟨source, part, same.trans run⟩
    | ok w =>
      rcases casts_or_retypes v formed run with casts | retypes
      · rw [refused] at casts
        cases casts
      · exact .inr retypes
  · rintro (⟨source, part, run⟩ | retypes)
    · rw [Bool.eq_false_iff]
      intro casts
      obtain ⟨w, ran, _⟩ := convertsTo_of_castsTo v target formed casts
      rw [run] at ran
      cases ran
    · exact not_castsTo_of_retypes retypes formed

/-- Str does not cast to Integer, yet the empty array of Str becomes one of Integer. -/
theorem convert_refused_iff_empty :
    let v := array .str []
    let target := Ty.array .integer
    v.WellFormed ∧ v.type.castsTo target = false ∧ v.Retypes target ∧
      ¬ v.Refused target ∧ v.convert target = .ok (array .integer []) := by
  intro v target
  have formed : v.WellFormed := ⟨nofun, trivial⟩
  have retypes : v.Retypes target := .empty rfl
  have run : v.convert target = .ok (array .integer []) := rfl
  refine ⟨formed, (convert_refused_iff formed target).mpr (.inr retypes), retypes, ?_, run⟩
  rintro ⟨source, part, refused⟩
  rw [run] at refused
  cases refused

end Value
end TypedLet
