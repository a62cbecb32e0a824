import TypedLet.Proofs.Environment.Lookup

/-
The names that are listed as visible, and those that a lookup finds: they are the same. A name
is listed once, and the names of inner scopes come before those that only outer ones have.
-/
namespace TypedLet

namespace Scope

variable {n : String} {s : Scope α}

theorem isSome_findVar_iff : (s.findVar n).isSome ↔ n ∈ s.varNames := by
  simp [findVar, varNames]

theorem isSome_findFn_iff : (s.findFn n).isSome ↔ n ∈ s.fnNames := by
  simp [findFn, fnNames]

end Scope

namespace Scopes

section Listing

variable {n : String} {names listed : List String}

theorem mem_addNew : n ∈ addNew listed names ↔ n ∈ listed ∨ n ∈ names := by
  induction names generalizing listed with
  | nil => simp [addNew]
  | cons m names ih =>
    rw [addNew]
    split
    · next known =>
      rw [ih, List.mem_cons]
      constructor
      · exact fun h => h.imp_right .inr
      · rintro (h | rfl | h)
        · exact .inl h
        · exact .inl known
        · exact .inr h
    · rw [ih, List.mem_append, List.mem_singleton, List.mem_cons, or_assoc]

theorem nodup_addNew (once : listed.Nodup) : (addNew listed names).Nodup := by
  induction names generalizing listed with
  | nil => exact once
  | cons m names ih =>
    rw [addNew]
    split
    · exact ih once
    · next fresh =>
      apply ih
      rw [List.nodup_append]
      refine ⟨once, List.pairwise_singleton _ m, ?_⟩
      rintro a member b here rfl
      exact fresh (List.mem_singleton.mp here ▸ member)

theorem addNew_eq (listed names : List String) :
    addNew listed names = listed ++ (addNew [] names).filter (· ∉ listed) := by
  induction names generalizing listed with
  | nil => simp [addNew]
  | cons m names ih =>
    have alone : addNew [] (m :: names) = m :: (addNew [] names).filter (· ∉ [m]) := ih [m]
    rw [alone, addNew]
    by_cases known : m ∈ listed
    · have others : ((addNew [] names).filter (· ∉ [m])).filter (· ∉ listed) =
          (addNew [] names).filter (· ∉ listed) := by
        rw [List.filter_filter]
        apply List.filter_congr
        intro a _
        by_cases here : a = m <;> simp [here, known]
      rw [if_pos known, ih, List.filter_cons_of_neg (by simpa using known), others]
    · rw [if_neg known, ih, List.filter_cons_of_pos (by simpa using known), List.filter_filter,
        List.append_assoc]
      refine congrArg (listed ++ m :: ·) (List.filter_congr fun a _ => ?_)
      simp [not_or]

end Listing

section Collect

variable {names : Scope α → List String} {n : String} {listed : List String}

theorem mem_collect {scopes : Scopes α} :
    n ∈ collect names scopes listed ↔ n ∈ listed ∨ ∃ s ∈ scopes, n ∈ names s := by
  induction scopes generalizing listed with
  | nil => simp [collect]
  | cons s outer ih =>
    rw [collect, ih, mem_addNew, or_assoc]
    simp

theorem nodup_collect {scopes : Scopes α} (once : listed.Nodup) :
    (collect names scopes listed).Nodup := by
  induction scopes generalizing listed with
  | nil => exact once
  | cons s outer ih => exact ih (nodup_addNew once)

theorem collect_append (inner outer : Scopes α) :
    collect names (inner ++ outer) listed = collect names outer (collect names inner listed) := by
  induction inner generalizing listed with
  | nil => rfl
  | cons s inner ih => exact ih

theorem collect_eq (scopes : Scopes α) (listed : List String) :
    collect names scopes listed = listed ++ (collect names scopes []).filter (· ∉ listed) := by
  induction scopes generalizing listed with
  | nil => simp [collect]
  | cons s outer ih =>
    rw [collect, ih, collect, ih (addNew [] (names s)), addNew_eq listed, List.append_assoc,
      List.filter_append, List.filter_filter]
    congr 2
    apply List.filter_congr
    intro a _
    by_cases known : a ∈ listed <;> simp [known]

/-- The inner scopes come first, and the outer ones add what these do not have. -/
theorem collect_append_nil (inner outer : Scopes α) :
    collect names (inner ++ outer) [] = collect names inner [] ++
      (collect names outer []).filter (· ∉ collect names inner []) := by
  rw [collect_append, collect_eq outer]

end Collect

section Visible

variable {n : String} {scopes : Scopes α}

theorem isSome_findVar_iff : (findVar n scopes).isSome ↔ ∃ s ∈ scopes, n ∈ s.varNames := by
  induction scopes with
  | nil => simp [findVar]
  | cons s outer ih =>
    rw [findVar_cons, Option.isSome_or, Bool.or_eq_true, ih, Scope.isSome_findVar_iff]
    simp

theorem isSome_findFn_iff : (findFn scopes n).isSome ↔ ∃ s ∈ scopes, n ∈ s.fnNames := by
  induction scopes with
  | nil => simp [findFn, resolveFn]
  | cons s outer ih =>
    rw [findFn_cons, Option.isSome_or, Bool.or_eq_true, ih, Scope.isSome_findFn_iff]
    simp

theorem isSome_findBuiltin_iff : (Builtin.find? n).isSome ↔ n ∈ Builtin.names := by
  simp [Builtin.find?, Builtin.names]

theorem mem_visibleVars : n ∈ visibleVars scopes ↔ (findVar n scopes).isSome := by
  rw [visibleVars, mem_collect, isSome_findVar_iff]
  simp

theorem mem_visibleFns :
    n ∈ visibleFns scopes ↔ (findFn scopes n).isSome ∨ (Builtin.find? n).isSome := by
  rw [visibleFns, mem_addNew, mem_collect, isSome_findFn_iff, isSome_findBuiltin_iff]
  simp

end Visible

end Scopes
end TypedLet
