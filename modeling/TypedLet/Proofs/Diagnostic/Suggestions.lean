import TypedLet.Diagnostic.Suggest
import TypedLet.Proofs.Text.Rows
import Mathlib.Data.List.Sort
import Mathlib.Data.String.Basic

/-
Which names are suggested. Texts whose lengths are too far apart are not compared, and need
not be: as many edits at least lead from the one to the other. Distance and code points
together tell any two names apart, so the order in which names are suggested is settled.
Main statement: the suggestions are the nearest candidates of all, in whatever order the
candidates are given.
-/
namespace TypedLet.Suggest

open Text

def far (name candidate : String) : Nat :=
  leastEdits (Lowercase.text name) (Lowercase.text candidate)

/-- Nearer to the name, or equally near and not behind in the order of code points. -/
def Ahead (name a b : String) : Prop :=
  far name a < far name b ∨ far name a = far name b ∧ a ≤ b

instance (name : String) : DecidableRel (Ahead name) := fun _ _ =>
  inferInstanceAs (Decidable (_ ∨ _))

/-- All candidates that are near enough, whatever their lengths, put in order, and the first
    of these. -/
def nearest (distance count : Nat) (name : String) (candidates : List String) : List String :=
  ((candidates.filter fun c => c ≠ name ∧ far name c ≤ distance).insertionSort
    (Ahead name)).take count

section Order

variable {name a b c : String}

theorem ahead_total (name a b : String) : Ahead name a b ∨ Ahead name b a := by
  rcases lt_trichotomy (far name a) (far name b) with less | same | more
  · exact .inl (.inl less)
  · exact (le_total a b).imp (fun le => .inr ⟨same, le⟩) fun le => .inr ⟨same.symm, le⟩
  · exact .inr (.inl more)

theorem Ahead.trans (first : Ahead name a b) (second : Ahead name b c) : Ahead name a c := by
  rcases first with first | ⟨same, first⟩ <;> rcases second with second | ⟨same', second⟩
  · exact .inl (first.trans second)
  · exact .inl (same' ▸ first)
  · exact .inl (same ▸ second)
  · exact .inr ⟨same.trans same', le_trans first second⟩

theorem Ahead.antisymm (first : Ahead name a b) (second : Ahead name b a) : a = b := by
  rcases first with first | ⟨same, first⟩ <;> rcases second with second | ⟨same', second⟩
  · omega
  · omega
  · omega
  · exact le_antisymm first second

instance (name : String) : Std.Total (Ahead name) := ⟨ahead_total name⟩

instance (name : String) : IsTrans String (Ahead name) := ⟨fun _ _ _ => Ahead.trans⟩

instance (name : String) : Std.Antisymm (Ahead name) := ⟨fun _ _ => Ahead.antisymm⟩

end Order

def KeepsLength (s : String) : Prop := (Lowercase.text s).length = s.length

theorem keepsLength_iff {s : String} : KeepsLength s ↔ Lowercase.dotted ∉ s.toList := by
  rw [KeepsLength, Lowercase.text, Lowercase.length_chars, String.length_toList,
    Nat.add_eq_left, List.count_eq_zero]

section Scores

variable {name : String}

theorem distance_eq_far (name candidate : String) : distance name candidate = far name candidate :=
  EditDistance.distance_eq _ _

theorem length_near {candidate : String} {n : Nat} (named : KeepsLength name)
    (keeps : KeepsLength candidate) (near : far name candidate ≤ n) :
    ((candidate.length : Int) - name.length).natAbs ≤ n := by
  have lengths := (edits_leastEdits (Lowercase.text name) (Lowercase.text candidate)).length_le
  rw [named, keeps] at lengths
  rw [far] at near
  omega

/-- Where lowercase keeps the lengths, the test of the lengths refuses no near candidate. -/
theorem score_eq {candidate : String} {n : Nat} (count : Int) (named : KeepsLength name)
    (keeps : KeepsLength candidate) : score ⟨n, count⟩ name candidate =
      if candidate ≠ name ∧ far name candidate ≤ n then some (far name candidate, candidate)
      else none := by
  unfold score
  rw [distance_eq_far]
  by_cases same : candidate = name
  · simp [same]
  · by_cases near : far name candidate ≤ n
    · have lengths := Int.not_lt.mpr (Int.ofNat_le.mpr (length_near named keeps near))
      simp only [same, gt_iff_lt, lengths, decide_false, Bool.or_self, Bool.false_eq_true, if_false,
        Int.ofNat_le, near, if_true, ne_eq, not_false_eq_true, and_self]
    · simp [same, near]

theorem of_score_some {limits : Limits} {candidate : String} {scored : Nat × String}
    (kept : score limits name candidate = some scored) : scored.2 = candidate := by
  unfold score at kept
  split at kept
  · cases kept
  · dsimp only at kept
    split at kept <;> cases kept
    rfl

theorem mem_of_mem_similar {limits : Limits} {candidates : List String} {n : String}
    (picked : n ∈ similar limits name candidates) : n ∈ candidates := by
  have ranked : n ∈ ((candidates.filterMap (score limits name)).mergeSort before).map (·.2) := by
    unfold similar firstFew at picked
    split at picked <;> exact List.mem_of_mem_take picked
  obtain ⟨scored, member, rfl⟩ := List.mem_map.mp ranked
  obtain ⟨candidate, given, kept⟩ :=
    List.mem_filterMap.mp ((List.mergeSort_perm _ before).mem_iff.mp member)
  exact of_score_some kept ▸ given

theorem filterMap_score {candidates : List String} {n : Nat} (count : Int)
    (named : KeepsLength name) (keeps : ∀ c ∈ candidates, KeepsLength c) :
    candidates.filterMap (score ⟨n, count⟩ name) =
      (candidates.filter fun c => c ≠ name ∧ far name c ≤ n).map fun c => (far name c, c) := by
  induction candidates with
  | nil => rfl
  | cons c cs ih =>
    obtain ⟨here, others⟩ := List.forall_mem_cons.mp keeps
    rw [List.filterMap_cons, score_eq count named here, ih others]
    by_cases near : c ≠ name ∧ far name c ≤ n <;> simp [near]

theorem map_mergeSort_before (name : String) (kept : List String) :
    ((kept.map fun c => (far name c, c)).mergeSort before).map (·.2) =
      kept.insertionSort (Ahead name) := by
  have same : ∀ a ∈ kept, ∀ b ∈ kept,
      decide (Ahead name a b) = before (far name a, a) (far name b, b) := by
    intro a _ b _
    rw [Bool.eq_iff_iff, decide_eq_true_iff]
    simp [Ahead, before]
  rw [← List.map_mergeSort same, List.map_map, List.mergeSort_eq_insertionSort]
  exact List.map_id _

theorem similar_eq_nearest {candidates : List String} {n count : Nat} (named : KeepsLength name)
    (keeps : ∀ c ∈ candidates, KeepsLength c) :
    similar ⟨n, count⟩ name candidates = nearest n count name candidates := by
  have limited : (0 : Int) ≤ count := Int.natCast_nonneg count
  simp only [similar, firstFew, if_pos limited, Int.toNat_natCast, nearest,
    filterMap_score count named keeps, map_mergeSort_before]

end Scores

theorem nearest_of_perm {candidates others : List String} (perm : others.Perm candidates)
    (n count : Nat) (name : String) :
    nearest n count name others = nearest n count name candidates := by
  have kept := perm.filter fun c => decide (c ≠ name ∧ far name c ≤ n)
  have ranked : ∀ cs : List String, (cs.insertionSort (Ahead name)).Pairwise (Ahead name) :=
    List.pairwise_insertionSort (Ahead name)
  refine congrArg (List.take count) (List.Perm.eq_of_pairwise (fun _ _ _ _ => Ahead.antisymm)
    (ranked _) (ranked _) ?_)
  exact ((List.perm_insertionSort _ _).trans kept).trans (List.perm_insertionSort _ _).symm

/-- Where lowercase keeps the lengths, the suggestions are the nearest of all candidates, and
    the order in which the candidates are given does not matter. -/
theorem similar_nearest {name : String} {candidates : List String}
    (keeps : ∀ s ∈ name :: candidates, KeepsLength s) (distance count : Nat) :
    similar ⟨distance, count⟩ name candidates = nearest distance count name candidates ∧
      ∀ others : List String, others.Perm candidates →
        similar ⟨distance, count⟩ name others = similar ⟨distance, count⟩ name candidates := by
  obtain ⟨named, all⟩ := List.forall_mem_cons.mp keeps
  have same : similar ⟨distance, count⟩ name candidates = nearest distance count name candidates :=
    similar_eq_nearest named all
  refine ⟨same, fun others perm => ?_⟩
  rw [same, similar_eq_nearest named fun c member => all c (perm.mem_iff.mp member)]
  exact nearest_of_perm perm distance count name

/-- Two of the candidates are one edit away, and capitals come first. -/
theorem similar_nearest_capitals :
    (∀ s ∈ "sum" :: ["sums", "num", "product", "SUMS", "sum"], KeepsLength s) ∧
      similar ⟨1, 2⟩ "sum" ["sums", "num", "product", "SUMS", "sum"] = ["SUMS", "num"] := by
  have keeps : ∀ s ∈ "sum" :: ["sums", "num", "product", "SUMS", "sum"], KeepsLength s := by
    simp only [keepsLength_iff]
    decide
  have ranked : nearest 1 2 "sum" ["sums", "num", "product", "SUMS", "sum"] =
      ["SUMS", "num"] := by
    decide +kernel
  exact ⟨keeps, (similar_nearest keeps 1 2).1.trans ranked⟩

/-- In lowercase the candidate is near enough, but it is much longer than the name. -/
example : similar ⟨2, 3⟩ "İ" ["i̇ab"] = [] ∧ nearest 2 3 "İ" ["i̇ab"] = ["i̇ab"] := by
  decide +kernel

end TypedLet.Suggest
