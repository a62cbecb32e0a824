import TypedLet.Proofs.Typing.Signatures

/-
Matching by unfolding names as they are met. A table of patterns may be cyclic, as the standard
one is, but there a name stands only below an array or a tuple: between two lookups of a name
the type gets smaller, so the questions end, and they end with the answer of the matching that
unfolds all names at the top first. Main statement: this holds of every pattern and type with
the standard table, and a comparison accepts exactly two operands of one comparable type.
-/
namespace TypedLet

namespace TypePattern

variable {table : Table} {p : TypePattern} {t : Ty}

/-- Matching as it is asked, question by question, up to the first alternative that matches and
    the first part that does not. There is no answer where the questions nest deeper than
    `depth`. -/
def ask (table : Table) : Nat → TypePattern → Ty → Option Bool
  | 0, _, _ => none
  | _ + 1, exactly u, t => some (u = t)
  | depth + 1, arrayOf p, .array t => ask table depth p t
  | depth + 1, tupleOf p, .tuple ts => ts.allM (ask table depth p)
  | depth + 1, oneOf ps, t => ps.anyM fun p => ask table depth p t
  | depth + 1, named name, t =>
    match table.find? name with
    | some p => ask table depth p t
    | none => some false
  | _ + 1, any, _ => some true
  | _ + 1, _, _ => some false

def Answered (table : Table) (p : TypePattern) (t : Ty) : Prop :=
  ∃ enough, ∀ depth, enough ≤ depth → ask table depth p t = some (t.fits table p)

mutual
def headNames : TypePattern → List String
  | oneOf ps => allHeadNames ps
  | named name => [name]
  | _ => []
def allHeadNames : List TypePattern → List String
  | [] => []
  | p :: ps => p.headNames ++ allHeadNames ps
end

/-- Every name of the table leads to patterns that look at the type. -/
def Table.Guarded (table : Table) : Prop := ∀ entry ∈ table, entry.2.headNames = []

theorem guarded_standardTable : standardTable.Guarded := by
  simp [Table.Guarded, standardTable, scalarOrArrayOf, headNames, allHeadNames]

theorem headNames_of_find? (guarded : table.Guarded) {name : String}
    (found : table.find? name = some p) : p.headNames = [] := by
  obtain ⟨entry, listed, rfl⟩ := Option.map_eq_some_iff.mp found
  exact guarded entry (by simpa using List.mem_of_find?_eq_some listed)

section Heads

variable (unfold unfold' : String → List TypePattern)

theorem allHeadsWith_eq_flatMap (ps : List TypePattern) :
    allHeadsWith unfold ps = ps.flatMap (headsWith unfold) := by
  induction ps with
  | nil => rfl
  | cons p ps ih => simp [allHeadsWith, ih]

mutual
/-- Without names at the top it makes no difference how they are unfolded. -/
theorem headsWith_of_headNames : ∀ p : TypePattern, p.headNames = [] →
    headsWith unfold p = headsWith unfold' p
  | oneOf ps, nameless => by
    rw [headNames] at nameless
    simp only [headsWith]
    exact allHeadsWith_of_headNames ps nameless
  | named name, nameless => by simp [headNames] at nameless
  | exactly _, _ | arrayOf _, _ | tupleOf _, _ | any, _ => rfl
theorem allHeadsWith_of_headNames : ∀ ps : List TypePattern, allHeadNames ps = [] →
    allHeadsWith unfold ps = allHeadsWith unfold' ps
  | [], _ => rfl
  | p :: ps, nameless => by
    obtain ⟨here, others⟩ := List.append_eq_nil_iff.mp nameless
    simp only [allHeadsWith, headsWith_of_headNames p here, allHeadsWith_of_headNames ps others]
end

end Heads

theorem heads_named (guarded : table.Guarded) {name : String}
    (found : table.find? name = some p) : (named name).heads table = p.heads table := by
  have filled : table ≠ [] := by
    rintro rfl
    cases found
  obtain ⟨entry, rest, rfl⟩ := List.exists_cons_of_ne_nil filled
  simp only [heads, headsWith, List.length_cons, unfoldName, found]
  exact headsWith_of_headNames _ _ p (headNames_of_find? guarded found)

theorem heads_named_of_none {name : String} (missing : table.find? name = none) :
    (named name).heads table = [] := by
  cases length : table.length with
  | zero => simp [heads, headsWith, length, unfoldName]
  | succ n => simp [heads, headsWith, length, unfoldName, missing]

end TypePattern

namespace Ty

open TypePattern

variable {table : TypePattern.Table} {p : TypePattern} {t : Ty}

def meets (table : TypePattern.Table) (t : Ty) : TypePattern → Bool
  | .exactly u => u = t
  | .arrayOf p => match t with
    | array t => t.fits table p
    | _ => false
  | .tupleOf p => match t with
    | tuple ts => allFit table ts p
    | _ => false
  | .any => true
  | _ => false

theorem fits_eq_any (t : Ty) (p : TypePattern) :
    t.fits table p = (p.heads table).any (t.meets table) := by
  cases t <;> simp only [fits] <;> congr 1 <;> funext q <;> cases q <;> rfl

theorem allFit_eq_all (ts : List Ty) (p : TypePattern) :
    allFit table ts p = ts.all (·.fits table p) := by
  induction ts with
  | nil => rfl
  | cons t ts ih => simp [allFit, ih]

theorem fits_oneOf (t : Ty) (ps : List TypePattern) :
    t.fits table (.oneOf ps) = ps.any (t.fits table) := by
  have heads : (TypePattern.oneOf ps).heads table = ps.flatMap (·.heads table) :=
    allHeadsWith_eq_flatMap _ ps
  rw [fits_eq_any, heads, List.any_flatMap]
  congr 1
  funext p
  exact (fits_eq_any t p).symm

theorem fits_named (guarded : table.Guarded) (t : Ty) (name : String) :
    t.fits table (.named name) = match table.find? name with
      | some p => t.fits table p
      | none => false := by
  rw [fits_eq_any]
  split
  · next p found => rw [heads_named guarded found, fits_eq_any]
  · next missing => simp [heads_named_of_none missing]

theorem fits_arrayOf (t : Ty) (p : TypePattern) :
    t.fits table (.arrayOf p) = match t with
      | array t => t.fits table p
      | _ => false := by
  rw [fits_eq_any]
  cases t <;> simp [heads, headsWith, meets]

theorem fits_tupleOf (t : Ty) (p : TypePattern) :
    t.fits table (.tupleOf p) = match t with
      | tuple ts => ts.all (·.fits table p)
      | _ => false := by
  rw [fits_eq_any]
  cases t <;> simp [heads, headsWith, meets, allFit_eq_all]

def parts : Ty → List Ty
  | array t => [t]
  | tuple ts => ts
  | _ => []

end Ty

namespace TypePattern

variable {table : Table} {p : TypePattern} {t : Ty}

theorem anyM_of_answers {α : Type} {f : α → Option Bool} {g : α → Bool} {as : List α}
    (answers : ∀ a ∈ as, f a = some (g a)) : as.anyM f = some (as.any g) := by
  induction as with
  | nil => rfl
  | cons a as ih =>
    have first := answers a (by simp)
    have others := ih fun a' member => answers a' (by simp [member])
    cases found : g a <;> simp [List.anyM, first, found, others]

theorem allM_of_answers {α : Type} {f : α → Option Bool} {g : α → Bool} {as : List α}
    (answers : ∀ a ∈ as, f a = some (g a)) : as.allM f = some (as.all g) := by
  induction as with
  | nil => rfl
  | cons a as ih =>
    have first := answers a (by simp)
    have others := ih fun a' member => answers a' (by simp [member])
    cases found : g a <;> simp [List.allM, first, found, others]

theorem enough_for_all {α : Type} {holds : Nat → α → Prop} {as : List α}
    (each : ∀ a ∈ as, ∃ enough, ∀ depth, enough ≤ depth → holds depth a) :
    ∃ enough, ∀ depth, enough ≤ depth → ∀ a ∈ as, holds depth a := by
  induction as with
  | nil => exact ⟨0, by simp⟩
  | cons a as ih =>
    obtain ⟨m, first⟩ := each a (by simp)
    obtain ⟨n, others⟩ := ih fun a' member => each a' (by simp [member])
    refine ⟨max m n, fun depth enough => ?_⟩
    simp only [List.mem_cons, forall_eq_or_imp]
    exact ⟨first depth (by omega), others depth (by omega)⟩

theorem answered_of_succ {holds : Nat → Prop}
    (inner : ∃ enough, ∀ depth, enough ≤ depth → holds depth)
    (outer : ∀ depth, holds depth → ask table (depth + 1) p t = some (t.fits table p)) :
    Answered table p t := by
  obtain ⟨n, inner⟩ := inner
  refine ⟨n + 1, fun depth enough => ?_⟩
  obtain ⟨depth, rfl⟩ : ∃ less, depth = less + 1 := ⟨depth - 1, by omega⟩
  exact outer depth (inner depth (by omega))

theorem answered_at_once
    (answer : ∀ depth, ask table (depth + 1) p t = some (t.fits table p)) : Answered table p t :=
  answered_of_succ ⟨0, fun _ _ => trivial⟩ fun depth _ => answer depth

theorem answered_exactly (table : Table) (u t : Ty) : Answered table (exactly u) t := by
  apply answered_at_once
  intro depth
  simp [ask, Ty.fits_eq_any, heads, headsWith, Ty.meets]

theorem answered_any (table : Table) (t : Ty) : Answered table any t := by
  apply answered_at_once
  intro depth
  simp [ask, Ty.fits_any]

theorem answered_arrayOf (parts : ∀ u ∈ t.parts, Answered table p u) :
    Answered table (arrayOf p) t := by
  cases t with
  | array u =>
    apply answered_of_succ (parts u (by simp [Ty.parts]))
    intro depth answer
    rw [ask, answer, Ty.fits_arrayOf]
  | _ =>
    apply answered_at_once
    intro depth
    simp [ask, Ty.fits_arrayOf]

theorem answered_tupleOf (parts : ∀ u ∈ t.parts, Answered table p u) :
    Answered table (tupleOf p) t := by
  cases t with
  | tuple ts =>
    apply answered_of_succ (enough_for_all parts)
    intro depth answers
    rw [ask, Ty.fits_tupleOf]
    exact allM_of_answers answers
  | _ =>
    apply answered_at_once
    intro depth
    simp [ask, Ty.fits_tupleOf]

theorem answered_oneOf {ps : List TypePattern} (alternatives : ∀ p ∈ ps, Answered table p t) :
    Answered table (oneOf ps) t := by
  apply answered_of_succ (enough_for_all alternatives)
  intro depth answers
  rw [ask, Ty.fits_oneOf]
  exact anyM_of_answers answers

theorem answered_named (guarded : table.Guarded) {name : String}
    (behind : ∀ p, table.find? name = some p → Answered table p t) :
    Answered table (named name) t := by
  cases found : table.find? name with
  | none =>
    apply answered_at_once
    intro depth
    simp [ask, Ty.fits_named guarded, found]
  | some p =>
    apply answered_of_succ (behind p found)
    intro depth answer
    simp only [ask, Ty.fits_named guarded, found, answer]

mutual
/-- Where the questions about the parts of a type end, and those that the names at the top lead
    to, so does the question about the type, by recursion on the pattern. -/
theorem answered_of_headNames (parts : ∀ u ∈ t.parts, ∀ q, Answered table q u) :
    ∀ p : TypePattern, (∀ name ∈ p.headNames, Answered table (named name) t) → Answered table p t
  | exactly u, _ => answered_exactly table u t
  | any, _ => answered_any table t
  | arrayOf p, _ => answered_arrayOf fun u part => parts u part p
  | tupleOf p, _ => answered_tupleOf fun u part => parts u part p
  | named name, names => names name (by simp [headNames])
  | oneOf ps, names => answered_oneOf (allAnswered_of_headNames parts ps names)
theorem allAnswered_of_headNames (parts : ∀ u ∈ t.parts, ∀ q, Answered table q u) :
    ∀ ps : List TypePattern, (∀ name ∈ allHeadNames ps, Answered table (named name) t) →
      ∀ p ∈ ps, Answered table p t
  | [], _ => by simp
  | p :: ps, names => by
    simp only [allHeadNames, List.mem_append] at names
    have first := answered_of_headNames parts p fun name member => names name (.inl member)
    have others := allAnswered_of_headNames parts ps fun name member => names name (.inr member)
    simpa using ⟨first, others⟩
end

/-- With a guarded table a lookup leads to a pattern that looks at the type, so at most one
    stands between a question and the questions about the parts. -/
theorem answered_of_parts (guarded : table.Guarded)
    (parts : ∀ u ∈ t.parts, ∀ q, Answered table q u) (p : TypePattern) : Answered table p t := by
  apply answered_of_headNames parts p
  intro name _
  apply answered_named guarded
  intro q found
  apply answered_of_headNames parts q
  simp [headNames_of_find? guarded found]

mutual
theorem answered_of_guarded (guarded : table.Guarded) :
    ∀ (t : Ty) (p : TypePattern), Answered table p t
  | .array t, p => by
    have inside := answered_of_guarded guarded t
    apply answered_of_parts guarded
    simpa [Ty.parts] using inside
  | .tuple ts, p => by
    apply answered_of_parts guarded
    exact allAnswered_of_guarded guarded ts
  | .void, p | .integer, p | .float, p | .bool, p | .str, p => by
    apply answered_of_parts guarded
    simp [Ty.parts]
theorem allAnswered_of_guarded (guarded : table.Guarded) :
    ∀ ts : List Ty, ∀ t ∈ ts, ∀ p : TypePattern, Answered table p t
  | [] => by simp
  | t :: ts => by
    have first := answered_of_guarded guarded t
    have others := allAnswered_of_guarded guarded ts
    simpa using ⟨first, others⟩
end

end TypePattern

namespace Builtin

/-- With the standard table the matching of any pattern, however deep and with whatever names,
    against any type comes to an end. A comparison of two operands gives Bool exactly when they
    have one and the same comparable type, and nothing for any other two. -/
theorem comparisons_on_comparable :
    (∀ p t, ∃ enough, ∀ depth, enough ≤ depth →
      TypePattern.ask TypePattern.standardTable depth p t =
        some (t.fits TypePattern.standardTable p)) ∧
    ∀ op ∈ [BinaryOp.lt, .le, .gt, .ge, .eq, .ne], ∀ s t : Ty,
      ((binary op).resultFor [s, t] = some .bool ↔ s = t ∧ s.Comparable) ∧
      ((binary op).resultFor [s, t] = none ↔ ¬ (s = t ∧ s.Comparable)) := by
  refine ⟨fun p t => TypePattern.answered_of_guarded TypePattern.guarded_standardTable t p, ?_⟩
  intro op compares s t
  have accepts : (binary op).resultFor [s, t] = some .bool ↔ s = t ∧ s.Comparable := by
    rw [comparison_iff compares]
    constructor
    · rintro ⟨-, a, types, comparable⟩
      obtain ⟨rfl, rfl⟩ : s = a ∧ t = a := by simpa using types
      exact ⟨rfl, comparable⟩
    · rintro ⟨rfl, comparable⟩
      exact ⟨rfl, s, rfl, comparable⟩
  refine ⟨accepts, ?_⟩
  rw [← accepts]
  cases result : (binary op).resultFor [s, t] with
  | none => simp
  | some u =>
    obtain ⟨rfl, _⟩ := (comparison_iff compares).mp result
    simp

/-- Arrays of arrays of texts compare with their like; a Void deep inside does not. -/
theorem comparisons_on_comparable_nested :
    (binary .lt).resultFor [.array (.array .str), .array (.array .str)] = some .bool ∧
      (binary .eq).resultFor [.array (.array .void), .array (.array .void)] = none := by
  have lower := comparisons_on_comparable.2 .lt (by simp) (.array (.array .str))
  have equal := comparisons_on_comparable.2 .eq (by simp) (.array (.array .void))
  refine ⟨(lower _).1.mpr ⟨rfl, .array (.array .str)⟩, (equal _).2.mpr ?_⟩
  rintro ⟨-, comparable⟩
  cases comparable with
  | array item =>
    cases item with
    | array item => cases item

end Builtin
end TypedLet
