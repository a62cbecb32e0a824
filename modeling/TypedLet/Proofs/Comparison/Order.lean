import TypedLet.Builtin.Operator
import TypedLet.Proofs.Typing.Environments

/-
The order of values. Two values of one type, built from Integer, Bool, Str and arrays, stand to
each other in one of three ways, so the comparison of the two has an outcome, though in general
it may have none. Arrays stand as their items do, the first that differ deciding, and a proper
start is below what it starts. Equal values are those of one structure.
-/
namespace TypedLet

/-- The types whose values all have an order: no floats and no tuples. -/
inductive Ty.Ordered : Ty → Prop
  | integer : Ordered integer
  | bool : Ordered bool
  | str : Ordered str
  | array {t : Ty} (item : Ordered t) : Ordered (array t)

/-- How two things stand to each other, seen from both sides. -/
inductive Stand {α : Type} (compare : α → α → Option Ordering) (a b : α) : Prop
  | below (there : compare a b = some .lt) (back : compare b a = some .gt) (differ : a ≠ b)
  | same (there : compare a b = some .eq) (equal : a = b)
  | above (there : compare a b = some .gt) (back : compare b a = some .lt) (differ : a ≠ b)

namespace Value

variable {u v w : Value} {us vs ws : List Value} {t : Ty}

def Below (v w : Value) : Prop := v.compare w = some .lt

theorem order_lt {less greater equal : Bool} :
    order less greater equal = some .lt ↔ less = true := by
  unfold order
  split
  · simp_all
  · split <;> simp_all

theorem has_items {items : List Value} (has : (array t items).Has (.array t)) :
    ∀ v ∈ items, v.Has t :=
  fun v member => ⟨has.2.1 v member, allWellFormed_iff.mp has.2.2 v member⟩

theorem array_of_has (has : v.Has (.array t)) :
    ∃ items, v = array t items ∧ ∀ w ∈ items, w.Has t := by
  obtain ⟨items, rfl⟩ := array_of_type has.1
  exact ⟨items, rfl, has_items has⟩

theorem bool_of_type (typed : v.type = .bool) : ∃ b, v = bool b := by
  cases v with
  | bool b => exact ⟨b, rfl⟩
  | _ => cases typed

theorem stand_int (m n : Int64) : Stand compare (int m) (int n) := by
  have below : m < n ↔ m.toInt < n.toInt := Int64.lt_iff_toInt_lt
  have above : n < m ↔ n.toInt < m.toInt := Int64.lt_iff_toInt_lt
  have equal : m = n ↔ m.toInt = n.toInt := Int64.toInt_inj.symm
  have reversed : n = m ↔ n.toInt = m.toInt := Int64.toInt_inj.symm
  rcases Int.lt_trichotomy m.toInt n.toInt with less | same | greater
  · have not_above : ¬ n.toInt < m.toInt := by omega
    have differ : m.toInt ≠ n.toInt := by omega
    exact .below (by simp [compare, order, below, less])
      (by simp [compare, order, below, above, less, not_above]) (by simp [equal, differ])
  · exact .same (by simp [compare, order, below, above, equal, same]) (by simp [equal, same])
  · have not_below : ¬ m.toInt < n.toInt := by omega
    have differ : m.toInt ≠ n.toInt := by omega
    exact .above (by simp [compare, order, below, above, greater, not_below])
      (by simp [compare, order, above, greater]) (by simp [equal, differ])

theorem stand_bool (a b : Bool) : Stand compare (bool a) (bool b) := by
  cases a <;> cases b
  · exact .same rfl rfl
  · exact .below rfl rfl nofun
  · exact .above rfl rfl nofun
  · exact .same rfl rfl

theorem stand_str (s t : String) : Stand compare (str s) (str t) := by
  by_cases less : s < t
  · have not_greater : ¬ t < s := String.lt_asymm less
    have differ : s ≠ t := by
      rintro rfl
      exact not_greater less
    exact .below (by simp [compare, order, less])
      (by simp [compare, order, less, not_greater]) (by simp [differ])
  · by_cases greater : t < s
    · have differ : s ≠ t := by
        rintro rfl
        exact less greater
      exact .above (by simp [compare, order, less, greater])
        (by simp [compare, order, greater]) (by simp [differ])
    · obtain rfl : s = t := String.le_antisymm greater less
      exact .same (by simp [compare, order]) rfl

theorem behind_first {related : Value → Value → Prop}
    (items : ∀ a ∈ v :: vs, ∀ b ∈ w :: ws, related a b) : ∀ a ∈ vs, ∀ b ∈ ws, related a b := by
  intro a member b member'
  exact items a (by simp [member]) b (by simp [member'])

theorem stand_compareAll (items : ∀ v ∈ vs, ∀ w ∈ ws, Stand compare v w) :
    Stand compareAll vs ws := by
  induction vs generalizing ws with
  | nil =>
    cases ws with
    | nil => exact .same rfl rfl
    | cons w ws => exact .below rfl rfl nofun
  | cons v vs ih =>
    cases ws with
    | nil => exact .above rfl rfl nofun
    | cons w ws =>
      have first := items v (by simp) w (by simp)
      have others : Stand compareAll vs ws := ih (behind_first items)
      cases first with
      | below there back differ =>
        exact .below (by simp [compareAll, there]) (by simp [compareAll, back]) (by simp [differ])
      | above there back differ =>
        exact .above (by simp [compareAll, there]) (by simp [compareAll, back]) (by simp [differ])
      -- Only behind equal items do the others count.
      | same there equal =>
        subst equal
        cases others with
        | below there' back differ =>
          exact .below (by simp [compareAll, there, there']) (by simp [compareAll, there, back])
            (by simp [differ])
        | same there' equal => exact .same (by simp [compareAll, there, there']) (by simp [equal])
        | above there' back differ =>
          exact .above (by simp [compareAll, there, there']) (by simp [compareAll, there, back])
            (by simp [differ])

/-- The order of lists is the lexicographic one. -/
theorem compareAll_lt_iff (items : ∀ v ∈ vs, ∀ w ∈ ws, Stand compare v w) :
    compareAll vs ws = some .lt ↔ List.Lex Below vs ws := by
  induction vs generalizing ws with
  | nil =>
    cases ws with
    | nil => simp [compareAll]
    | cons w ws => simp [compareAll]
  | cons v vs ih =>
    cases ws with
    | nil => simp [compareAll]
    | cons w ws =>
      have others : compareAll vs ws = some .lt ↔ List.Lex Below vs ws := ih (behind_first items)
      rw [List.cons_lex_cons_iff, ← others]
      cases items v (by simp) w (by simp) with
      | below there back differ => simp [compareAll, Below, there]
      | same there equal =>
        subst equal
        simp [compareAll, Below, there]
      | above there back differ => simp [compareAll, Below, there, differ]

/-- Where the order goes on from item to item, it goes on from list to list. -/
theorem lex_trans (trans : ∀ u ∈ us, ∀ v ∈ vs, ∀ w ∈ ws, u.Below v → v.Below w → u.Below w)
    (first : List.Lex Below us vs) (second : List.Lex Below vs ws) : List.Lex Below us ws := by
  induction first generalizing ws with
  | nil =>
    cases second with
    | rel | cons => exact .nil
  | @rel u us v vs less =>
    cases second with
    | @rel _ _ w ws next => exact .rel (trans u (by simp) v (by simp) w (by simp) less next)
    | cons => exact .rel less
  | @cons v us vs later ih =>
    cases second with
    | rel next => exact .rel next
    | @cons _ _ ws next =>
      apply List.Lex.cons
      apply ih _ next
      intro u' member v' member' w' member''
      exact trans u' (by simp [member]) v' (by simp [member']) w' (by simp [member''])

theorem stand_of_ordered (ordered : t.Ordered) (left : v.Has t) (right : w.Has t) :
    Stand compare v w := by
  induction ordered generalizing v w with
  | integer =>
    obtain ⟨m, rfl⟩ := int_of_type left.1
    obtain ⟨n, rfl⟩ := int_of_type right.1
    exact stand_int m n
  | bool =>
    obtain ⟨a, rfl⟩ := bool_of_type left.1
    obtain ⟨b, rfl⟩ := bool_of_type right.1
    exact stand_bool a b
  | str =>
    obtain ⟨s, rfl⟩ := str_of_type left.1
    obtain ⟨s', rfl⟩ := str_of_type right.1
    exact stand_str s s'
  | array item ih =>
    obtain ⟨vs, rfl, typed⟩ := array_of_has left
    obtain ⟨ws, rfl, typed'⟩ := array_of_has right
    have all := stand_compareAll fun v member w member' => ih (typed v member) (typed' w member')
    cases all with
    | below there back differ => exact .below there back (by simp [differ])
    | same there equal => exact .same there (by simp [equal])
    | above there back differ => exact .above there back (by simp [differ])

theorem below_array_iff (ordered : t.Ordered) (left : ∀ v ∈ vs, v.Has t)
    (right : ∀ w ∈ ws, w.Has t) :
    (array t vs).Below (array t ws) ↔ List.Lex Below vs ws :=
  compareAll_lt_iff fun v member w member' =>
    stand_of_ordered ordered (left v member) (right w member')

theorem below_trans (ordered : t.Ordered) (first : u.Has t) (second : v.Has t) (third : w.Has t)
    (less : u.Below v) (next : v.Below w) : u.Below w := by
  induction ordered generalizing u v w with
  | integer =>
    obtain ⟨k, rfl⟩ := int_of_type first.1
    obtain ⟨m, rfl⟩ := int_of_type second.1
    obtain ⟨n, rfl⟩ := int_of_type third.1
    simp only [Below, compare, order_lt, decide_eq_true_eq] at less next ⊢
    exact Int64.lt_trans less next
  | bool =>
    obtain ⟨a, rfl⟩ := bool_of_type first.1
    obtain ⟨b, rfl⟩ := bool_of_type second.1
    obtain ⟨c, rfl⟩ := bool_of_type third.1
    simp only [Below, compare, order_lt, Bool.and_eq_true, Bool.not_eq_true'] at less next ⊢
    exact ⟨less.1, next.2⟩
  | str =>
    obtain ⟨r, rfl⟩ := str_of_type first.1
    obtain ⟨s, rfl⟩ := str_of_type second.1
    obtain ⟨s', rfl⟩ := str_of_type third.1
    simp only [Below, compare, order_lt, decide_eq_true_eq] at less next ⊢
    exact String.lt_trans less next
  | array item ih =>
    obtain ⟨us, rfl, typed⟩ := array_of_has first
    obtain ⟨vs, rfl, typed'⟩ := array_of_has second
    obtain ⟨ws, rfl, typed''⟩ := array_of_has third
    -- The order of the items is known to be transitive, and that of the arrays is lexicographic.
    rw [below_array_iff item typed typed'] at less
    rw [below_array_iff item typed' typed''] at next
    rw [below_array_iff item typed typed'']
    apply lex_trans _ less next
    intro u member v member' w member''
    exact ih (typed u member) (typed' v member') (typed'' w member'')

theorem sameAll_iff_of_same (items : ∀ v ∈ vs, ∀ w ∈ ws, v.same w = true ↔ v = w) :
    sameAll vs ws = true ↔ vs = ws := by
  induction vs generalizing ws with
  | nil => cases ws <;> simp [sameAll]
  | cons v vs ih =>
    cases ws with
    | nil => simp [sameAll]
    | cons w ws =>
      have others : sameAll vs ws = true ↔ vs = ws := ih (behind_first items)
      simp [sameAll, items v (by simp) w (by simp), others]

theorem same_iff_of_ordered (ordered : t.Ordered) (left : v.Has t) (right : w.Has t) :
    v.same w = true ↔ v = w := by
  induction ordered generalizing v w with
  | integer =>
    obtain ⟨m, rfl⟩ := int_of_type left.1
    obtain ⟨n, rfl⟩ := int_of_type right.1
    simp [same]
  | bool =>
    obtain ⟨a, rfl⟩ := bool_of_type left.1
    obtain ⟨b, rfl⟩ := bool_of_type right.1
    simp [same]
  | str =>
    obtain ⟨s, rfl⟩ := str_of_type left.1
    obtain ⟨s', rfl⟩ := str_of_type right.1
    simp [same]
  | array item ih =>
    obtain ⟨vs, rfl, typed⟩ := array_of_has left
    obtain ⟨ws, rfl, typed'⟩ := array_of_has right
    have all := sameAll_iff_of_same fun v member w member' =>
      ih (typed v member) (typed' w member')
    simp [same, all]

theorem equal_iff_of_ordered (ordered : t.Ordered) (left : v.Has t) (right : w.Has t) :
    v.equal w = true ↔ v = w := by
  have structural : v.equal w = v.same w := by
    cases v with
    | float x =>
      obtain ⟨typed, _⟩ := left
      cases typed
      cases ordered
    | _ => rfl
  rw [structural]
  exact same_iff_of_ordered ordered left right

end Value

end TypedLet
