import TypedLet.Ty.Basic

/-
The texts of types. The first letter of a text says what kind of type it shows. An array closes
its parenthesis behind the element type, and a tuple puts a comma behind each item but the last
and closes its parenthesis behind that one. So a text shows where it ends, and no text of a type
starts that of another one. Main statement: whatever comes behind it, a type can be read off its
text in one way only.
-/
namespace TypedLet.Ty

def initial : Ty → Char
  | void => 'V'
  | integer => 'I'
  | float => 'F'
  | bool => 'B'
  | str => 'S'
  | array _ => 'A'
  | tuple _ => 'T'

/-- What a tuple shows behind an item that these ones follow. -/
def behind : List Ty → List Char
  | [] => [')']
  | t :: ts => ',' :: ' ' :: (t.display.toList ++ behind ts)

theorem toList_joined_behind (t : Ty) (ts : List Ty) :
    (Text.joined ", " ((t :: ts).map display)).toList ++ [')'] = t.display.toList ++ behind ts := by
  induction ts generalizing t with
  | nil => rfl
  | cons u us ih =>
    have more : (u :: us).map display ≠ [] := List.cons_ne_nil _ _
    rw [List.map_cons, Text.joined_cons _ _ _ more, String.toList_append, String.toList_append,
      List.append_assoc, ih u, behind, List.append_assoc]
    rfl

section

variable (t : Ty) (ts : List Ty) (rest : List Char)

theorem array_append :
    (array t).display.toList ++ rest = "Array(".toList ++ (t.display.toList ++ ')' :: rest) := by
  rw [display, String.toList_append, String.toList_append, List.append_assoc, List.append_assoc]
  rfl

theorem tuple_nil_append : (tuple []).display.toList ++ rest = "Tuple(".toList ++ ')' :: rest := rfl

theorem tuple_cons_append : (tuple (t :: ts)).display.toList ++ rest =
    "Tuple(".toList ++ (t.display.toList ++ (behind ts ++ rest)) := by
  have items := toList_joined_behind t ts
  rw [display, displayAll_eq_map, String.toList_append, String.toList_append, List.append_assoc,
    List.append_assoc, ← List.append_assoc t.display.toList, ← items, List.append_assoc]
  rfl

theorem starts_with_initial : ∃ more, t.display.toList ++ rest = t.initial :: more := by
  cases t with
  | array t => exact ⟨_, array_append t rest⟩
  | tuple ts =>
    cases ts with
    | nil => exact ⟨_, tuple_nil_append rest⟩
    | cons t ts => exact ⟨_, tuple_cons_append t ts rest⟩
  | _ => exact ⟨_, rfl⟩

end

variable {s t : Ty} {after rest : List Char}

theorem initial_eq_of_append (same : s.display.toList ++ after = t.display.toList ++ rest) :
    s.initial = t.initial := by
  obtain ⟨more, first⟩ := starts_with_initial s after
  obtain ⟨others, second⟩ := starts_with_initial t rest
  rw [first, second] at same
  exact (List.cons.inj same).1

theorem same_kind (kind : s.initial = t.initial) :
    s = t ∨ (∃ a b, s = array a ∧ t = array b) ∨ ∃ as bs, s = tuple as ∧ t = tuple bs := by
  cases s <;> cases t <;> simp_all [initial]

theorem display_append_ne_paren (t : Ty) : t.display.toList ++ after ≠ ')' :: rest := by
  intro same
  obtain ⟨more, first⟩ := starts_with_initial t after
  rw [first] at same
  have paren := (List.cons.inj same).1
  cases t <;> simp [initial] at paren

mutual
theorem eq_of_display_append : ∀ (s t : Ty) {after rest : List Char},
    s.display.toList ++ after = t.display.toList ++ rest → s = t ∧ after = rest
  | void, t, after, rest, same | integer, t, after, rest, same | float, t, after, rest, same
  | bool, t, after, rest, same | str, t, after, rest, same => by
    rcases same_kind (initial_eq_of_append same) with rfl | ⟨_, _, other, _⟩ | ⟨_, _, other, _⟩
    · exact ⟨rfl, List.append_cancel_left same⟩
    · cases other
    · cases other
  | array s, t, after, rest, same => by
    rcases same_kind (initial_eq_of_append same) with rfl | ⟨a, b, _, rfl⟩ | ⟨_, _, other, _⟩
    · exact ⟨rfl, List.append_cancel_left same⟩
    · rw [array_append, array_append] at same
      obtain ⟨rfl, closed⟩ := eq_of_display_append s b (List.append_cancel_left same)
      exact ⟨rfl, (List.cons.inj closed).2⟩
    · cases other
  | tuple ss, t, after, rest, same => by
    rcases same_kind (initial_eq_of_append same) with rfl | ⟨_, _, other, _⟩ | ⟨_, ts, _, rfl⟩
    · exact ⟨rfl, List.append_cancel_left same⟩
    · cases other
    · obtain ⟨rfl, ends⟩ := eq_of_tuple_append ss ts same
      exact ⟨rfl, ends⟩
theorem eq_of_tuple_append : ∀ (ss ts : List Ty) {after rest : List Char},
    (tuple ss).display.toList ++ after = (tuple ts).display.toList ++ rest →
      ss = ts ∧ after = rest
  | [], [], after, rest, same => ⟨rfl, List.append_cancel_left same⟩
  | [], t :: ts, after, rest, same => by
    rw [tuple_nil_append, tuple_cons_append] at same
    exact absurd (List.append_cancel_left same).symm (display_append_ne_paren t)
  | s :: ss, [], after, rest, same => by
    rw [tuple_nil_append, tuple_cons_append] at same
    exact absurd (List.append_cancel_left same) (display_append_ne_paren s)
  | s :: ss, t :: ts, after, rest, same => by
    rw [tuple_cons_append, tuple_cons_append] at same
    obtain ⟨rfl, tails⟩ := eq_of_display_append s t (List.append_cancel_left same)
    obtain ⟨rfl, ends⟩ := eq_of_behind_append ss ts tails
    exact ⟨rfl, ends⟩
theorem eq_of_behind_append : ∀ (ss ts : List Ty) {after rest : List Char},
    behind ss ++ after = behind ts ++ rest → ss = ts ∧ after = rest
  | [], [], after, rest, same => ⟨rfl, (List.cons.inj same).2⟩
  | [], t :: ts, after, rest, same => by simp [behind] at same
  | s :: ss, [], after, rest, same => by simp [behind] at same
  | s :: ss, t :: ts, after, rest, same => by
    simp only [behind, List.cons_append, List.append_assoc, List.cons.injEq, true_and] at same
    obtain ⟨rfl, tails⟩ := eq_of_display_append s t same
    obtain ⟨rfl, ends⟩ := eq_of_behind_append ss ts tails
    exact ⟨rfl, ends⟩
end

/-- The text of a type is the text of no other type, and no text of another type goes on from it:
    where a text starts with a type, the type and what comes behind it are settled, whether that
    is nothing, a comma, a parenthesis, a bracket or anything else. -/
theorem display_unambiguous :
    (∀ s t : Ty, s.display = t.display ↔ s = t) ∧
      ∀ (s t : Ty) (after rest : String),
        s.display ++ after = t.display ++ rest ↔ s = t ∧ after = rest := by
  have settled : ∀ (s t : Ty) (after rest : String),
      s.display ++ after = t.display ++ rest → s = t ∧ after = rest := by
    intro s t after rest same
    have letters := congrArg String.toList same
    rw [String.toList_append, String.toList_append] at letters
    obtain ⟨types, texts⟩ := eq_of_display_append s t letters
    exact ⟨types, String.toList_inj.mp texts⟩
  constructor
  · intro s t
    constructor
    · intro same
      exact (settled s t "" "" (by rw [same])).1
    · rintro rfl
      rfl
  · intro s t after rest
    constructor
    · exact settled s t after rest
    · rintro ⟨rfl, rfl⟩
      rfl

end TypedLet.Ty
