import TypedLet.Editor.Position
import TypedLet.Proofs.Text.Encoding
import Mathlib.Data.List.Induction
import Mathlib.Order.Bounds.Basic

/-
Positions of byte offsets. Each character of a text moves the position behind it on, to the
next line or further in the same one, so positions come in the order of the text and no two
places between characters share one. Main statement: an offset has the position of the last
place between characters that is not behind it, and what this says of two offsets.
-/
namespace TypedLet.Editor

open Text Utf8

namespace Position

instance : LE Position where
  le p q := p.line < q.line ∨ p.line = q.line ∧ p.character ≤ q.character

instance : LT Position where
  lt p q := p.line < q.line ∨ p.line = q.line ∧ p.character < q.character

variable {p q r : Position}

theorem le_refl (p : Position) : p ≤ p := .inr ⟨rfl, Nat.le_refl _⟩

theorem le_of_lt (lt : p < q) : p ≤ q := lt.imp_right fun ⟨same, less⟩ => ⟨same, Nat.le_of_lt less⟩

theorem ne_of_lt (lt : p < q) : p ≠ q := by
  rintro rfl
  rcases lt with less | ⟨_, less⟩ <;> exact Nat.lt_irrefl _ less

theorem lt_trans (first : p < q) (second : q < r) : p < r := by
  rcases first with first | ⟨same, first⟩ <;> rcases second with second | ⟨same', second⟩
  · exact .inl (Nat.lt_trans first second)
  · exact .inl (same' ▸ first)
  · exact .inl (same ▸ second)
  · exact .inr ⟨same.trans same', Nat.lt_trans first second⟩

end Position

section Behind

theorem lastLine_concat (cs : List Char) (c : Char) :
    lastLine (cs ++ [c]) = if c = '\n' then [] else lastLine cs ++ [c] := by
  by_cases feed : c = '\n' <;> simp [lastLine, feed]

/-- The last line is what stands behind the last line feed. -/
theorem split_lastLine (cs : List Char) :
    ∃ earlier, cs = earlier ++ lastLine cs ∧ '\n' ∉ lastLine cs ∧
      ∀ c ∈ earlier.getLast?, c = '\n' := by
  induction cs using List.reverseRecOn with
  | nil => exact ⟨[], rfl, List.not_mem_nil, by simp⟩
  | append_singleton cs c ih =>
    rw [lastLine_concat]
    by_cases feed : c = '\n'
    · exact ⟨cs ++ [c], by simp [feed], by simp [feed], by simp [feed]⟩
    · obtain ⟨earlier, split, clean, ended⟩ := ih
      rw [if_neg feed]
      refine ⟨earlier, ?_, ?_, ended⟩
      · rw [← List.append_assoc, ← split]
      · simpa [clean] using Ne.symm feed

theorem length_encodeChar_pos (c : Char) : 0 < (Utf16.encodeChar c).length := by
  unfold Utf16.encodeChar
  split <;> exact Nat.succ_pos _

theorem behind_lt_concat (cs : List Char) (c : Char) : behind cs < behind (cs ++ [c]) := by
  have units := length_encodeChar_pos c
  by_cases feed : c = '\n'
  · left
    simp [behind, feed]
  · right
    simp only [behind, lastLine_concat, if_neg feed, Utf16.encode, List.flatMap_append,
      List.flatMap_singleton, List.length_append, List.count_append, List.count_singleton]
    refine ⟨?_, Nat.lt_add_of_pos_right units⟩
    simp [feed]

theorem behind_lt_append (cs : List Char) {ds : List Char} (some : ds ≠ []) :
    behind cs < behind (cs ++ ds) := by
  induction ds using List.reverseRecOn with
  | nil => exact absurd rfl some
  | append_singleton ds d ih =>
    rw [← List.append_assoc]
    by_cases none : ds = []
    · rw [none, List.append_nil]
      exact behind_lt_concat cs d
    · exact Position.lt_trans (ih none) (behind_lt_concat _ d)

theorem behind_le_of_isPrefix {cs ds : List Char} (starts : cs <+: ds) :
    behind cs ≤ behind ds := by
  obtain ⟨rest, rfl⟩ := starts
  by_cases none : rest = []
  · rw [none, List.append_nil]
    exact Position.le_refl _
  · exact Position.le_of_lt (behind_lt_append cs none)

end Behind

section Offsets

variable (source : String)

/-- The byte before which the text can be divided: it starts a character, or ends the text. -/
def IsBoundary (b : Nat) : Prop := ∃ before, before <+: source.toList ∧ size before = b

variable {source}

theorem position_eq (offset : Int) :
    position source offset = behind (within offset.toNat source.toList) :=
  congrArg behind (decode_take_encode _ _)

theorem position_le {offset later : Int} (le : offset ≤ later) :
    position source offset ≤ position source later := by
  rw [position_eq, position_eq]
  exact behind_le_of_isPrefix (within_mono (Int.toNat_le_toNat le) _)

theorem boundary_unique {b c : Nat} (boundary : IsBoundary source b)
    (boundary' : IsBoundary source c) (same : position source b = position source c) :
    b = c := by
  obtain ⟨before, starts, rfl⟩ := boundary
  obtain ⟨before', starts', rfl⟩ := boundary'
  rw [position_eq, position_eq, Int.toNat_natCast, Int.toNat_natCast, within_size starts,
    within_size starts'] at same
  have apart : ∀ {ds es : List Char}, ds <+: es → behind ds = behind es → ds = es := by
    rintro ds _ ⟨rest, rfl⟩ same
    by_cases none : rest = []
    · rw [none, List.append_nil]
    · exact absurd same (Position.ne_of_lt (behind_lt_append ds none))
  rcases List.prefix_or_prefix_of_prefix starts starts' with first | second
  · rw [apart first same]
  · rw [apart second same.symm]

/-- The offset stands for the greatest boundary that is not behind it, within the text. -/
theorem size_within_isGreatest (source : String) (offset : Int) :
    IsGreatest {b | IsBoundary source b ∧ (b : Int) ≤ max 0 (min offset (size source.toList))}
      (size (within offset.toNat source.toList)) := by
  have starts := within_isPrefix offset.toNat source.toList
  have fits := size_within_le offset.toNat source.toList
  have inside := size_le_of_isPrefix starts
  constructor
  · exact ⟨⟨_, starts, rfl⟩, by omega⟩
  · rintro b ⟨⟨before, starts', rfl⟩, below⟩
    exact size_le_of_isPrefix (isPrefix_within starts' (by omega))

/-- An offset has the position of the greatest boundary that is not behind it: the line counts
    the line feeds before that place, and the character the UTF-16 units from the last of them
    on. So a later offset has no earlier position, a span that is not reversed has a range
    that is not, and different boundaries have different positions. -/
theorem position_faithful (source : String) :
    (∀ offset : Int, ∃ earlier line after : List Char,
      source.toList = earlier ++ line ++ after ∧ '\n' ∉ line ∧ (∀ c ∈ earlier.getLast?, c = '\n') ∧
      IsGreatest {b | IsBoundary source b ∧ (b : Int) ≤ max 0 (min offset (size source.toList))}
        (size (earlier ++ line)) ∧
      position source offset = ⟨(earlier ++ line).count '\n', (Utf16.encode line).length⟩) ∧
    (∀ offset later : Int, offset ≤ later → position source offset ≤ position source later) ∧
    (∀ span : Span, span.start ≤ span.stop →
      (range source span).start ≤ (range source span).stop) ∧
    ∀ b c : Nat, IsBoundary source b → IsBoundary source c →
      position source b = position source c → b = c := by
  refine ⟨?_, fun _ _ => position_le, fun _ => position_le, fun _ _ => boundary_unique⟩
  intro offset
  obtain ⟨earlier, split, clean, ended⟩ := split_lastLine (within offset.toNat source.toList)
  obtain ⟨after, whole⟩ := within_isPrefix offset.toNat source.toList
  have greatest := size_within_isGreatest source offset
  refine ⟨earlier, lastLine (within offset.toNat source.toList), after, ?_, clean, ended, ?_, ?_⟩
  · rw [← split, whole]
  · rwa [← split]
  · rw [← split, position_eq]
    rfl

/-- The letter takes bytes 2 and 3, and an offset between them means its start. -/
example : position "a\né" 3 = ⟨1, 0⟩ := by decide +kernel

end Offsets

end TypedLet.Editor
