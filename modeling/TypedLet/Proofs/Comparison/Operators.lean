import TypedLet.Builtin.Basic
import TypedLet.Proofs.Comparison.Order

/-
The comparisons as one total order. The operators say how two values of an ordered type stand
to each other: `=`, which compares structure, and the other four, which go through the
three-way comparison.
-/
namespace TypedLet

def BinaryOp.Answers (op : BinaryOp) (v w : Value) (yes : Bool) : Prop :=
  (Builtin.binary op).call [v, w] = .ok (.bool yes, "")

abbrev BinaryOp.Holds (op : BinaryOp) (v w : Value) : Prop := op.Answers v w true

abbrev BinaryOp.Fails (op : BinaryOp) (v w : Value) : Prop := op.Answers v w false

namespace BinaryOp

open Value

variable {v w : Value} {yes : Bool}

theorem answers_of_apply {op : BinaryOp} {answer : Bool}
    (applied : op.apply v w = .ok (.bool answer)) : op.Answers v w yes ↔ answer = yes := by
  simp [Answers, Builtin.call, applied, Except.map]

theorem answers_lt : lt.Answers v w yes ↔ decide (v.compare w = some .lt) = yes :=
  answers_of_apply rfl

theorem answers_le : le.Answers v w yes ↔
    (decide (v.compare w = some .lt) || decide (v.compare w = some .eq)) = yes :=
  answers_of_apply rfl

theorem answers_gt : gt.Answers v w yes ↔ decide (v.compare w = some .gt) = yes :=
  answers_of_apply rfl

theorem answers_ge : ge.Answers v w yes ↔
    (decide (v.compare w = some .gt) || decide (v.compare w = some .eq)) = yes :=
  answers_of_apply rfl

theorem answers_eq : eq.Answers v w yes ↔ v.equal w = yes := answers_of_apply rfl

theorem holds_lt : lt.Holds v w ↔ v.Below w := by simp [answers_lt, Below]

theorem answers_some {op : BinaryOp} (comparison : op ∈ [lt, le, gt, ge, eq]) (v w : Value) :
    ∃ yes, op.Answers v w yes := by
  simp only [List.mem_cons, List.not_mem_nil, or_false] at comparison
  rcases comparison with rfl | rfl | rfl | rfl | rfl
  · exact ⟨_, answers_lt.mpr rfl⟩
  · exact ⟨_, answers_le.mpr rfl⟩
  · exact ⟨_, answers_gt.mpr rfl⟩
  · exact ⟨_, answers_ge.mpr rfl⟩
  · exact ⟨_, answers_eq.mpr rfl⟩

section Standing

variable {t : Ty} {a b : Value} (ordered : t.Ordered) (first : a.Has t) (second : b.Has t)

include ordered first second

theorem trichotomy :
    lt.Holds a b ∧ eq.Fails a b ∧ gt.Fails a b ∨ lt.Fails a b ∧ eq.Holds a b ∧ gt.Fails a b ∨
      lt.Fails a b ∧ eq.Fails a b ∧ gt.Holds a b := by
  have equal := equal_iff_of_ordered ordered first second
  cases stand_of_ordered ordered first second with
  | below there back differ =>
    have unequal : a.equal b = false := by simpa [← equal] using differ
    exact .inl (by simp [answers_lt, answers_eq, answers_gt, there, unequal])
  | same there same =>
    have alike : a.equal b = true := equal.mpr same
    exact .inr (.inl (by simp [answers_lt, answers_eq, answers_gt, there, alike]))
  | above there back differ =>
    have unequal : a.equal b = false := by simpa [← equal] using differ
    exact .inr (.inr (by simp [answers_lt, answers_eq, answers_gt, there, unequal]))

theorem holds_eq : eq.Holds a b ↔ a = b := by
  simp [answers_eq, equal_iff_of_ordered ordered first second]

theorem holds_gt : gt.Holds a b ↔ lt.Holds b a := by
  cases stand_of_ordered ordered first second with
  | below there back differ => simp [answers_gt, answers_lt, there, back]
  | same there same =>
    subst same
    simp [answers_gt, answers_lt, there]
  | above there back differ => simp [answers_gt, answers_lt, there, back]

theorem holds_le : le.Holds a b ↔ lt.Holds a b ∨ eq.Holds a b := by
  rw [holds_eq ordered first second]
  cases stand_of_ordered ordered first second with
  | below there back differ => simp [answers_le, answers_lt, there]
  | same there same =>
    subst same
    simp [answers_le, there]
  | above there back differ => simp [answers_le, answers_lt, there, differ]

theorem holds_ge : ge.Holds a b ↔ gt.Holds a b ∨ eq.Holds a b := by
  rw [holds_eq ordered first second]
  cases stand_of_ordered ordered first second with
  | below there back differ => simp [answers_ge, answers_gt, there, differ]
  | same there same =>
    subst same
    simp [answers_ge, there]
  | above there back differ => simp [answers_ge, answers_gt, there]

end Standing

/-- The comparisons are one total order on the values of a type that is built from Integer,
    Bool, Str and arrays. They always answer; exactly one of `<`, `=` and `>` says yes, and the
    others say no; `=` says yes to a value itself alone; `<=` and `>=` are what their signs say;
    and arrays are ordered lexicographically, a proper start before what it starts. -/
theorem comparisons_total_order {t : Ty} (ordered : t.Ordered) {a b c : Value}
    (first : a.Has t) (second : b.Has t) (third : c.Has t) :
    (∀ op ∈ [lt, le, gt, ge, eq], ∃ yes, op.Answers a b yes) ∧
    (lt.Holds a b ∧ eq.Fails a b ∧ gt.Fails a b ∨ lt.Fails a b ∧ eq.Holds a b ∧ gt.Fails a b ∨
      lt.Fails a b ∧ eq.Fails a b ∧ gt.Holds a b) ∧
    (eq.Holds a b ↔ a = b) ∧
    (gt.Holds a b ↔ lt.Holds b a) ∧
    (le.Holds a b ↔ lt.Holds a b ∨ eq.Holds a b) ∧
    (ge.Holds a b ↔ gt.Holds a b ∨ eq.Holds a b) ∧
    (lt.Holds a b → lt.Holds b c → lt.Holds a c) ∧
    ∀ element vs ws, a = .array element vs → b = .array element ws →
      (lt.Holds a b ↔ List.Lex lt.Holds vs ws) := by
  refine ⟨fun op comparison => answers_some comparison a b, trichotomy ordered first second,
    holds_eq ordered first second, holds_gt ordered first second,
    holds_le ordered first second, holds_ge ordered first second, ?_, ?_⟩
  · simp only [holds_lt]
    exact below_trans ordered first second third
  · rintro element vs ws rfl rfl
    obtain rfl : Ty.array element = t := first.1
    cases ordered with
    | array item =>
      have less : (lt.Holds : Value → Value → Prop) = Below := by
        funext v w
        exact propext holds_lt
      rw [less]
      exact below_array_iff item (has_items first) (has_items second)

/-- `[[1]] < [[1], []] < [[1, 0]]`: starts are below what they start, at either depth. -/
theorem comparisons_total_order_starts :
    let one := Value.array .integer [.int 1]
    let a := Value.array (.array .integer) [one]
    let b := Value.array (.array .integer) [one, .array .integer []]
    let c := Value.array (.array .integer) [.array .integer [.int 1, .int 0]]
    lt.Holds a b ∧ lt.Holds b c ∧ lt.Holds a c := by
  intro one a b c
  have formed : one.WellFormed := ⟨by simp [Value.type], wellFormed_int 1, trivial⟩
  have longer : (Value.array .integer [.int 1, .int 0]).WellFormed :=
    ⟨by simp [Value.type], wellFormed_int 1, wellFormed_int 0, trivial⟩
  have empty : (Value.array .integer []).WellFormed := ⟨by simp, trivial⟩
  have first : a.Has (.array (.array .integer)) :=
    ⟨rfl, by simp [one, Value.type], formed, trivial⟩
  have second : b.Has (.array (.array .integer)) :=
    ⟨rfl, by simp [one, Value.type], formed, empty, trivial⟩
  have third : c.Has (.array (.array .integer)) :=
    ⟨rfl, by simp [Value.type], longer, trivial⟩
  have order := comparisons_total_order (.array (.array .integer)) first second third
  have less : lt.Holds a b := rfl
  have next : lt.Holds b c := rfl
  exact ⟨less, next, order.2.2.2.2.2.2.1 less next⟩

end BinaryOp
end TypedLet
