import TypedLet.Proofs.Typing.Values

/-
The builtins keep the promises of their signatures. For arguments of types that a
signature accepts, a call gives a well-formed value of the promised result type,
and the only error it can meet is the division of an integer by zero.
-/
namespace TypedLet

theorem Ty.fits_exactly {table : TypePattern.Table} {t u : Ty} :
    t.fits table (.exactly u) = true ↔ u = t := by
  cases t <;> simp [Ty.fits, TypePattern.heads, TypePattern.headsWith]

def Promised (t : Ty) (r : Except Error Value) : Prop :=
  (∃ v, r = .ok v ∧ v.type = t ∧ v.WellFormed) ∨ r = .error .divisionByZero

theorem promised_ok {v : Value} {t : Ty} (typed : v.type = t) (formed : v.WellFormed) :
    Promised t (.ok v) := Or.inl ⟨v, rfl, typed, formed⟩

namespace Builtin

open Value

theorem accepts_one {p : TypePattern} {result : Ty} {types : List Ty}
    (h : (Signature.mk [p] result).accepts types = true) :
    ∃ a, types = [a] ∧ a.fits TypePattern.standardTable p = true := by
  match types with
  | [] => cases h
  | [a] => exact ⟨a, rfl, by simpa [Signature.accepts, Ty.eachFits] using h⟩
  | a :: b :: rest => simp [Signature.accepts, Ty.eachFits] at h

theorem accepts_two {p q : TypePattern} {result : Ty} {types : List Ty}
    (h : (Signature.mk [p, q] result).accepts types = true) :
    ∃ a b, types = [a, b] ∧ a.fits TypePattern.standardTable p = true ∧
      b.fits TypePattern.standardTable q = true := by
  match types with
  | [] => cases h
  | [a] => simp [Signature.accepts, Ty.eachFits] at h
  | [a, b] => exact ⟨a, b, rfl, by simpa [Signature.accepts, Ty.eachFits] using h⟩
  | a :: b :: c :: rest => simp [Signature.accepts, Ty.eachFits] at h

theorem accepts_closedOn_one {t : Ty} {types : List Ty}
    (h : (closedOn 1 t).accepts types = true) : types = [t] := by
  obtain ⟨a, rfl, fit⟩ := accepts_one h
  rw [Ty.fits_exactly.mp fit]

theorem accepts_closedOn_two {t : Ty} {types : List Ty}
    (h : (closedOn 2 t).accepts types = true) : types = [t, t] := by
  obtain ⟨a, b, rfl, first, second⟩ := accepts_two h
  rw [← Ty.fits_exactly.mp first, ← Ty.fits_exactly.mp second]

theorem accepts_of_resultFor {b : Builtin} {types : List Ty} {t : Ty}
    (h : b.resultFor types = some t) :
    ∃ s ∈ b.signatures, s.accepts types = true ∧ s.result = t := by
  unfold resultFor at h
  split at h
  · cases h
  · obtain ⟨s, found, result⟩ := Option.map_eq_some_iff.mp h
    have accepts : s.accepts types = true := by
      have holds := List.find?_some found
      exact holds
    exact ⟨s, List.mem_of_find?_eq_some found, accepts, result⟩

theorem closed_of_resultFor (ts : List Ty) {b : Builtin} {types : List Ty} {t : Ty}
    (closed : b.signatures = ts.map (closedOn 2)) (h : b.resultFor types = some t) :
    t ∈ ts ∧ types = [t, t] := by
  obtain ⟨s, member, accepts, rfl⟩ := accepts_of_resultFor h
  rw [closed] at member
  obtain ⟨u, listed, rfl⟩ := List.mem_map.mp member
  exact ⟨listed, accepts_closedOn_two accepts⟩

theorem unary_of_resultFor {op : UnaryOp} {types : List Ty} {t : Ty}
    (h : (unary op).resultFor types = some t) : (t = .integer ∨ t = .float) ∧ types = [t] := by
  obtain ⟨s, member, accepts, rfl⟩ := accepts_of_resultFor h
  rcases List.mem_cons.mp member with rfl | later
  · exact ⟨Or.inl rfl, accepts_closedOn_one accepts⟩
  · rw [List.mem_singleton] at later
    subst later
    exact ⟨Or.inr rfl, accepts_closedOn_one accepts⟩

theorem printer_of_resultFor {b : Builtin} (printer : b.signatures = [⟨[.any], .void⟩])
    {types : List Ty} {t : Ty} (h : b.resultFor types = some t) : t = .void ∧ ∃ a, types = [a] := by
  obtain ⟨s, member, accepts, rfl⟩ := accepts_of_resultFor h
  rw [printer, List.mem_singleton] at member
  subst member
  obtain ⟨a, rfl, _⟩ := accepts_one accepts
  exact ⟨rfl, a, rfl⟩

theorem comparison_of_resultFor {b : Builtin}
    (comparison : b.signatures = [⟨[.named "Comparable", .named "Comparable"], .bool⟩])
    {types : List Ty} {t : Ty} (h : b.resultFor types = some t) : t = .bool := by
  obtain ⟨s, member, accepts, rfl⟩ := accepts_of_resultFor h
  rw [comparison, List.mem_singleton] at member
  subst member
  rfl

theorem binary_arity {op : BinaryOp} {types : List Ty} {t : Ty}
    (h : (binary op).resultFor types = some t) : ∃ a b, types = [a, b] := by
  obtain ⟨s, member, accepts, _⟩ := accepts_of_resultFor h
  have two : ∃ p q, s.params = [p, q] := by
    cases op with
    | add =>
      simp only [signatures, List.mem_cons, List.not_mem_nil, or_false] at member
      rcases member with rfl | rfl | rfl <;> exact ⟨_, _, rfl⟩
    | sub | mul | div =>
      simp only [signatures, List.mem_cons, List.not_mem_nil, or_false] at member
      rcases member with rfl | rfl <;> exact ⟨_, _, rfl⟩
    | lt | le | gt | ge | eq | ne =>
      rw [signatures, List.mem_singleton] at member
      · subst member
        exact ⟨_, _, rfl⟩
      all_goals nofun
  obtain ⟨p, q, params⟩ := two
  obtain ⟨_, result⟩ := s
  subst params
  obtain ⟨a, b, same, _⟩ := accepts_two accepts
  exact ⟨a, b, same⟩

end Builtin

open Value Builtin

theorem promised_compare {b : Bool} : Promised .bool (.ok (.bool b)) := promised_ok rfl trivial

theorem numbers_of_resultFor {b : Builtin} {v w : Value} {t : Ty}
    (closed : b.signatures = [Ty.integer, .float].map (closedOn 2))
    (h : b.resultFor [v.type, w.type] = some t) :
    (∃ m n, v = .int m ∧ w = .int n ∧ t = .integer) ∨
      ∃ x y, v = .float x ∧ w = .float y ∧ t = .float := by
  obtain ⟨listed, types⟩ := closed_of_resultFor [.integer, .float] closed h
  obtain ⟨left, right⟩ := List.cons.inj types
  have right := (List.cons.inj right).1
  rcases List.mem_cons.mp listed with rfl | later
  · obtain ⟨m, rfl⟩ := int_of_type left
    obtain ⟨n, rfl⟩ := int_of_type right
    exact Or.inl ⟨m, n, rfl, rfl, rfl⟩
  · obtain rfl := List.mem_singleton.mp later
    obtain ⟨x, rfl⟩ := float_of_type left
    obtain ⟨y, rfl⟩ := float_of_type right
    exact Or.inr ⟨x, y, rfl, rfl, rfl⟩

theorem BinaryOp.promised_apply {op : BinaryOp} {v w : Value} {t : Ty}
    (h : (binary op).resultFor [v.type, w.type] = some t) : Promised t (op.apply v w) := by
  cases op with
  | add =>
    obtain ⟨listed, types⟩ := closed_of_resultFor [.integer, .float, .str] rfl h
    obtain ⟨left, right⟩ := List.cons.inj types
    have right := (List.cons.inj right).1
    simp only [List.mem_cons, List.not_mem_nil, or_false] at listed
    rcases listed with rfl | rfl | rfl
    · obtain ⟨m, rfl⟩ := int_of_type left
      obtain ⟨n, rfl⟩ := int_of_type right
      exact promised_ok rfl (wellFormed_int _)
    · obtain ⟨x, rfl⟩ := float_of_type left
      obtain ⟨y, rfl⟩ := float_of_type right
      exact promised_ok rfl trivial
    · obtain ⟨s, rfl⟩ := str_of_type left
      obtain ⟨u, rfl⟩ := str_of_type right
      exact promised_ok rfl trivial
  | sub | mul =>
    rcases numbers_of_resultFor rfl h with ⟨m, n, rfl, rfl, rfl⟩ | ⟨x, y, rfl, rfl, rfl⟩
    · exact promised_ok rfl (wellFormed_int _)
    · exact promised_ok rfl trivial
  | div =>
    rcases numbers_of_resultFor rfl h with ⟨m, n, rfl, rfl, rfl⟩ | ⟨x, y, rfl, rfl, rfl⟩
    · rw [apply]
      by_cases zero : n = 0
      · rw [if_pos zero]
        exact Or.inr rfl
      · rw [if_neg zero]
        exact promised_ok rfl (wellFormed_int _)
    · exact promised_ok rfl trivial
  | lt | le | gt | ge | eq | ne =>
    obtain rfl := comparison_of_resultFor rfl h
    exact promised_compare

theorem UnaryOp.promised_apply {op : UnaryOp} {v : Value} {t : Ty}
    (h : (unary op).resultFor [v.type] = some t) : Promised t (op.apply v) := by
  obtain ⟨listed, types⟩ := unary_of_resultFor h
  have typed := (List.cons.inj types).1
  rcases listed with rfl | rfl
  · obtain ⟨n, rfl⟩ := int_of_type typed
    cases op <;> exact promised_ok rfl (wellFormed_int _)
  · obtain ⟨x, rfl⟩ := float_of_type typed
    cases op <;> exact promised_ok rfl trivial

theorem Builtin.promised_call {b : Builtin} {args : List Value} {t : Ty}
    (h : b.resultFor (args.map type) = some t) : Promised t ((b.call args).map (·.1)) := by
  cases b with
  | binary op =>
    obtain ⟨a, b, two⟩ := binary_arity h
    match args, two with
    | [v, w], _ =>
      have promised := BinaryOp.promised_apply h
      rw [call]
      cases run : op.apply v w with
      | ok r => rw [run] at promised; exact promised
      | error e => rw [run] at promised; exact promised
  | unary op =>
    obtain ⟨_, one⟩ := unary_of_resultFor h
    match args, one with
    | [v], _ =>
      have promised := UnaryOp.promised_apply h
      rw [call]
      cases run : op.apply v with
      | ok r => rw [run] at promised; exact promised
      | error e => rw [run] at promised; exact promised
  | print | println =>
    obtain ⟨rfl, a, one⟩ := printer_of_resultFor rfl h
    match args, one with
    | [v], _ => exact promised_ok rfl trivial

end TypedLet
