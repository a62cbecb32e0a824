import TypedLet.Proofs.Typing.Signatures
import TypedLet.Proofs.Checking.Accept

/-
The casts are a preorder. Every type casts to itself, and casts go on: what casts to a type
casts to whatever that type casts to. The type in the middle may have another shape than
either end. So no chain of casts reaches a type that one cast does not reach, and a program
that casts in steps may as well cast at once.
-/
namespace TypedLet

namespace Ty

mutual
theorem Casts.refl : ∀ t : Ty, Casts t t
  | void => .discard
  | integer | float => .number (by simp) (by simp)
  | bool => .bool (by simp)
  | str => .str
  | array t => .array (Casts.refl t)
  | tuple ts => .tuple (CastsEach.refl ts)
theorem CastsEach.refl : ∀ ts : List Ty, CastsEach ts ts
  | [] => .nil
  | t :: ts => .cons (Casts.refl t) (CastsEach.refl ts)
end

section Inversion

variable {a b : Ty}

theorem eq_void_of_casts (casts : Casts void b) : b = void := by
  cases casts with
  | discard => rfl
  | number source => simp at source

theorem number_of_casts (casts : Casts a b) (target : b ∈ [integer, float]) :
    a ∈ [integer, float] := by
  cases casts with
  | number source => exact source
  | bool there =>
    simp only [List.mem_cons, List.not_mem_nil, or_false] at there
    rcases there with rfl | rfl <;> simp at target
  | discard | str | array | spread | tuple => simp at target

theorem source_of_casts_bool (casts : Casts a bool) : a = bool ∨ a ∈ [integer, float] := by
  cases casts with
  | number source => exact .inr source
  | bool => exact .inl rfl

theorem source_of_casts_array {t : Ty} (casts : Casts a (array t)) :
    (∃ s, a = array s ∧ Casts s t) ∨ ∃ ss, a = tuple ss ∧ ∀ s ∈ ss, Casts s t := by
  cases casts with
  | array item => exact .inl ⟨_, rfl, item⟩
  | spread items => exact .inr ⟨_, rfl, items⟩
  | number _ target => simp at target
  | bool target => simp at target

theorem source_of_casts_tuple {ts : List Ty} (casts : Casts a (tuple ts)) :
    ∃ ss, a = tuple ss ∧ CastsEach ss ts := by
  cases casts with
  | tuple items => exact ⟨_, rfl, items⟩
  | number _ target => simp at target
  | bool target => simp at target

end Inversion

mutual
/-- By recursion on the type in the middle: whatever it hands on, it has received. -/
theorem Casts.trans : ∀ (b : Ty) {a c : Ty}, Casts a b → Casts b c → Casts a c
  | b, a, void, _, _ => .discard
  | void, a, c, _, next => by
    rw [eq_void_of_casts next]
    exact .discard
  | integer, a, c, first, next | float, a, c, first, next => by
    have source := number_of_casts first (by simp)
    cases next with
    | discard => exact .discard
    | number _ target => exact .number source target
  | bool, a, c, first, next => by
    cases next with
    | discard => exact .discard
    | number source => simp at source
    | bool target =>
      rcases source_of_casts_bool first with rfl | source
      · exact .bool target
      · exact .number source (List.mem_cons_of_mem _ (List.mem_cons_of_mem _ target))
  | str, a, c, first, next => by
    cases next with
    | discard => exact .discard
    | number source => simp at source
    | str => exact first
  | array t, a, c, first, next => by
    cases next with
    | discard => exact .discard
    | number source => simp at source
    | array item =>
      -- What casts to an array is an array, or a tuple that is spread.
      rcases source_of_casts_array first with ⟨s, rfl, before⟩ | ⟨ss, rfl, before⟩
      · exact .array (Casts.trans t before item)
      · exact .spread fun s member => Casts.trans t (before s member) item
  | tuple ts, a, c, first, next => by
    obtain ⟨ss, rfl, before⟩ := source_of_casts_tuple first
    cases next with
    | discard => exact .discard
    | number source => simp at source
    | spread items => exact .spread (CastsEach.trans_all ts before items)
    | tuple items => exact .tuple (CastsEach.trans ts before items)
theorem CastsEach.trans_all : ∀ (bs : List Ty) {as : List Ty} {c : Ty}, CastsEach as bs →
    (∀ b ∈ bs, Casts b c) → ∀ a ∈ as, Casts a c
  | [], as, c, first, _ => by
    cases first
    exact List.forall_mem_nil _
  | b :: bs, as, c, first, next => by
    obtain ⟨here, others⟩ := List.forall_mem_cons.mp next
    cases first with
    | cons before rest =>
      exact List.forall_mem_cons.mpr ⟨Casts.trans b before here, CastsEach.trans_all bs rest others⟩
theorem CastsEach.trans : ∀ (bs : List Ty) {as cs : List Ty}, CastsEach as bs →
    CastsEach bs cs → CastsEach as cs
  | [], as, cs, first, next => by
    cases first
    exact next
  | b :: bs, as, cs, first, next => by
    cases first with
    | cons before rest =>
      cases next with
      | cons here others => exact .cons (Casts.trans b before here) (CastsEach.trans bs rest others)
end

end Ty

namespace Expr

variable {Γ : Scopes Ty} {e : Expr} {t : Ty}

def castThrough (e : Expr) (steps : List (Ty × Option Span)) : Expr :=
  steps.foldl (fun e step => cast e step.1 step.2) e

theorem casts_of_castThrough (steps : List (Ty × Option Span)) :
    Infers Γ (e.castThrough steps) t → ∃ s, Infers Γ e s ∧ s.Casts t := by
  induction steps generalizing e with
  | nil =>
    intro accepted
    exact ⟨t, accepted, .refl t⟩
  | cons step steps ih =>
    intro accepted
    obtain ⟨middle, inner, later⟩ := ih accepted
    obtain ⟨rfl, s, source, first⟩ := infers_cast.mp inner
    exact ⟨s, source, .trans _ ((Ty.castsTo_iff _ _).mp first) later⟩

end Expr

/-- Every type casts to itself, and what casts to a type casts to whatever that type casts
    to. So where an expression is accepted that is cast in one or more steps, it is accepted,
    with the same type, cast to the last type alone. -/
theorem Ty.castsTo_preorder :
    (∀ a : Ty, a.castsTo a = true) ∧
    (∀ a b c : Ty, a.castsTo b = true → b.castsTo c = true → a.castsTo c = true) ∧
    ∀ Γ e steps last t span span',
      Expr.Infers Γ (Expr.castThrough e (steps ++ [(last, span)])) t →
        Expr.Infers Γ (.cast e last span') t := by
  refine ⟨fun a => ?_, fun a b c first next => ?_, fun Γ e steps last t span span' => ?_⟩
  · exact (castsTo_iff a a).mpr (.refl a)
  · rw [castsTo_iff] at first next ⊢
    exact .trans b first next
  · intro accepted
    obtain ⟨s, source, casts⟩ := Expr.casts_of_castThrough _ accepted
    rw [Expr.castThrough, List.foldl_append] at accepted
    obtain ⟨rfl, _⟩ := Expr.infers_cast.mp accepted
    exact Expr.infers_cast.mpr ⟨rfl, s, source, (castsTo_iff s t).mpr casts⟩

/-- The type in the middle is an array where the first one is a tuple, and an empty tuple
    casts to arrays of anything. -/
theorem Ty.castsTo_preorder_through_array :
    let a := Ty.tuple [.tuple [], .array .integer]
    let b := Ty.array (.array .float)
    let c := Ty.array (.array .str)
    a.castsTo b = true ∧ b.castsTo c = true ∧ a.castsTo c = true :=
  ⟨rfl, rfl, castsTo_preorder.2.1 _ (.array (.array .float)) _ rfl rfl⟩

end TypedLet
