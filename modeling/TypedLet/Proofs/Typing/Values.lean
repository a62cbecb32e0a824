import TypedLet.Checking.Infer
import TypedLet.Evaluation.Run

/-
Well-formed values and the operations on them. In a well-formed value all recorded
types are those of the contents. The signatures of the builtins and the casts are
promises about such values: what they allow runs through, and gives a well-formed
value of the promised type. Only a division may end in an error.
-/
namespace TypedLet

namespace Value

mutual
/-- Every array holds items of its element type, every tuple items of the types it
    records, and every integer is one of 64 bits. -/
def WellFormed : Value → Prop
  | int n => -2 ^ 63 ≤ n.toInt ∧ n.toInt ≤ 2 ^ 63 - 1
  | array element items => (∀ v ∈ items, v.type = element) ∧ AllWellFormed items
  | tuple types items => types = items.map type ∧ AllWellFormed items
  | _ => True
def AllWellFormed : List Value → Prop
  | [] => True
  | v :: vs => v.WellFormed ∧ AllWellFormed vs
end

theorem allWellFormed_iff {vs : List Value} : AllWellFormed vs ↔ ∀ v ∈ vs, v.WellFormed := by
  induction vs with
  | nil => simp [AllWellFormed]
  | cons v vs ih => simp [AllWellFormed, ih]

theorem wellFormed_int (n : Int64) : (int n).WellFormed := by
  have low := n.le_toInt
  have high := n.toInt_lt
  constructor
  · exact low
  · omega

theorem wellFormed_tupleOf {items : List Value} (h : AllWellFormed items) :
    (tupleOf items).WellFormed := ⟨rfl, h⟩

theorem int_of_type {v : Value} (h : v.type = .integer) : ∃ n, v = int n := by
  cases v with
  | int n => exact ⟨n, rfl⟩
  | _ => cases h

theorem float_of_type {v : Value} (h : v.type = .float) : ∃ x, v = float x := by
  cases v with
  | float x => exact ⟨x, rfl⟩
  | _ => cases h

theorem str_of_type {v : Value} (h : v.type = .str) : ∃ s, v = str s := by
  cases v with
  | str s => exact ⟨s, rfl⟩
  | _ => cases h

theorem array_of_type {v : Value} {element : Ty} (h : v.type = .array element) :
    ∃ items, v = array element items := by
  cases v with
  | array t items =>
    cases h
    exact ⟨items, rfl⟩
  | _ => cases h

theorem tuple_of_type {v : Value} {types : List Ty} (h : v.type = .tuple types) :
    ∃ items, v = tuple types items := by
  cases v with
  | tuple ts items =>
    cases h
    exact ⟨items, rfl⟩
  | _ => cases h

theorem truth_of_isCondition {v : Value} (h : v.type.isCondition = true) :
    ∃ b, v.truth = .ok b := by
  cases v with
  | int n => exact ⟨_, rfl⟩
  | float x => exact ⟨_, rfl⟩
  | bool b => exact ⟨_, rfl⟩
  | array element items => exact ⟨_, rfl⟩
  | void | str _ | tuple _ _ => cases h

end Value

namespace Ty

theorem allCastTo_iff {ss : List Ty} {d : Ty} :
    allCastTo ss d = true ↔ ∀ s ∈ ss, s.castsTo d = true := by
  induction ss with
  | nil => simp [allCastTo]
  | cons s ss ih => simp [allCastTo, ih]

theorem length_of_eachCastsTo {ss : List Ty} : ∀ {ds : List Ty},
    eachCastsTo ss ds = true → ss.length = ds.length := by
  induction ss with
  | nil =>
    intro ds h
    cases ds with
    | nil => rfl
    | cons d ds => cases h
  | cons s ss ih =>
    intro ds h
    cases ds with
    | nil => cases h
    | cons d ds =>
      rw [eachCastsTo, Bool.and_eq_true] at h
      simp [ih h.2]

end Ty

namespace Value

def ConvertsTo (v : Value) (target : Ty) : Prop :=
  ∃ w, v.convert target = .ok w ∧ w.type = target ∧ w.WellFormed

theorem convertsTo_void (v : Value) : v.ConvertsTo .void := by
  refine ⟨void, ?_, rfl, trivial⟩
  cases v <;> rfl

theorem convertsTo_of_int (n : Int64) {target : Ty} (h : Ty.integer.castsTo target = true) :
    (int n).ConvertsTo target := by
  cases target with
  | void => exact convertsTo_void _
  | integer => exact ⟨int n, rfl, rfl, wellFormed_int n⟩
  | float => exact ⟨float _, rfl, rfl, trivial⟩
  | bool => exact ⟨bool _, rfl, rfl, trivial⟩
  | str => exact ⟨str _, rfl, rfl, trivial⟩
  | array _ | tuple _ => simp [Ty.castsTo] at h

theorem convertsTo_of_float (x : Float) {target : Ty} (h : Ty.float.castsTo target = true) :
    (float x).ConvertsTo target := by
  cases target with
  | void => exact convertsTo_void _
  | integer => exact ⟨int _, rfl, rfl, wellFormed_int _⟩
  | float => exact ⟨float x, rfl, rfl, trivial⟩
  | bool => exact ⟨bool _, rfl, rfl, trivial⟩
  | str => exact ⟨str _, rfl, rfl, trivial⟩
  | array _ | tuple _ => simp [Ty.castsTo] at h

theorem convertsTo_of_bool (b : Bool) {target : Ty} (h : Ty.bool.castsTo target = true) :
    (bool b).ConvertsTo target := by
  cases target with
  | void => exact convertsTo_void _
  | bool => exact ⟨bool b, rfl, rfl, trivial⟩
  | str => exact ⟨str _, rfl, rfl, trivial⟩
  | integer | float | array _ | tuple _ => simp [Ty.castsTo] at h

theorem convertsTo_of_str (s : String) {target : Ty} (h : Ty.str.castsTo target = true) :
    (str s).ConvertsTo target := by
  cases target with
  | void => exact convertsTo_void _
  | str => exact ⟨str s, rfl, rfl, trivial⟩
  | integer | float | bool | array _ | tuple _ => simp [Ty.castsTo] at h

mutual
theorem convertsTo_of_castsTo : ∀ (v : Value) (target : Ty), v.WellFormed →
    v.type.castsTo target = true → v.ConvertsTo target
  | void, target, _, casts => by
    cases target with
    | void => exact convertsTo_void _
    | _ => simp [type, Ty.castsTo] at casts
  | int n, _, _, casts => convertsTo_of_int n casts
  | float x, _, _, casts => convertsTo_of_float x casts
  | bool b, _, _, casts => convertsTo_of_bool b casts
  | str s, _, _, casts => convertsTo_of_str s casts
  | array element items, target, formed, casts => by
    cases target with
    | void => exact convertsTo_void _
    | array d =>
      by_cases same : d = element
      · subst same
        exact ⟨array d items, by rw [convert, if_pos rfl], rfl, formed⟩
      · have each : ∀ s ∈ items.map type, s.castsTo d = true := by
          intro s mem
          obtain ⟨v, member, rfl⟩ := List.mem_map.mp mem
          rw [formed.1 v member]
          rwa [type, Ty.castsTo] at casts
        obtain ⟨ws, run, typed, all⟩ :=
          convertAll_of_castsTo items d formed.2 (Ty.allCastTo_iff.mpr each)
        exact ⟨array d ws, by rw [convert, if_neg same, run]; rfl, rfl, typed, all⟩
    | integer | float | bool | str | tuple _ => simp [type, Ty.castsTo] at casts
  | tuple types items, target, formed, casts => by
    have recorded : types = items.map type := formed.1
    cases target with
    | void => exact convertsTo_void _
    | array d =>
      rw [type, Ty.castsTo, recorded] at casts
      obtain ⟨ws, run, typed, all⟩ := convertAll_of_castsTo items d formed.2 casts
      exact ⟨array d ws, by rw [convert, run]; rfl, rfl, typed, all⟩
    | tuple targets =>
      by_cases same : targets = types
      · subst same
        exact ⟨tuple targets items, by rw [convert, if_pos rfl], rfl, formed⟩
      · rw [type, Ty.castsTo, recorded] at casts
        obtain ⟨ws, run, typed, all⟩ := convertEach_of_castsTo items targets formed.2 casts
        have count : targets.length = items.length := by
          have := Ty.length_of_eachCastsTo casts
          rw [List.length_map] at this
          exact this.symm
        refine ⟨tuple targets ws, ?_, rfl, typed.symm, all⟩
        rw [convert, if_neg same, if_neg (by simp [count]), run]
        rfl
    | integer | float | bool | str => simp [type, Ty.castsTo] at casts
theorem convertAll_of_castsTo : ∀ (vs : List Value) (target : Ty), AllWellFormed vs →
    Ty.allCastTo (vs.map type) target = true →
      ∃ ws, convertAll vs target = .ok ws ∧ (∀ w ∈ ws, w.type = target) ∧ AllWellFormed ws
  | [], _, _, _ => ⟨[], rfl, by simp, trivial⟩
  | v :: vs, target, formed, casts => by
    rw [List.map_cons, Ty.allCastTo, Bool.and_eq_true] at casts
    obtain ⟨w, first, typed, here⟩ := convertsTo_of_castsTo v target formed.1 casts.1
    obtain ⟨ws, others, typedAll, rest⟩ := convertAll_of_castsTo vs target formed.2 casts.2
    refine ⟨w :: ws, by rw [convertAll, first, others]; rfl, ?_, here, rest⟩
    exact List.forall_mem_cons.mpr ⟨typed, typedAll⟩
theorem convertEach_of_castsTo : ∀ (vs : List Value) (targets : List Ty), AllWellFormed vs →
    Ty.eachCastsTo (vs.map type) targets = true →
      ∃ ws, convertEach vs targets = .ok ws ∧ ws.map type = targets ∧ AllWellFormed ws
  | [], targets, _, casts => by
    cases targets with
    | nil => exact ⟨[], rfl, rfl, trivial⟩
    | cons target targets => cases casts
  | v :: vs, targets, formed, casts => by
    cases targets with
    | nil => cases casts
    | cons target targets =>
      rw [List.map_cons, Ty.eachCastsTo, Bool.and_eq_true] at casts
      obtain ⟨w, first, typed, here⟩ := convertsTo_of_castsTo v target formed.1 casts.1
      obtain ⟨ws, others, typedAll, rest⟩ := convertEach_of_castsTo vs targets formed.2 casts.2
      refine ⟨w :: ws, by rw [convertEach, first, others]; rfl, ?_, here, rest⟩
      rw [List.map_cons, typed, typedAll]
end

end Value
end TypedLet
