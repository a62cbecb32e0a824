import TypedLet.Proofs.Typing.Values

/-
Conversion item by item. A conversion leaves an array or a tuple alone that records the wanted
types already. In a well-formed value this is no more than a short cut: to go through all the
items would give the same value, for each item converts to its own type as it is. What a
conversion gives is well formed again and of the wanted type, whether the casts allow it or not.
-/
namespace TypedLet
namespace Value

def before (first : Except Fault Value) (others : Except Fault (List Value)) :
    Except Fault (List Value) :=
  match first with
  | .ok w => others.map (w :: ·)
  | .error fault => .error fault

mutual
/-- The conversion that goes through all items, whatever types are recorded. What has no items
    to go through is converted as ever. -/
def recast : Value → Ty → Except Fault Value
  | array _ items, .array target => (recastAll items target).map (array target)
  | tuple types items, .tuple targets =>
    if targets.length ≠ items.length then .error (.conversion (.tuple types) (.tuple targets))
    else (recastEach items targets).map (tuple targets)
  | tuple _ items, .array target => (recastAll items target).map (array target)
  | v, target => v.convert target
def recastAll : List Value → Ty → Except Fault (List Value)
  | [], _ => .ok []
  | v :: vs, target => before (v.recast target) (recastAll vs target)
def recastEach : List Value → List Ty → Except Fault (List Value)
  | v :: vs, target :: targets => before (v.recast target) (recastEach vs targets)
  | _, _ => .ok []
end

mutual
theorem recast_type : ∀ v : Value, v.WellFormed → v.recast v.type = .ok v
  | void, _ | int _, _ | float _, _ | bool _, _ | str _, _ => rfl
  | array element items, formed => by
    rw [type, recast, recastAll_type items element formed.1 formed.2]
    rfl
  | tuple types items, formed => by
    obtain ⟨rfl, all⟩ := formed
    rw [type, recast, if_neg (by simp), recastEach_type items all]
    rfl
theorem recastAll_type : ∀ (vs : List Value) (t : Ty), (∀ v ∈ vs, v.type = t) →
    AllWellFormed vs → recastAll vs t = .ok vs
  | [], _, _, _ => rfl
  | v :: vs, t, typed, formed => by
    obtain ⟨rfl, others⟩ := List.forall_mem_cons.mp typed
    rw [recastAll, recast_type v formed.1, recastAll_type vs v.type others formed.2]
    rfl
theorem recastEach_type : ∀ vs : List Value, AllWellFormed vs →
    recastEach vs (vs.map type) = .ok vs
  | [], _ => rfl
  | v :: vs, formed => by
    rw [List.map_cons, recastEach, recast_type v formed.1, recastEach_type vs formed.2]
    rfl
end

mutual
theorem convert_eq_recast : ∀ (v : Value) (target : Ty), v.WellFormed →
    v.convert target = v.recast target
  | void, target, _ | int _, target, _ | float _, target, _ | bool _, target, _
  | str _, target, _ => by cases target <;> rfl
  | array element items, target, formed => by
    cases target with
    | array t =>
      by_cases same : t = element
      · subst same
        rw [convert, if_pos rfl]
        exact (recast_type (array t items) formed).symm
      · rw [convert, if_neg same, recast, convertAll_eq_recastAll items t formed.2]
    | _ => rfl
  | tuple types items, target, formed => by
    cases target with
    | array t => rw [convert, recast, convertAll_eq_recastAll items t formed.2]
    | tuple targets =>
      by_cases same : targets = types
      · subst same
        rw [convert, if_pos rfl]
        exact (recast_type (tuple targets items) formed).symm
      · rw [convert, if_neg same, recast, convertEach_eq_recastEach items targets formed.2]
    | _ => rfl
theorem convertAll_eq_recastAll : ∀ (vs : List Value) (target : Ty), AllWellFormed vs →
    convertAll vs target = recastAll vs target
  | [], _, _ => rfl
  | v :: vs, target, formed => by
    rw [convertAll, recastAll, convert_eq_recast v target formed.1,
      convertAll_eq_recastAll vs target formed.2]
    cases v.recast target <;> rfl
theorem convertEach_eq_recastEach : ∀ (vs : List Value) (targets : List Ty), AllWellFormed vs →
    convertEach vs targets = recastEach vs targets
  | [], _, _ => rfl
  | _ :: _, [], _ => rfl
  | v :: vs, target :: targets, formed => by
    rw [convertEach, recastEach, convert_eq_recast v target formed.1,
      convertEach_eq_recastEach vs targets formed.2]
    cases v.recast target <;> rfl
end

theorem map_ok {f : α → β} {x : Except Fault α} {b : β} (run : x.map f = .ok b) :
    ∃ a, x = .ok a ∧ b = f a := by
  cases x with
  | error fault => cases run
  | ok a =>
    cases run
    exact ⟨a, rfl, rfl⟩

theorem before_ok {first : Except Fault Value} {others : Except Fault (List Value)}
    {ws : List Value} (run : before first others = .ok ws) :
    ∃ w rest, first = .ok w ∧ others = .ok rest ∧ ws = w :: rest := by
  cases first with
  | error fault => cases run
  | ok w =>
    obtain ⟨rest, ran, rfl⟩ := map_ok run
    exact ⟨w, rest, rfl, ran, rfl⟩

def scalars : List Ty := [.void, .integer, .float, .bool, .str]

theorem wellFormed_of_scalar {v : Value} (scalar : v.type ∈ scalars) : v.WellFormed := by
  cases v with
  | int n => exact wellFormed_int n
  | array _ _ | tuple _ _ => simp [type, scalars] at scalar
  | void | float _ | bool _ | str _ => trivial

/-- A value without items converts to nothing but values without items. -/
theorem type_of_convert_scalar {v w : Value} {target : Ty} (scalar : v.type ∈ scalars)
    (run : v.convert target = .ok w) : w.type = target ∧ target ∈ scalars := by
  cases v with
  | array _ _ | tuple _ _ => simp [type, scalars] at scalar
  | void | int _ | float _ | bool _ | str _ =>
    cases target <;> cases run <;> exact ⟨rfl, by simp [scalars]⟩

mutual
theorem formed_of_recast : ∀ (v : Value) {target : Ty} {w : Value}, v.recast target = .ok w →
    w.type = target ∧ w.WellFormed
  | void, target, w, run | int _, target, w, run | float _, target, w, run
  | bool _, target, w, run | str _, target, w, run => by
    obtain ⟨typed, scalar⟩ := type_of_convert_scalar (by simp [type, scalars]) run
    exact ⟨typed, wellFormed_of_scalar (typed ▸ scalar)⟩
  | array element items, target, w, run => by
    cases target with
    | void =>
      cases run
      exact ⟨rfl, trivial⟩
    | array t =>
      obtain ⟨ws, inside, rfl⟩ := map_ok run
      exact ⟨rfl, formed_of_recastAll items inside⟩
    | _ => cases run
  | tuple types items, target, w, run => by
    cases target with
    | void =>
      cases run
      exact ⟨rfl, trivial⟩
    | array t =>
      obtain ⟨ws, inside, rfl⟩ := map_ok run
      exact ⟨rfl, formed_of_recastAll items inside⟩
    | tuple targets =>
      rw [recast] at run
      split at run
      · cases run
      · next count =>
        obtain ⟨ws, inside, rfl⟩ := map_ok run
        have all := formed_of_recastEach items (Decidable.not_not.mp count).symm inside
        exact ⟨rfl, all.1.symm, all.2⟩
    | _ => cases run
theorem formed_of_recastAll : ∀ (vs : List Value) {target : Ty} {ws : List Value},
    recastAll vs target = .ok ws → (∀ w ∈ ws, w.type = target) ∧ AllWellFormed ws
  | [], target, ws, run => by
    cases run
    exact ⟨nofun, trivial⟩
  | v :: vs, target, ws, run => by
    obtain ⟨w, rest, first, others, rfl⟩ := before_ok run
    obtain ⟨typed, formed⟩ := formed_of_recast v first
    obtain ⟨typedAll, formedAll⟩ := formed_of_recastAll vs others
    exact ⟨List.forall_mem_cons.mpr ⟨typed, typedAll⟩, formed, formedAll⟩
theorem formed_of_recastEach : ∀ (vs : List Value) {targets : List Ty} {ws : List Value},
    vs.length = targets.length → recastEach vs targets = .ok ws →
      ws.map type = targets ∧ AllWellFormed ws
  | [], [], ws, _, run => by
    cases run
    exact ⟨rfl, trivial⟩
  | [], _ :: _, ws, count, run | _ :: _, [], ws, count, run => by simp at count
  | v :: vs, target :: targets, ws, count, run => by
    obtain ⟨w, rest, first, others, rfl⟩ := before_ok run
    obtain ⟨typed, formed⟩ := formed_of_recast v first
    obtain ⟨typedAll, formedAll⟩ := formed_of_recastEach vs (by simpa using count) others
    exact ⟨by rw [List.map_cons, typed, typedAll], formed, formedAll⟩
end

theorem convert_type (v : Value) : v.convert v.type = .ok v := by
  cases v with
  | array element items => rw [type, convert, if_pos rfl]
  | tuple types items => rw [type, convert, if_pos rfl]
  | void | int _ | float _ | bool _ | str _ => rfl

/-- The short cuts change nothing: a well-formed value converts to what it is recast to, or is
    refused with the same fault. What it converts to is well formed and of the wanted type, and
    to convert that once more gives it back. -/
theorem convert_shortcut {v : Value} (formed : v.WellFormed) (target : Ty) :
    v.convert target = v.recast target ∧
      ∀ w, v.convert target = .ok w →
        w.type = target ∧ w.WellFormed ∧ w.convert target = .ok w := by
  have same := convert_eq_recast v target formed
  refine ⟨same, ?_⟩
  intro w run
  rw [same] at run
  obtain ⟨typed, good⟩ := formed_of_recast v run
  refine ⟨typed, good, ?_⟩
  rw [← typed]
  exact convert_type w

/-- `((1, true), [])` converts to `([true, true], [])`, with an empty array of another type. -/
theorem convert_shortcut_nested :
    let v := tupleOf [tupleOf [int 1, bool true], array .float []]
    let target := Ty.tuple [.array .bool, .array .integer]
    let w := tuple [.array .bool, .array .integer]
      [array .bool [bool true, bool true], array .integer []]
    v.WellFormed ∧ v.convert target = .ok w ∧ v.recast target = .ok w ∧
      w.convert target = .ok w := by
  intro v target w
  have inner : (tupleOf [int 1, bool true]).WellFormed := ⟨rfl, wellFormed_int 1, trivial, trivial⟩
  have formed : v.WellFormed := ⟨rfl, inner, ⟨List.forall_mem_nil _, trivial⟩, trivial⟩
  have run : v.convert target = .ok w := rfl
  obtain ⟨same, good⟩ := convert_shortcut formed target
  exact ⟨formed, run, same.symm.trans run, (good w run).2.2⟩

end Value
end TypedLet
