import TypedLet.Environment.Action

/-
Actions side by side, on scopes that are related. They agree when they come to the same
result, or to errors of which the same is said, and leave related scopes behind.
-/
namespace TypedLet

namespace Action

variable {g : Error → Error} {R : Scopes ι → Scopes ι → Prop}

/-- On related scopes the same answer, up to what `g` forgets of an error, and related
    scopes again. -/
def Agree (g : Error → Error) (R : Scopes ι → Scopes ι → Prop) (x x' : Action ι α) : Prop :=
  ∀ scopes scopes', R scopes scopes' →
    (x scopes).1.mapError g = (x' scopes').1.mapError g ∧ R (x scopes).2 (x' scopes').2

theorem agree_pure (a : α) : Agree g R (Pure.pure a) (Pure.pure a) :=
  fun _ _ related => ⟨rfl, related⟩

theorem agree_fail (e : Error) : Agree g R (fail e : Action ι α) (fail e) :=
  fun _ _ related => ⟨rfl, related⟩

theorem agree_bind {x x' : Action ι α} {f f' : α → Action ι β} (first : Agree g R x x')
    (next : ∀ a, Agree g R (f a) (f' a)) : Agree g R (x >>= f) (x' >>= f') := by
  intro scopes scopes' related
  obtain ⟨same, after⟩ := first scopes scopes' related
  change (Action.bind x f scopes).1.mapError g = (Action.bind x' f' scopes').1.mapError g ∧
    R (Action.bind x f scopes).2 (Action.bind x' f' scopes').2
  unfold Action.bind
  cases run : x scopes with
  | mk result last =>
    cases run' : x' scopes' with
    | mk result' last' =>
      rw [run, run'] at same after
      cases result with
      | ok a =>
        cases result' with
        | ok b =>
          cases same
          exact next a last last' after
        | error e => cases same
      | error e =>
        cases result' with
        | ok b => cases same
        | error e' => exact ⟨congrArg Except.error (Except.error.inj same), after⟩

theorem agree_inspect {f f' : Scopes ι → Except Error α}
    (same : ∀ {scopes scopes'}, R scopes scopes' →
      (f scopes).mapError g = (f' scopes').mapError g) :
    Agree g R (inspect f) (inspect f') :=
  fun _ _ related => ⟨same related, related⟩

theorem agree_update {f f' : Scopes ι → Except Error (Scopes ι)}
    (same : ∀ {scopes scopes'}, R scopes scopes' →
      (∃ e, f scopes = .error e ∧ f' scopes' = .error e) ∨
        ∃ after after', f scopes = .ok after ∧ f' scopes' = .ok after' ∧ R after after') :
    Agree g R (update f) (update f') := by
  intro scopes scopes' related
  unfold update
  rcases same related with ⟨e, run, run'⟩ | ⟨after, after', run, run', kept⟩
  · rw [run, run']
    exact ⟨rfl, related⟩
  · rw [run, run']
    exact ⟨rfl, kept⟩

theorem agree_inScope {R' : Scopes ι → Scopes ι → Prop} {x x' : Action ι α}
    (enter : ∀ {scopes scopes'}, R scopes scopes' →
      R' (Scope.empty :: scopes) (Scope.empty :: scopes'))
    (inside : Agree g R' x x')
    (leave : ∀ {scopes scopes'}, R' scopes scopes' →
      ∃ s s' rest rest', scopes = s :: rest ∧ scopes' = s' :: rest' ∧ R rest rest') :
    Agree g R (inScope x) (inScope x') := by
  intro scopes scopes' related
  obtain ⟨same, after⟩ := inside _ _ (enter related)
  unfold inScope
  cases run : x (Scope.empty :: scopes) with
  | mk result last =>
    cases run' : x' (Scope.empty :: scopes') with
    | mk result' last' =>
      rw [run, run'] at same after
      obtain ⟨s, s', rest, rest', rfl, rfl, below⟩ := leave after
      exact ⟨same, below⟩

end Action
end TypedLet
