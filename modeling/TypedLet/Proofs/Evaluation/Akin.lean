import TypedLet.Proofs.Scoping.Evaluation

/-
Runs that end in the same way, up to what is named when something is declared twice. That
error names a declaration and points to another one; which ones, depends on the order in
which they are met. All other errors are the same on both sides.
-/
namespace TypedLet

inductive Error.IsRepeat : Error → Prop
  | intro {name : String} {first : Declaration} {span : Option Span} :
      IsRepeat (.typing (.alreadyDeclared name first) span)

/-- The same error, unless it is that something is declared twice. -/
def Error.Akin (e e' : Error) : Prop := e = e' ∨ e.IsRepeat ∧ e'.IsRepeat

def Outcome.Akin (R : Machine → Machine → Prop) : Outcome α → Outcome α → Prop
  | .done a m, .done b m' => a = b ∧ R m m'
  | .failed e m, .failed e' m' => e.Akin e' ∧ R m m'
  | .outOfFuel, .outOfFuel => True
  | _, _ => False

theorem Outcome.Akin.ends {R : Machine → Machine → Prop} {o o' : Outcome α} (akin : o.Akin R o') :
    (∃ a m m', o = .done a m ∧ o' = .done a m' ∧ R m m') ∨
      (∃ e e' m m', o = .failed e m ∧ o' = .failed e' m' ∧ e.Akin e' ∧ R m m') ∨
        (o = .outOfFuel ∧ o' = .outOfFuel) := by
  cases o with
  | done a m =>
    cases o' with
    | done b m' =>
      obtain ⟨rfl, related⟩ := akin
      exact .inl ⟨a, m, m', rfl, rfl, related⟩
    | failed | outOfFuel => cases akin
  | failed e m =>
    cases o' with
    | failed e' m' =>
      obtain ⟨same, related⟩ := akin
      exact .inr (.inl ⟨e, e', m, m', rfl, rfl, same, related⟩)
    | done | outOfFuel => cases akin
  | outOfFuel =>
    cases o' with
    | outOfFuel => exact .inr (.inr ⟨rfl, rfl⟩)
    | done | failed => cases akin

theorem Outcome.Alike.akin {R : Machine → Machine → Prop} {o o' : Outcome α}
    (alike : o.Alike R o') : o.Akin R o' := by
  rcases alike.ends with ⟨a, m, m', rfl, rfl, related⟩ | ⟨e, m, m', rfl, rfl, related⟩ |
    ⟨rfl, rfl⟩
  · exact ⟨rfl, related⟩
  · exact ⟨.inl rfl, related⟩
  · trivial

namespace Outcome.Akin

variable {R R' : Machine → Machine → Prop} {Q Q' : Machine → Prop} {o o' : Outcome α}

theorem refl (o : Outcome α) : o.Akin Eq o := by
  cases o with
  | done a m => exact ⟨rfl, rfl⟩
  | failed e m => exact ⟨.inl rfl, rfl⟩
  | outOfFuel => trivial

theorem mono (akin : o.Akin R o') (weaker : ∀ m m', R m m' → R' m m') : o.Akin R' o' := by
  rcases akin.ends with ⟨a, m, m', rfl, rfl, related⟩ | ⟨e, e', m, m', rfl, rfl, same, related⟩ |
    ⟨rfl, rfl⟩
  · exact ⟨rfl, weaker m m' related⟩
  · exact ⟨same, weaker m m' related⟩
  · trivial

theorem spent_iff (akin : o.Akin R o') : o = .outOfFuel ↔ o' = .outOfFuel := by
  rcases akin.ends with ⟨a, m, m', rfl, rfl, _⟩ | ⟨e, e', m, m', rfl, rfl, _⟩ | ⟨rfl, rfl⟩
  · exact iff_of_false nofun nofun
  · exact iff_of_false nofun nofun
  · exact Iff.rfl

theorem along (akin : o.Akin R o') (holds : o.Holds (fun _ => Q) (fun _ => Q))
    (holds' : o'.Holds (fun _ => Q') (fun _ => Q')) :
    o.Akin (fun m m' => R m m' ∧ Q m ∧ Q' m') o' := by
  rcases akin.ends with ⟨a, m, m', rfl, rfl, related⟩ | ⟨e, e', m, m', rfl, rfl, same, related⟩ |
    ⟨rfl, rfl⟩
  · exact ⟨rfl, related, holds, holds'⟩
  · exact ⟨same, related, holds, holds'⟩
  · trivial

end Outcome.Akin

namespace Eval

variable {R R' : Machine → Machine → Prop}

def Akin (R : Machine → Machine → Prop) (x x' : Eval α) : Prop :=
  ∀ m m', R m m' → (x m).Akin R (x' m')

theorem Agree.akin {x x' : Eval α} (agree : Agree R x x') : Akin R x x' :=
  fun m m' related => (agree m m' related).akin

/-- What ends akin goes on akin. The machines may be related more closely in between than at
    the end. -/
theorem akin_bind_at {x x' : Eval α} {f f' : α → Eval β} {m m' : Machine}
    (run : (x m).Akin R (x' m')) (weaker : ∀ after after', R after after' → R' after after')
    (next : ∀ a after after', x m = .done a after → x' m' = .done a after' → R after after' →
      (f a after).Akin R' (f' a after')) :
    ((x >>= f) m).Akin R' ((x' >>= f') m') := by
  change (Eval.bind x f m).Akin R' (Eval.bind x' f' m')
  unfold Eval.bind
  rcases run.ends with ⟨a, after, after', here, there, related⟩ |
    ⟨e, e', after, after', here, there, same, related⟩ | ⟨here, there⟩
  · rw [here, there]
    exact next a after after' here there related
  · rw [here, there]
    exact ⟨same, weaker after after' related⟩
  · rw [here, there]
    trivial

theorem akin_bind {x x' : Eval α} {f f' : α → Eval β} (first : Akin R x x')
    (next : ∀ a, Akin R (f a) (f' a)) : Akin R (x >>= f) (x' >>= f') :=
  fun m m' related => akin_bind_at (first m m' related) (fun _ _ => id)
    fun a after after' _ _ => next a after after'

theorem akin_pure (a : α) : Akin R (Pure.pure a) (Pure.pure a) := (agree_pure a).akin

theorem akin_ofExcept (r : Except Error α) : Akin R (ofExcept r) (ofExcept r) :=
  (agree_ofExcept r).akin

theorem akin_ofFault (r : Except Fault α) : Akin R (ofFault r) (ofFault r) :=
  (agree_ofFault r).akin

theorem akin_fail (cause : Fault) (span : Option Span) :
    Akin R (fail cause span : Eval α) (fail cause span) :=
  (agree_fail cause span).akin

theorem akin_loop {cond cond' : Eval Bool} {body body' : Eval Unit} (test : Akin R cond cond')
    (round : Akin R body body') (fuel : Nat) :
    Akin R (loop cond body fuel) (loop cond' body' fuel) := by
  induction fuel with
  | zero => intro m m' _; trivial
  | succ fuel ih =>
    have again : ∀ b : Bool, Akin R
        (if b then body >>= fun _ => loop cond body fuel else Pure.pure ())
        (if b then body' >>= fun _ => loop cond' body' fuel else Pure.pure ()) := by
      intro b
      cases b with
      | true => exact akin_bind round fun _ => ih
      | false => exact akin_pure ()
    intro m m' related
    rw [loop_succ, loop_succ]
    exact akin_bind test again m m' related

theorem akin_closing {x x' : Eval α} {f f' : Machine → Except Error Machine} {m m' : Machine}
    (run : (x m).Akin R (x' m'))
    (close : ∀ after after', R after after' →
      ∃ last last', f after = .ok last ∧ f' after' = .ok last' ∧ R' last last') :
    (closing x f m).Akin R' (closing x' f' m') := by
  unfold closing
  rcases run.ends with ⟨a, after, after', here, there, related⟩ |
    ⟨e, e', after, after', here, there, same, related⟩ | ⟨here, there⟩
  · obtain ⟨last, last', closed, closed', related'⟩ := close after after' related
    simp only [here, there, closed, closed']
    exact ⟨rfl, related'⟩
  · obtain ⟨last, last', closed, closed', related'⟩ := close after after' related
    simp only [here, there, closed, closed']
    exact ⟨same, related'⟩
  · rw [here, there]
    trivial

end Eval
end TypedLet
