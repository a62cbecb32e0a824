import TypedLet.Evaluation.Run
import TypedLet.Proofs.Environment.Lookup

/-
What holds at the end of a run, said apart for a result and for an error. Of a
run whose fuel is spent nothing is said. There is one law for each way in which
runs are put together.
-/
namespace TypedLet

def SameStack (m m' : Machine) : Prop := m.scopes = m'.scopes ∧ m.output = m'.output

def Outcome.Holds (done : α → Machine → Prop) (failed : Error → Machine → Prop) :
    Outcome α → Prop
  | .done a m => done a m
  | .failed e m => failed e m
  | .outOfFuel => True

namespace Outcome

variable {D D' : α → Machine → Prop} {F F' : Error → Machine → Prop}

theorem holds_mono {o : Outcome α} (h : o.Holds D F) (done : ∀ a m, D a m → D' a m)
    (failed : ∀ e m, F e m → F' e m) : o.Holds D' F' := by
  cases o with
  | done a m => exact done a m h
  | failed e m => exact failed e m h
  | outOfFuel => trivial

theorem holds_and {o : Outcome α} (h : o.Holds D F) (h' : o.Holds D' F') :
    o.Holds (fun a m => D a m ∧ D' a m) (fun e m => F e m ∧ F' e m) := by
  cases o with
  | done a m => exact ⟨h, h'⟩
  | failed e m => exact ⟨h, h'⟩
  | outOfFuel => trivial

end Outcome

namespace Eval

variable {D : α → Machine → Prop} {D' : β → Machine → Prop} {F : Error → Machine → Prop}
  {m : Machine}

theorem holds_bind {x : Eval α} {f : α → Eval β} (first : (x m).Holds D F)
    (next : ∀ a after, D a after → (f a after).Holds D' F) : ((x >>= f) m).Holds D' F := by
  change (Eval.bind x f m).Holds D' F
  unfold Eval.bind
  cases run : x m with
  | done a after =>
    rw [run] at first
    exact next a after first
  | failed e after =>
    rw [run] at first
    exact first
  | outOfFuel => trivial

theorem bind_of_done {x : Eval α} {f : α → Eval β} {m after : Machine} {a : α}
    (run : x m = .done a after) : (x >>= f) m = f a after := by
  change Eval.bind x f m = _
  unfold Eval.bind
  rw [run]

theorem bind_of_failed {x : Eval α} {f : α → Eval β} {m after : Machine} {e : Error}
    (run : x m = .failed e after) : (x >>= f) m = .failed e after := by
  change Eval.bind x f m = _
  unfold Eval.bind
  rw [run]

theorem bind_of_outOfFuel {x : Eval α} {f : α → Eval β} {m : Machine}
    (run : x m = .outOfFuel) : (x >>= f) m = .outOfFuel := by
  change Eval.bind x f m = _
  unfold Eval.bind
  rw [run]

instance : LawfulMonad Eval :=
  LawfulMonad.mk' Eval
    (by
      intro α x
      funext m
      change Eval.bind x _ m = x m
      unfold Eval.bind
      cases x m <;> rfl)
    (fun _ _ => rfl)
    (by
      intro α β γ x f g
      funext m
      change Eval.bind (Eval.bind x f) g m = Eval.bind x (fun a => Eval.bind (f a) g) m
      unfold Eval.bind
      cases x m <;> rfl)

theorem bind_done_iff {x : Eval α} {f : α → Eval β} {m after : Machine} {b : β} :
    (x >>= f) m = .done b after ↔
      ∃ a middle, x m = .done a middle ∧ f a middle = .done b after := by
  constructor
  · intro run
    cases first : x m with
    | done a middle => exact ⟨a, middle, rfl, (bind_of_done first).symm.trans run⟩
    | failed e middle => cases (bind_of_failed first).symm.trans run
    | outOfFuel => cases (bind_of_outOfFuel first).symm.trans run
  · rintro ⟨a, middle, first, next⟩
    rw [bind_of_done first, next]

theorem holds_ofExcept {x : Except Error α} (ok : ∀ a, x = .ok a → D a m)
    (error : ∀ e, x = .error e → F e m) : (ofExcept x m).Holds D F := by
  cases x with
  | ok a => exact ok a rfl
  | error e => exact error e rfl

theorem holds_ofFault {x : Except Fault α} (ok : ∀ a, x = .ok a → D a m)
    (error : ∀ cause, x = .error cause → F (.internal cause none) m) :
    (ofFault x m).Holds D F := by
  cases x with
  | ok a => exact ok a rfl
  | error cause => exact error cause rfl

theorem holds_onScopes {x : Action Value α} {scopes : Scopes Value} {r : Except Error α}
    (run : x m.scopes = (r, scopes)) (ok : ∀ a, r = .ok a → D a { m with scopes })
    (error : ∀ e, r = .error e → F e { m with scopes }) : (onScopes x m).Holds D F := by
  unfold onScopes
  rw [run]
  cases r with
  | ok a => exact ok a rfl
  | error e => exact error e rfl

theorem holds_update {f : Scopes Value → Except Error (Scopes Value)} {D : Unit → Machine → Prop}
    (ok : ∀ scopes, f m.scopes = .ok scopes → D () { m with scopes })
    (error : ∀ e, f m.scopes = .error e → F e m) : (onScopes (Action.update f) m).Holds D F := by
  unfold onScopes Action.update
  cases run : f m.scopes with
  | ok scopes => exact ok scopes run
  | error e => exact error e run

theorem holds_closing {x : Eval α} {f : Machine → Except Error Machine}
    (run : (x m).Holds (fun a after => ∃ last, f after = .ok last ∧ D a last)
      (fun e after => ∃ last, f after = .ok last ∧ F e last)) :
    (closing x f m).Holds D F := by
  unfold closing
  cases h : x m with
  | done a after =>
    rw [h] at run
    obtain ⟨last, closed, holds⟩ := run
    simp only [closed]
    exact holds
  | failed e after =>
    rw [h] at run
    obtain ⟨last, closed, holds⟩ := run
    simp only [closed]
    exact holds
  | outOfFuel => trivial

theorem holds_inScope {x : Eval α}
    (run : (x { m with scopes := Scope.empty :: m.scopes }).Holds
      (fun a after => ∃ s outer, after.scopes = s :: outer ∧ D a { after with scopes := outer })
      (fun e after => ∃ s outer, after.scopes = s :: outer ∧ F e { after with scopes := outer })) :
    (inScope x m).Holds D F := by
  apply holds_closing
  apply Outcome.holds_mono run
  · rintro a after ⟨s, outer, stack, holds⟩
    exact ⟨_, by rw [stack]; rfl, holds⟩
  · rintro e after ⟨s, outer, stack, holds⟩
    exact ⟨_, by rw [stack]; rfl, holds⟩

theorem holds_inScope_done {x : Eval α}
    (run : (x { m with scopes := Scope.empty :: m.scopes }).Holds
      (fun a after => ∃ s outer, after.scopes = s :: outer ∧ D a { after with scopes := outer })
      (fun _ _ => True)) :
    (inScope x m).Holds D (fun _ _ => True) := by
  unfold inScope closing
  cases h : x { m with scopes := Scope.empty :: m.scopes } with
  | done a after =>
    rw [h] at run
    obtain ⟨s, outer, stack, holds⟩ := run
    simp only [stack]
    exact holds
  | failed e after =>
    dsimp only
    split <;> trivial
  | outOfFuel => trivial

theorem inScope_of_done {x : Eval α} {a : α} {after : Machine} {s : Scope Value}
    {outer : Scopes Value} (run : x { m with scopes := Scope.empty :: m.scopes } = .done a after)
    (stack : after.scopes = s :: outer) :
    inScope x m = .done a { after with scopes := outer } := by
  unfold inScope closing
  simp only [run, stack]
  rfl

theorem inScope_of_failed {x : Eval α} {e : Error} {after : Machine} {s : Scope Value}
    {outer : Scopes Value} (run : x { m with scopes := Scope.empty :: m.scopes } = .failed e after)
    (stack : after.scopes = s :: outer) :
    inScope x m = .failed e { after with scopes := outer } := by
  unfold inScope closing
  simp only [run, stack]
  rfl

theorem inScope_of_outOfFuel {x : Eval α}
    (run : x { m with scopes := Scope.empty :: m.scopes } = .outOfFuel) :
    inScope x m = .outOfFuel := by
  unfold inScope closing
  simp only [run]

theorem read_of_some {name : String} {span : Option Span} {b : Binding Value}
    (found : m.scopes.findVar name = some b) : read name span m = .done b.info m := by
  rw [read, found]

theorem read_of_none {name : String} {span : Option Span} (none : m.scopes.findVar name = none) :
    read name span m = .failed (.internal (.unboundAtRuntime name) span) m := by
  rw [read, none]

theorem assign_of_some {name : String} {v : Value} {scopes : Scopes Value}
    (run : m.scopes.assign? name v = some scopes) :
    assign name v m = .done () { m with scopes } := by
  unfold assign onScopes Expr.assignValue Action.update Scopes.assign
  simp only [run]

theorem assign_of_none {name : String} {v : Value} (run : m.scopes.assign? name v = none) :
    assign name v m = .failed (.internal (.nothingToAssign name) .none) m := by
  unfold assign onScopes Expr.assignValue Action.update Scopes.assign
  simp only [run]

theorem declare_of_free {decl : Declaration} {v : Value} {s : Scope Value} {rest : Scopes Value}
    (stack : m.scopes = s :: rest) (free : s.findVar decl.name = none) :
    declare decl v m = .done () { m with scopes := s.withVar decl v :: rest } := by
  unfold declare onScopes Action.update
  rw [stack, Scopes.declareVar, free]

def afterFrame (m after : Machine) (depth : Nat) : Machine :=
  { after with
    scopes := m.scopes.innermost depth ++ after.scopes.outermost depth
    abandoned := after.abandoned.outermost (max depth m.abandoned.length) }

theorem holds_inFrame {x : Eval α} {depth : Nat} (pos : 0 < depth)
    (fits : depth ≤ m.scopes.length)
    (run : (x { m with scopes := Scope.empty :: m.scopes.outermost depth }).Holds
      (fun a after => D a (afterFrame m after depth))
      (fun e after => F e (afterFrame m after depth))) :
    (inFrame depth x m).Holds D F := by
  unfold inFrame
  rw [Scopes.checkFrame_of_le pos fits]
  apply holds_closing
  apply Outcome.holds_mono run
  · intro a after holds
    exact ⟨_, rfl, holds⟩
  · intro e after holds
    exact ⟨_, rfl, holds⟩

theorem loop_succ (cond : Eval Bool) (body : Eval Unit) (fuel : Nat) (m : Machine) :
    loop cond body (fuel + 1) m =
      (cond >>= fun b => if b then body >>= fun _ => loop cond body fuel else Pure.pure ()) m := by
  change _ = Eval.bind cond _ m
  unfold loop Eval.bind
  cases cond m with
  | done b middle =>
    cases b with
    | true =>
      dsimp only
      change _ = Eval.bind body _ middle
      unfold Eval.bind
      cases body middle <;> rfl
    | false => rfl
  | failed e after => rfl
  | outOfFuel => rfl

/-- What holds before a loop and is kept by each round holds after it. -/
theorem holds_loop {cond : Eval Bool} {body : Eval Unit} {I : Machine → Prop}
    (test : ∀ m, I m → (cond m).Holds (fun _ after => I after) F)
    (round : ∀ m, I m → (body m).Holds (fun _ after => I after) F) :
    ∀ fuel m, I m → (loop cond body fuel m).Holds (fun _ after => I after) F := by
  intro fuel
  induction fuel with
  | zero => intro m _; trivial
  | succ fuel ih =>
    intro m start
    rw [loop_succ]
    apply holds_bind (test m start)
    intro b middle kept
    cases b with
    | true => exact holds_bind (round middle kept) fun _ => ih
    | false => exact kept

/-- What holds before the run holds after it, however it ends. -/
def Maintains (I : Machine → Prop) (x : Eval α) : Prop :=
  ∀ m, I m → (x m).Holds (fun _ after => I after) (fun _ after => I after)

section Maintains

variable {I I' : Machine → Prop}

theorem maintains_pure (a : α) : Maintains I (Pure.pure a : Eval α) := fun _ start => start

theorem maintains_bind {x : Eval α} {f : α → Eval β} (hx : Maintains I x)
    (hf : ∀ a, Maintains I (f a)) : Maintains I (x >>= f) :=
  fun m start => holds_bind (hx m start) fun a middle => hf a middle

theorem maintains_and {x : Eval α} (h : Maintains I x) (h' : Maintains I' x) :
    Maintains (fun m => I m ∧ I' m) x :=
  fun m start => Outcome.holds_and (h m start.1) (h' m start.2)

theorem maintains_ofExcept (x : Except Error α) : Maintains I (ofExcept x) :=
  fun _ start => holds_ofExcept (fun _ _ => start) (fun _ _ => start)

theorem maintains_ofFault (x : Except Fault α) : Maintains I (ofFault x) :=
  fun _ start => holds_ofFault (fun _ _ => start) (fun _ _ => start)

theorem maintains_fail (cause : Fault) (span : Option Span) :
    Maintains I (fail cause span : Eval α) := fun _ start => start

theorem maintains_read (name : String) (span : Option Span) : Maintains I (read name span) := by
  intro m start
  unfold read
  cases m.scopes.findVar name <;> exact start

theorem maintains_below (loop : VarDecl) (goal : Value) : Maintains I (below loop goal) :=
  maintains_bind (maintains_read _ _) fun _ =>
    maintains_bind (maintains_ofExcept _) fun _ => maintains_ofFault _

theorem maintains_loop {cond : Eval Bool} {body : Eval Unit} (test : Maintains I cond)
    (round : Maintains I body) (fuel : Nat) : Maintains I (loop cond body fuel) :=
  holds_loop test round fuel

end Maintains

end Eval
end TypedLet
