import TypedLet.Proofs.Checking.Accept
import TypedLet.Proofs.Evaluation.Outline
import TypedLet.Proofs.Resolution.Evaluation

/-
Runs that make only listed lookups. A check lists its lookups; a run follows the list
when from scopes with the outline that the check started on it makes no other lookup, and
leaves the outline that the check left. There is one law for each way in which checks and
runs are put together.
-/
namespace TypedLet

open Scopes

variable {V : List Visit}

namespace Watched

variable {scopes after : Scopes ι} {place : Place}

theorem visits_bind_of_ok {x : Watched ι α} {f : α → Watched ι β} {a : α}
    (run : x.erase scopes = (.ok a, after)) :
    (x >>= f).visits scopes = x.visits scopes ++ (f a).visits after := by
  have pair : x scopes = ((.ok a, after), x.visits scopes) := Prod.ext run rfl
  change (Watched.bind x f scopes).2 = _
  unfold Watched.bind
  rw [pair]

theorem visits_bind_of_error {x : Watched ι α} {f : α → Watched ι β} {e : Error}
    (run : x.erase scopes = (.error e, after)) : (x >>= f).visits scopes = x.visits scopes := by
  have pair : x scopes = ((.error e, after), x.visits scopes) := Prod.ext run rfl
  change (Watched.bind x f scopes).2 = _
  unfold Watched.bind
  rw [pair]

def Gives (V : List Visit) (x : Watched ι α) (scopes : Scopes ι) (a : α) (after : Scopes ι) :
    Prop := x.erase scopes = (.ok a, after) ∧ ∀ v ∈ x.visits scopes, v ∈ V

theorem gives_lift_iff {x : Action ι α} {a : α} :
    Gives V (lift x) scopes a after ↔ x scopes = (.ok a, after) :=
  ⟨fun h => h.1, fun h => ⟨h, nofun⟩⟩

theorem gives_pure_iff {a b : α} :
    Gives V (Pure.pure a) scopes b after ↔ a = b ∧ after = scopes :=
  gives_lift_iff.trans Action.pure_ok_iff

theorem gives_look_iff {seek : Scopes ι → β} {found : β → Found} {b : β} :
    Gives V (look place seek found) scopes b after ↔
      ⟨place, found (seek scopes)⟩ ∈ V ∧ b = seek scopes ∧ after = scopes := by
  have run : (look place seek found).erase scopes = (.ok b, after) ↔
      b = seek scopes ∧ after = scopes := by
    simp only [erase, look, Prod.mk.injEq, Except.ok.injEq, eq_comm]
  have seen : (∀ v ∈ (look place seek found).visits scopes, v ∈ V) ↔
      ⟨place, found (seek scopes)⟩ ∈ V := List.forall_mem_singleton
  unfold Gives
  rw [run, seen, and_comm]

theorem gives_bind_iff {x : Watched ι α} {f : α → Watched ι β} {b : β} :
    Gives V (x >>= f) scopes b after ↔
      ∃ a middle, Gives V x scopes a middle ∧ Gives V (f a) middle b after := by
  unfold Gives
  rw [erase_bind, Action.bind_ok_iff]
  constructor
  · rintro ⟨⟨a, middle, first, next⟩, seen⟩
    rw [visits_bind_of_ok first, List.forall_mem_append] at seen
    exact ⟨a, middle, ⟨first, seen.1⟩, next, seen.2⟩
  · rintro ⟨a, middle, ⟨first, here⟩, next, later⟩
    refine ⟨⟨a, middle, first, next⟩, ?_⟩
    rw [visits_bind_of_ok first, List.forall_mem_append]
    exact ⟨here, later⟩

theorem gives_leaves_bind {x : Watched ι α} (leaves : Action.Leaves x.erase)
    {f : α → Watched ι β} {b : β} (h : Gives V (x >>= f) scopes b after) :
    ∃ a, Gives V x scopes a scopes ∧ Gives V (f a) scopes b after := by
  obtain ⟨a, middle, first, next⟩ := gives_bind_iff.mp h
  obtain rfl := Action.leaves_ok leaves first.1
  exact ⟨a, first, next⟩

theorem gives_lift_bind {x : Action ι α} (leaves : Action.Leaves x) {f : α → Watched ι β} {b : β}
    (h : Gives V (lift x >>= f) scopes b after) :
    ∃ a, x scopes = (.ok a, scopes) ∧ Gives V (f a) scopes b after := by
  obtain ⟨a, first, next⟩ := gives_leaves_bind (x := lift x) leaves h
  exact ⟨a, gives_lift_iff.mp first, next⟩

theorem gives_inScope {x : Watched ι α} {a : α} (h : Gives V (inScope x) scopes a after) :
    ∃ last, Gives V x (Scope.empty :: scopes) a last := by
  obtain ⟨run, seen⟩ := h
  rw [erase_inScope] at run
  unfold Action.inScope at run
  cases inside : x.erase (Scope.empty :: scopes) with
  | mk result last =>
    rw [inside] at run
    dsimp only at run
    split at run
    · cases run
      exact ⟨last, inside, seen⟩
    · cases run

def Listed (x : Watched Value α) (V : List Visit) (Γ : Scopes Ty) : Prop :=
  ∀ scopes, outline scopes = outline Γ → ∀ v ∈ x.visits scopes, v ∈ V

end Watched

namespace Traced

variable {Γ Δ Θ : Scopes Ty} {place : Place} {openers : List Place} {name : String}

/-- From the outline of the first scopes the run makes only listed lookups, and leaves
    the outline of the second when it gives a result. -/
def Follows (V : List Visit) (x : Traced α) (Γ Δ : Scopes Ty) : Prop := ∀ m,
  outline m.scopes = outline Γ → (∀ v ∈ x.visits m, v ∈ V) ∧
    (x.erase m).Holds (fun _ after => outline after.scopes = outline Δ) (fun _ _ => True)

theorem follows_lift {x : Eval α} (h : ∀ m, outline m.scopes = outline Γ →
    (x m).Holds (fun _ after => outline after.scopes = outline Δ) (fun _ _ => True)) :
    Follows V (lift x) Γ Δ :=
  fun m same => ⟨nofun, h m same⟩

theorem follows_keeps {x : Eval α} (keeps : Eval.Keeps x) : Follows V (lift x) Γ Γ := by
  apply follows_lift
  intro m same
  exact Outcome.holds_mono (keeps m) (fun _ _ kept => kept.trans same) fun _ _ _ => trivial

theorem follows_pure (a : α) : Follows V (Pure.pure a) Γ Γ := follows_keeps (Eval.keeps_pure a)

theorem follows_lookVar (listed : ⟨place, Found.ofVar openers (Γ.locateVar name)⟩ ∈ V) :
    Follows V (look place (locateVar name) (Found.ofVar openers)) Γ Γ := by
  intro m same
  refine ⟨?_, same⟩
  rw [← foundVar_of_outline same] at listed
  exact List.forall_mem_singleton.mpr listed

theorem follows_bind {x : Traced α} {f : α → Traced β} (first : Follows V x Γ Δ)
    (next : ∀ a, Follows V (f a) Δ Θ) : Follows V (x >>= f) Γ Θ := by
  intro m same
  obtain ⟨seen, left⟩ := first m same
  rw [visits_bind, erase_bind, List.forall_mem_append]
  refine ⟨⟨seen, ?_⟩, Eval.holds_bind left fun a after same' => (next a after same').2⟩
  cases run : x.erase m with
  | done a after =>
    rw [run] at left
    exact (next a after left).1
  | failed e after => nofun
  | outOfFuel => nofun

theorem follows_lookCallee_bind {f : Callee → Traced α}
    (listed : ⟨place, Found.ofCallee openers (Γ.callee name)⟩ ∈ V)
    (next : Follows V (f (Γ.callee name)) Γ Δ) :
    Follows V (look place (callee name) (Found.ofCallee openers) >>= f) Γ Δ := by
  intro m same
  have found : m.scopes.callee name = Γ.callee name := callee_of_outline same
  obtain ⟨seen, left⟩ := next m same
  rw [visits_bind, erase_look_bind, List.forall_mem_append]
  simp only [found]
  refine ⟨⟨?_, ?_⟩, left⟩
  · rw [← found] at listed
    exact List.forall_mem_singleton.mpr listed
  · change ∀ v ∈ (f (m.scopes.callee name)).visits m, v ∈ V
    rw [found]
    exact seen

theorem follows_onScopes {x : Watched Value α} (listed : x.Listed V Γ)
    (keeps : Eval.Keeps (Eval.onScopes x.erase)) : Follows V (onScopes x) Γ Γ := by
  intro m same
  rw [visits_onScopes, erase_onScopes]
  refine ⟨listed m.scopes same, ?_⟩
  exact Outcome.holds_mono (keeps m) (fun _ _ kept => kept.trans same) fun _ _ _ => trivial

theorem follows_undoing {p : Expr} {v : Value} {x : Watched Value Bool}
    (matching : x.erase = p.matchValue v) (listed : x.Listed V Γ) :
    Follows V (undoing x) Γ Γ := by
  intro m same
  rw [visits_undoing, erase_undoing matching]
  refine ⟨listed m.scopes same, ?_⟩
  exact Outcome.holds_mono (Eval.keeps_tryMatch p v m) (fun _ _ kept => kept.trans same)
    fun _ _ _ => trivial

theorem follows_inScope {g : Scope Ty} {x : Traced α}
    (run : Follows V x (Scope.empty :: Γ) (g :: Γ)) : Follows V (inScope x) Γ Γ := by
  intro m same
  have entered : outline (Scope.empty :: m.scopes) = outline (Scope.empty :: Γ) :=
    congrArg (Scope.empty :: ·) same
  obtain ⟨seen, left⟩ := run { m with scopes := Scope.empty :: m.scopes } entered
  refine ⟨seen, ?_⟩
  apply Eval.holds_inScope_done
  apply Outcome.holds_mono left _ fun _ _ _ => trivial
  intro a after below
  cases stack : after.scopes with
  | nil => rw [stack] at below; cases below
  | cons s outer =>
    rw [stack] at below
    exact ⟨s, outer, rfl, (List.cons.inj below).2⟩

theorem follows_inFrame {g : Scope Ty} {x : Traced α} {depth : Nat} (pos : 0 < depth)
    (le : depth ≤ Γ.length)
    (run : Follows V x (Scope.empty :: Γ.outermost depth) (g :: Γ.outermost depth)) :
    Follows V (inFrame depth x) Γ Γ := by
  intro m same
  have tall : depth ≤ m.scopes.length := by
    have := length_of_outline same
    omega
  have cut : outline (m.scopes.outermost depth) = outline (Γ.outermost depth) := by
    have := congrArg (outermost · depth) same
    simpa only [outline, outermost_mapInfo] using this
  have above : outline (m.scopes.innermost depth) = outline (Γ.innermost depth) := by
    have := congrArg (innermost · depth) same
    simpa only [outline, innermost_mapInfo] using this
  obtain ⟨seen, left⟩ := run { m with scopes := Scope.empty :: m.scopes.outermost depth }
    (congrArg (Scope.empty :: ·) cut)
  constructor
  · unfold visits inFrame
    rw [checkFrame_of_le pos tall]
    exact seen
  · apply Eval.holds_inFrame pos tall
    apply Outcome.holds_mono left _ fun _ _ _ => trivial
    intro a after below
    cases stack : after.scopes with
    | nil => rw [stack] at below; cases below
    | cons s outer =>
      rw [stack] at below
      have rest : outline outer = outline (Γ.outermost depth) := (List.cons.inj below).2
      have count : outer.length = depth :=
        (length_of_outline rest).trans (length_outermost _ _ le)
      have kept : after.scopes.outermost depth = outer := by
        rw [stack, outermost_of_le s outer depth (by omega), ← count, outermost_all]
      rw [Eval.afterFrame, kept]
      simp only [outline, mapInfo_append] at above rest ⊢
      rw [above, rest, ← mapInfo_append, innermost_append_outermost]

theorem follows_loop {cond : Traced Bool} {body : Traced Unit} (test : Follows V cond Γ Γ)
    (round : Follows V body Γ Γ) (fuel : Nat) : Follows V (loop cond body fuel) Γ Γ := by
  induction fuel with
  | zero => exact fun m same => ⟨nofun, trivial⟩
  | succ fuel ih =>
    rw [loop_succ]
    apply follows_bind test
    intro b
    cases b with
    | true => exact follows_bind round fun _ => ih
    | false => exact follows_pure ()

theorem follows_declare {decl : Declaration} {t : Ty} (v : Value)
    (run : Γ.declareVar decl t = .ok Δ) : Follows V (lift (Eval.declare decl v)) Γ Δ := by
  apply follows_lift
  intro m same
  apply Eval.holds_update _ fun _ _ => trivial
  intro scopes declared
  have left := declareVar_mapInfo (f := fun _ => ()) decl v m.scopes
  have right := declareVar_mapInfo (f := fun _ => ()) decl t Γ
  rw [declared] at left
  rw [run] at right
  change declareVar decl () (outline m.scopes) = .ok (outline scopes) at left
  rw [same] at left
  exact Except.ok.inj (left.symm.trans right)

theorem follows_declareFn {f : FnDecl} (run : Γ.declareFn f = .ok Δ) :
    Follows V (lift (Eval.onScopes (Action.update (declareFn f)))) Γ Δ := by
  apply follows_lift
  intro m same
  apply Eval.holds_update _ fun _ _ => trivial
  intro scopes declared
  have left := declareFn_mapInfo (f := fun _ => ()) f m.scopes
  have right := declareFn_mapInfo (f := fun _ => ()) f Γ
  rw [declared] at left
  rw [run] at right
  change declareFn f (outline m.scopes) = .ok (outline scopes) at left
  rw [same] at left
  exact Except.ok.inj (left.symm.trans right)

theorem follows_lift_bind {x : Eval α} {f : α → Eval β} (first : Follows V (lift x) Γ Δ)
    (next : ∀ a, Follows V (lift (f a)) Δ Θ) : Follows V (lift (x >>= f)) Γ Θ := by
  apply follows_lift
  intro m same
  exact Eval.holds_bind (first m same).2 fun a after same' => (next a after same').2

theorem follows_declareFns {fns : List FnDecl} : ∀ {Γ : Scopes Ty},
    Expr.declareFns fns Γ = (.ok (), Δ) → Follows V (lift (Eval.declareFns fns)) Γ Δ := by
  induction fns with
  | nil =>
    intro Γ run
    cases (Action.pure_ok_iff.mp run).2
    exact follows_pure ()
  | cons f fs ih =>
    intro Γ run
    obtain ⟨Θ, first, others⟩ := Expr.declareFns_cons_ok_iff.mp run
    exact follows_lift_bind (follows_declareFn first) fun _ => ih others

theorem follows_declareArgs {args : List ArgDecl} : ∀ {Γ : Scopes Ty} {vs : List Value},
    vs.length = args.length → Expr.declareArgs args Γ = (.ok (), Δ) →
      Follows V (lift (Eval.declareArgs args vs)) Γ Δ := by
  induction args with
  | nil =>
    intro Γ vs _ run
    cases (Action.pure_ok_iff.mp run).2
    exact follows_pure ()
  | cons a as ih =>
    intro Γ vs count run
    cases vs with
    | nil => cases count
    | cons v vs =>
      obtain ⟨Θ, first, others⟩ := Expr.declareArgs_cons_ok_iff.mp run
      exact follows_lift_bind (follows_declare v first) fun _ => ih (Nat.succ.inj count) others

end Traced
end TypedLet
