import TypedLet.Proofs.Resolution.Marks

/-
The evaluator resolves names as the checker did. The checker sees the body of a function
once, under the let that declares it; the evaluator comes to it from any number of calls.
The two meet because a call cuts the stack back to the scopes that the function was
declared under, and these still have the outline that they had for the checker.

The invariant is that of every function in the scopes the checker has listed all lookups
in its body, under the openers of just those scopes.
-/
namespace TypedLet

open Scopes

variable {V : List Visit} {Γ Δ : Scopes Ty} {openers : List Place} {place : Place}

/-- Every function of the scope has been checked at its place, and its lookups are listed. -/
def Known (V : List Visit) (openers : List Place) (s : Scope Ty) (outer : Scopes Ty) : Prop :=
  ∀ i f, s.fns[i]? = some f → ∃ t,
    (Expr.watchFn openers (i :: 1 :: opener openers outer.length) f).Gives V
      (s :: outer) t (s :: outer)

abbrev Stands (V : List Visit) (openers : List Place) (Γ : Scopes Ty) : Prop :=
  Opened (Known V) openers Γ

theorem known_of_bare {s : Scope Ty} (bare : s.fns = []) : Known V openers s Γ := by
  intro i f member
  rw [bare] at member
  cases member

namespace Stands

theorem enter (h : Stands V openers Γ) (place : Place) {s : Scope Ty} (bare : s.fns = []) :
    Stands V (openers ++ [place]) (s :: Γ) := Opened.enter h (known_of_bare bare)

theorem redeclare {s g : Scope Ty} (h : Stands V openers (s :: Γ)) (bare : g.fns = []) :
    Stands V openers (g :: Γ) := h.replace fun _ => known_of_bare bare

theorem letScope (h : Stands V openers Γ) (place : Place) {s : Scope Ty}
    (checks : ∀ i f, s.fns[i]? = some f → ∃ t,
      (Expr.watchFn (openers ++ [place]) (i :: 1 :: place) f).Gives V (s :: Γ) t (s :: Γ)) :
    Stands V (openers ++ [place]) (s :: Γ) := by
  apply Opened.enter h
  rwa [Known, opener_concat h.count]

theorem locateFn (h : Stands V openers Γ) {name : String} {spot : Spot FnDecl}
    (found : Γ.locateFn name = some spot) : ∃ t,
      (Expr.watchFn (openers.take (spot.index + 1)) (spot.node openers 1) spot.item).Gives V
        (Γ.outermost (spot.index + 1)) t (Γ.outermost (spot.index + 1)) := by
  obtain ⟨s, outer, cut, count, _, member⟩ := locateFn_cut found
  have known := h.of_cut cut count spot.number spot.item member
  rwa [count, opener_take, ← cut] at known

end Stands

namespace Expr

open Watched (Gives Listed gives_bind_iff gives_leaves_bind gives_lift_iff gives_look_iff
  gives_inScope gives_pure_iff)

theorem gives_watchAll_cons {index : Nat} {e : Expr} {es : List Expr} {ts : List Ty}
    (h : (watchAll openers place index (e :: es)).Gives V Γ ts Δ) : ∃ t rest,
      (watch openers (index :: place) e).Gives V Γ t Γ ∧
        (watchAll openers place (index + 1) es).Gives V Γ rest Γ := by
  rw [watchAll] at h
  obtain ⟨t, first, next⟩ := gives_leaves_bind (leaves_watch e _ _) h
  obtain ⟨rest, others, _⟩ := gives_leaves_bind (leaves_watchAll es _ _ _) next
  exact ⟨t, rest, first, others⟩

theorem gives_watch_array {items : List Expr} {element : Option Ty} {elementSpan span : Option Span}
    {t : Ty} (h : (watch openers place (array items element elementSpan span)).Gives V Γ t Δ) :
    ∃ ts, (watchAll openers place 0 items).Gives V Γ ts Γ := by
  cases element with
  | some a =>
    rw [watch] at h
    obtain ⟨ts, all, _⟩ := gives_leaves_bind (leaves_watchAll items _ _ _) h
    exact ⟨ts, all⟩
  | none =>
    rw [watch] at h
    obtain ⟨ts, all, _⟩ := gives_leaves_bind (leaves_watchAll items _ _ _) h
    exact ⟨ts, all⟩

theorem listed_of_watchVar {name : String} {span : Option Span} {b : Binding Ty}
    (h : (watchVar openers place name span).Gives V Γ b Δ) :
    ⟨place, Found.ofVar openers (Γ.locateVar name)⟩ ∈ V := by
  obtain ⟨_, _, looked, _⟩ := gives_bind_iff.mp h
  exact (gives_look_iff.mp looked).1

theorem listed_of_watchAssign {name : String} {nameSpan valueSpan : Option Span} {got t : Ty}
    (h : (watchAssign openers place name nameSpan got valueSpan).Gives V Γ t Δ) :
    ⟨place, Found.ofVar openers (Γ.locateVar name)⟩ ∈ V := by
  obtain ⟨_, _, looked, _⟩ := gives_bind_iff.mp h
  exact listed_of_watchVar looked

theorem listed_of_watchCall {name : String} {types : List Ty} {span : Option Span} {t : Ty}
    (h : (watchCall openers place name types span).Gives V Γ t Δ) :
    ⟨place, Found.ofCallee openers (Γ.callee name)⟩ ∈ V := by
  obtain ⟨_, _, looked, _⟩ := gives_bind_iff.mp h
  exact (gives_look_iff.mp looked).1

theorem listed_lift (x : Action Value α) : (Watched.lift x).Listed V Γ := fun _ _ => nofun

theorem listed_watchWrite {name : String} {v : Value}
    (listed : ⟨place, Found.ofVar openers (Γ.locateVar name)⟩ ∈ V) :
    (watchWrite openers place name v).Listed V Γ := by
  intro scopes same
  rw [← foundVar_of_outline same] at listed
  exact List.forall_mem_singleton.mpr listed

theorem listed_watchMatch_var {name : String} {span : Option Span} {v : Value}
    (listed : ⟨place, Found.ofVar openers (Γ.locateVar name)⟩ ∈ V) :
    (watchMatch openers place (var name span) v).Listed V Γ := by
  intro scopes same
  have seen := listed_watchWrite (v := v) listed scopes same
  rw [watchMatch]
  cases run : (watchWrite openers place name v).erase scopes with
  | mk result after =>
    cases result with
    | ok u =>
      rw [Watched.visits_bind_of_ok run, List.forall_mem_append]
      exact ⟨seen, nofun⟩
    | error e =>
      rw [Watched.visits_bind_of_error run]
      exact seen

mutual
theorem listed_watchMatch : ∀ (p : Expr) (v : Value) (place : Place) (t : Ty),
    (watch openers place p).Gives V Γ t Γ → (watchMatch openers place p v).Listed V Γ
  | var name span, v, place, t, gives => by
    rw [watch] at gives
    obtain ⟨_, _, found, _⟩ := gives_bind_iff.mp gives
    exact listed_watchMatch_var (listed_of_watchVar found)
  | literal w span, v, place, t, _ => listed_lift _
  | array parts element elementSpan span, v, place, t, gives => by
    obtain ⟨ts, all⟩ := gives_watch_array gives
    cases v with
    | array a vs =>
      rw [watchMatch]
      split
      · exact listed_watchItems parts vs place 0 ts all
      · exact listed_lift _
    | _ => exact listed_lift _
  | tuple parts span, v, place, t, gives => by
    rw [watch] at gives
    obtain ⟨ts, all, _⟩ := gives_leaves_bind (leaves_watchAll parts _ _ _) gives
    cases v with
    | tuple types vs =>
      rw [watchMatch]
      split
      · exact listed_watchItems parts vs place 0 ts all
      · exact listed_lift _
    | _ => exact listed_lift _
  | group .., _, _, _, _ | letIn .., _, _, _, _ | assign .., _, _, _, _ | matchWith .., _, _, _, _
  | call .., _, _, _, _ | ifElse .., _, _, _, _ | whileDo .., _, _, _, _ | forTo .., _, _, _, _
  | binary .., _, _, _, _ | unary .., _, _, _, _ | cast .., _, _, _, _ => listed_lift _
theorem listed_watchItems : ∀ (ps : List Expr) (vs : List Value) (place : Place)
    (index : Nat) (ts : List Ty), (watchAll openers place index ps).Gives V Γ ts Γ →
      (watchItems openers place index ps vs).Listed V Γ
  | [], vs, place, index, ts, _ => by cases vs <;> exact listed_lift _
  | p :: ps, [], place, index, ts, _ => listed_lift _
  | p :: ps, v :: vs, place, index, ts, gives => by
    obtain ⟨t, rest, first, others⟩ := gives_watchAll_cons gives
    intro scopes same
    have seen := listed_watchMatch p v (index :: place) t first scopes same
    have kept := outline_matchValue p v scopes
    rw [watchItems]
    cases run : (watchMatch openers (index :: place) p v).erase scopes with
    | mk result after =>
      rw [← erase_watchMatch p v openers (index :: place), run] at kept
      cases result with
      | error e =>
        rw [Watched.visits_bind_of_error run]
        exact seen
      | ok matched =>
        rw [Watched.visits_bind_of_ok run, List.forall_mem_append]
        refine ⟨seen, ?_⟩
        cases matched with
        | false => nofun
        | true =>
          exact listed_watchItems ps vs place (index + 1) rest others after
            (kept.trans same)
end

end Expr

namespace Traced

open TypedLet.Expr
open Watched (gives_bind_iff gives_leaves_bind gives_lift_iff)

variable {name : String} {t : Ty}

theorem follows_tryMatch {p : Expr} {v : Value}
    (listed : (watchMatch openers place p v).Listed V Γ) :
    Follows V (tryMatch openers place p v) Γ Γ :=
  follows_undoing (erase_watchMatch p v openers place) listed

theorem follows_read {span : Option Span}
    (listed : ⟨place, Found.ofVar openers (Γ.locateVar name)⟩ ∈ V) :
    Follows V (read openers place name span) Γ Γ := by
  apply follows_bind (follows_lookVar listed)
  intro spot
  cases spot with
  | some spot => exact follows_pure _
  | none => exact follows_keeps (Eval.keeps_fail _ _)

theorem follows_assign {v : Value} (listed : ⟨place, Found.ofVar openers (Γ.locateVar name)⟩ ∈ V) :
    Follows V (assign openers place name v) Γ Γ := by
  apply follows_onScopes (listed_watchWrite listed)
  rw [erase_watchWrite]
  exact Eval.keeps_assign name v

section Parts

variable {eval : List Place → Place → Expr → Traced Value}

def Agrees (V : List Visit) (eval : List Place → Place → Expr → Traced Value) : Prop :=
  ∀ {Γ : Scopes Ty} {openers : List Place} {place : Place} {e : Expr} {t : Ty},
    Stands V openers Γ → (watch openers place e).Gives V Γ t Γ →
      Follows V (eval openers place e) Γ Γ

theorem follows_all (agrees : Agrees V eval) (stands : Stands V openers Γ) {es : List Expr} :
    ∀ {index : Nat} {ts : List Ty}, (watchAll openers place index es).Gives V Γ ts Γ →
      Follows V (all eval openers place index es) Γ Γ := by
  induction es with
  | nil => intro index ts _; exact follows_pure []
  | cons e es ih =>
    intro index ts gives
    obtain ⟨t, rest, first, others⟩ := gives_watchAll_cons gives
    apply follows_bind (agrees stands first)
    intro v
    apply follows_bind (ih others)
    intro vs
    exact follows_pure (v :: vs)

theorem follows_row (agrees : Agrees V eval) (stands : Stands V openers Γ) {es : List Expr}
    {ts : List Ty} (gives : (watchAll openers place 0 es).Gives V Γ ts Γ) :
    Follows V (row eval openers place es) Γ Γ :=
  follows_bind (follows_all agrees stands gives) fun _ => follows_pure _

theorem follows_declareVars (agrees : Agrees V eval) {vars : List VarDecl} :
    ∀ {s : Scope Ty} {index : Nat}, Stands V openers (s :: Γ) → s.fns = [] →
      (watchVars openers place index vars).Gives V (s :: Γ) () Δ →
        Follows V (declareVars eval openers place index vars) (s :: Γ) Δ ∧
          ∃ g, Δ = g :: Γ ∧ g.fns = [] := by
  induction vars with
  | nil =>
    intro s index _ bare gives
    cases (Watched.gives_pure_iff.mp gives).2
    exact ⟨follows_pure (), s, rfl, bare⟩
  | cons d ds ih =>
    intro s index stands bare gives
    obtain ⟨name, value, span⟩ := d
    rw [watchVars] at gives
    obtain ⟨type, first, next⟩ := gives_leaves_bind (leaves_watch value _ _) gives
    obtain ⟨_, Θ, checked, others⟩ := gives_bind_iff.mp next
    have declared := gives_lift_iff.mp checked
    split at declared
    · exact absurd declared reject_ne_ok
    · have run := Action.update_ok_iff.mp declared
      obtain ⟨_, rfl⟩ := declareVar_cons_ok_iff.mp run
      have wider : Stands V openers
          (s.withVar (.var ⟨name, value, span⟩) type :: Γ) := stands.redeclare bare
      obtain ⟨follows, g, rfl, bare'⟩ := ih wider bare others
      refine ⟨?_, g, rfl, bare'⟩
      apply follows_bind (agrees stands first)
      intro v
      exact follows_bind (follows_declare v run) fun _ => follows

theorem gives_watchFns {fns : List FnDecl} : ∀ {index : Nat},
    (watchFns openers place index fns).Gives V Γ () Δ → ∀ i f, fns[i]? = some f →
      ∃ t, (watchFn openers ((index + i) :: place) f).Gives V Γ t Γ := by
  induction fns with
  | nil => nofun
  | cons f fs ih =>
    intro index gives i g member
    rw [watchFns] at gives
    obtain ⟨t, first, others⟩ := gives_leaves_bind (leaves_watchFn f openers _) gives
    cases i with
    | zero =>
      cases member
      exact ⟨t, first⟩
    | succ i =>
      obtain ⟨t, later⟩ := ih others i g member
      refine ⟨t, ?_⟩
      rwa [Nat.add_right_comm] at later

theorem follows_callFn (agrees : Agrees V eval) {f : FnDecl} {depth : Nat} (pos : 0 < depth)
    (le : depth ≤ Γ.length) (stands : Stands V openers Γ) {t : Ty}
    (gives : (watchFn (openers.take depth) place f).Gives V (Γ.outermost depth) t
      (Γ.outermost depth)) (args : List Value) :
    Follows V (callFn eval openers place f args depth) Γ Γ := by
  obtain ⟨name, params, result, body, span⟩ := f
  unfold callFn
  split
  · next count =>
    rw [watchFn] at gives
    obtain ⟨_, _, inside, _⟩ := gives_bind_iff.mp gives
    obtain ⟨last, run⟩ := Watched.gives_inScope inside
    obtain ⟨_, Θ, declared, next⟩ := gives_bind_iff.mp run
    have params' := gives_lift_iff.mp declared
    obtain ⟨vars, rfl⟩ := fns_of_declareArgs params'
    obtain ⟨got, first, _⟩ := gives_leaves_bind (leaves_watch body _ _) next
    have stands' := Stands.enter (stands.outermost le) place (s := ⟨vars, []⟩) rfl
    apply follows_inFrame pos le
    exact follows_bind (follows_declareArgs count params') fun _ => agrees stands' first
  · exact follows_keeps (Eval.keeps_fail _ _)

theorem follows_call (agrees : Agrees V eval) (stands : Stands V openers Γ)
    (listed : ⟨place, Found.ofCallee openers (Γ.callee name)⟩ ∈ V) (args : List Value) :
    Follows V (call eval openers place name args) Γ Γ := by
  apply follows_lookCallee_bind listed
  rw [callee]
  cases found : Γ.locateFn name with
  | some spot =>
    obtain ⟨t, gives⟩ := stands.locateFn found
    exact follows_callFn agrees (Nat.succ_pos _) (index_lt_of_locate found) stands gives args
  | none =>
    cases Builtin.find? name with
    | some b =>
      apply follows_keeps
      apply Eval.keeps_bind (Eval.keeps_ofExcept _)
      intro answer
      exact Eval.keeps_bind (fun _ => rfl) fun _ => Eval.keeps_pure _
    | none => exact follows_keeps (Eval.keeps_ofExcept _)

end Parts

end Traced

namespace Expr

open Traced
open Watched (gives_bind_iff gives_leaves_bind gives_lift_bind gives_lift_iff gives_pure_iff)

section Forms

variable {fuel : Nat} {Γ : Scopes Ty} {openers : List Place} {place : Place} {t : Ty}
  {span : Option Span}

theorem agrees_letIn (agrees : Agrees V (trace fuel)) (stands : Stands V openers Γ)
    {vars : List VarDecl} {fns : List FnDecl} {body : List Expr}
    (gives : (watch openers place (letIn vars fns body span)).Gives V Γ t Γ) :
    Follows V (trace (fuel + 1) openers place (letIn vars fns body span)) Γ Γ := by
  rw [watch] at gives
  obtain ⟨last, run⟩ := Watched.gives_inScope gives
  obtain ⟨_, Θ, checkedVars, next⟩ := gives_bind_iff.mp run
  obtain ⟨_, Λ, declared, next⟩ := gives_bind_iff.mp next
  obtain ⟨varsFollow, g, rfl, bare⟩ :=
    follows_declareVars agrees (stands.enter place rfl) rfl checkedVars
  have fns' := gives_lift_iff.mp declared
  obtain rfl := fns_of_declareFns fns'
  obtain ⟨_, checkedFns, next⟩ := gives_leaves_bind (leaves_watchFns fns _ _ _) next
  obtain ⟨ts, all, _⟩ := gives_leaves_bind (leaves_watchAll body _ _ _) next
  -- The functions were checked on just these scopes, so their lookups are listed.
  have stands' : Stands V (openers ++ [place]) (g.withFns fns :: Γ) := by
    apply stands.letScope place
    rw [Scope.fns_withFns, bare, List.nil_append]
    intro i f member
    have found := gives_watchFns checkedFns i f member
    rwa [Nat.zero_add] at found
  apply follows_inScope
  apply follows_bind varsFollow
  intro _
  apply follows_bind (follows_declareFns fns')
  intro _
  exact follows_row agrees stands' all

theorem listed_of_gives {pattern value : Expr}
    (gives : (watch openers place (matchWith pattern value span)).Gives V Γ t Γ) :
    ∃ s, (watch openers (1 :: place) value).Gives V Γ s Γ ∧
      ∀ v, (watchMatch openers (0 :: place) pattern v).Listed V Γ := by
  by_cases named : ∃ name nameSpan, pattern = var name nameSpan
  · obtain ⟨name, nameSpan, rfl⟩ := named
    rw [watch] at gives
    obtain ⟨_, _, next⟩ := gives_lift_bind (Action.leaves_inspect _) gives
    obtain ⟨got, first, next⟩ := gives_leaves_bind (leaves_watch value _ _) next
    obtain ⟨_, _, target, _⟩ := gives_bind_iff.mp next
    exact ⟨got, first, fun v => listed_watchMatch_var (listed_of_watchAssign target)⟩
  · have other : ∀ name nameSpan, pattern ≠ var name nameSpan := by
      intro name nameSpan same
      exact named ⟨name, nameSpan, same⟩
    rw [watch_matchWith other] at gives
    obtain ⟨_, _, next⟩ := gives_lift_bind (Action.leaves_inspect _) gives
    obtain ⟨expected, first, next⟩ := gives_leaves_bind (leaves_watch pattern _ _) next
    obtain ⟨got, second, _⟩ := gives_leaves_bind (leaves_watch value _ _) next
    exact ⟨got, second, fun v => listed_watchMatch pattern v _ _ first⟩

theorem agrees_matchWith (agrees : Agrees V (trace fuel)) (stands : Stands V openers Γ)
    {pattern value : Expr}
    (gives : (watch openers place (matchWith pattern value span)).Gives V Γ t Γ) :
    Follows V (trace (fuel + 1) openers place (matchWith pattern value span)) Γ Γ := by
  obtain ⟨s, first, listed⟩ := listed_of_gives gives
  apply follows_bind (agrees stands first)
  intro v
  apply follows_bind (follows_tryMatch (listed v))
  intro b
  exact follows_pure _

theorem agrees_forTo (agrees : Agrees V (trace fuel)) (stands : Stands V openers Γ)
    {loop : VarDecl} {goal body : Expr}
    (gives : (watch openers place (forTo loop goal body span)).Gives V Γ t Γ) :
    Follows V (trace (fuel + 1) openers place (forTo loop goal body span)) Γ Γ := by
  obtain ⟨name, start, declSpan⟩ := loop
  rw [watch] at gives
  obtain ⟨_, _, inside, _⟩ := gives_bind_iff.mp gives
  obtain ⟨last, run⟩ := Watched.gives_inScope inside
  have entered : Stands V (openers ++ [place]) (Scope.empty :: Γ) := stands.enter place rfl
  obtain ⟨s, first, next⟩ := gives_leaves_bind (leaves_watch start _ _) run
  obtain ⟨_, _, next⟩ := gives_lift_bind (leaves_requireInteger _ _) next
  obtain ⟨g, second, next⟩ := gives_leaves_bind (leaves_watch goal _ _) next
  obtain ⟨_, _, next⟩ := gives_lift_bind (leaves_requireInteger _ _) next
  obtain ⟨_, Θ, declared, next⟩ := gives_bind_iff.mp next
  have run := Action.update_ok_iff.mp (gives_lift_iff.mp declared)
  obtain ⟨_, rfl⟩ := declareVar_cons_ok_iff.mp run
  obtain ⟨r, third, _⟩ := gives_leaves_bind (leaves_watch body _ _) next
  apply follows_bind _ fun _ => follows_pure _
  apply follows_inScope
  apply follows_bind (agrees entered first)
  intro v
  apply follows_bind (agrees entered second)
  intro bound
  apply follows_bind (follows_declare v run)
  intro _
  apply follows_loop (follows_keeps (Eval.keeps_below _ bound))
  apply follows_bind (agrees (entered.redeclare rfl) third)
  intro _
  exact follows_keeps (Eval.keeps_advance _)

end Forms

theorem agrees_trace (fuel : Nat) : Agrees V (trace fuel) := by
  induction fuel with
  | zero => intro Γ openers place e t _ _ m _; exact ⟨nofun, trivial⟩
  | succ fuel ih =>
    intro Γ openers place e t stands gives
    cases e with
    | literal v span => exact follows_pure v
    | var name span =>
      rw [watch] at gives
      obtain ⟨_, _, found, _⟩ := gives_bind_iff.mp gives
      exact follows_read (listed_of_watchVar found)
    | group body span =>
      rw [watch] at gives
      obtain ⟨ts, all, _⟩ := gives_leaves_bind (leaves_watchAll body _ _ _) gives
      exact follows_row ih stands all
    | letIn vars fns body span => exact agrees_letIn ih stands gives
    | assign name value nameSpan span =>
      rw [watch] at gives
      obtain ⟨got, first, next⟩ := gives_leaves_bind (leaves_watch value _ _) gives
      apply follows_bind (ih stands first)
      intro v
      apply follows_bind (follows_assign (listed_of_watchAssign next))
      intro _
      exact follows_pure v
    | matchWith pattern value span => exact agrees_matchWith ih stands gives
    | call name args span =>
      rw [watch] at gives
      obtain ⟨ts, all, next⟩ := gives_leaves_bind (leaves_watchAll args _ _ _) gives
      apply follows_bind (follows_all ih stands all)
      intro vs
      exact follows_call ih stands (listed_of_watchCall next) vs
    | ifElse cond whenTrue whenFalse span =>
      rw [watch] at gives
      obtain ⟨c, test, next⟩ := gives_leaves_bind (leaves_watch cond _ _) gives
      obtain ⟨_, _, next⟩ := gives_lift_bind (leaves_requireCondition _ _) next
      obtain ⟨a, first, next⟩ := gives_leaves_bind (leaves_watch whenTrue _ _) next
      obtain ⟨b, second, _⟩ := gives_leaves_bind (leaves_watch whenFalse _ _) next
      apply follows_bind (ih stands test)
      intro v
      apply follows_bind (follows_keeps (Eval.keeps_ofFault _))
      intro yes
      cases yes with
      | true => exact ih stands first
      | false => exact ih stands second
    | whileDo cond body span =>
      rw [watch] at gives
      obtain ⟨c, test, next⟩ := gives_leaves_bind (leaves_watch cond _ _) gives
      obtain ⟨_, _, next⟩ := gives_lift_bind (leaves_requireCondition _ _) next
      obtain ⟨s, inside, _⟩ := gives_leaves_bind (leaves_watch body _ _) next
      apply follows_bind _ fun _ => follows_pure _
      apply follows_loop
      · exact follows_bind (ih stands test) fun v => follows_keeps (Eval.keeps_ofFault _)
      · exact follows_bind (ih stands inside) fun _ => follows_pure _
    | forTo loop goal body span => exact agrees_forTo ih stands gives
    | binary left op right span =>
      rw [watch] at gives
      obtain ⟨a, first, next⟩ := gives_leaves_bind (leaves_watch left _ _) gives
      obtain ⟨b, second, _⟩ := gives_leaves_bind (leaves_watch right _ _) next
      apply follows_bind (ih stands first)
      intro v
      apply follows_bind (ih stands second)
      intro w
      exact follows_keeps (Eval.keeps_ofExcept _)
    | unary op operand span =>
      rw [watch] at gives
      obtain ⟨a, first, _⟩ := gives_leaves_bind (leaves_watch operand _ _) gives
      exact follows_bind (ih stands first) fun v => follows_keeps (Eval.keeps_ofExcept _)
    | cast operand target span =>
      rw [watch] at gives
      obtain ⟨a, first, _⟩ := gives_leaves_bind (leaves_watch operand _ _) gives
      exact follows_bind (ih stands first) fun v => follows_keeps (Eval.keeps_ofFault _)
    | array items element elementSpan span =>
      obtain ⟨ts, all⟩ := gives_watch_array gives
      apply follows_bind (follows_all ih stands all)
      intro vs
      apply follows_keeps
      cases element with
      | some t => exact Eval.keeps_pure _
      | none =>
        cases vs with
        | nil => exact Eval.keeps_fail _ _
        | cons v vs => exact Eval.keeps_pure _
    | tuple items span =>
      rw [watch] at gives
      obtain ⟨ts, all, _⟩ := gives_leaves_bind (leaves_watchAll items _ _ _) gives
      exact follows_bind (follows_all ih stands all) fun _ => follows_pure _

end Expr

namespace Tree

theorem gives_watch {tree : Tree} {t : Ty} (accepted : tree.check = .ok t) :
    tree.watch.Gives tree.lookups [] t [] := by
  refine ⟨?_, fun _ member => member⟩
  rw [erase_watch]
  exact Action.ok_of_fst (leaves_infer tree) accepted

theorem follows_trace {tree : Tree} {t : Ty} (accepted : tree.check = .ok t) (fuel : Nat) :
    Traced.Follows tree.lookups (tree.trace fuel) [] [] := by
  have gives := gives_watch accepted
  have stands : Stands tree.lookups [] [] := Opened.nil
  cases tree with
  | expr e => exact Expr.agrees_trace fuel stands gives
  | block body =>
    obtain ⟨ts, all, _⟩ := Watched.gives_leaves_bind (Expr.leaves_watchAll body _ _ _) gives
    exact Traced.follows_row (Expr.agrees_trace fuel) stands all

/-- The checker looks at each occurrence at most once, what it finds is declared in the tree
    where the finding says, and whatever the evaluator looks up of an accepted program, however
    often it comes back to it, the checker has looked up with the same finding. The checker and
    the evaluator that keep these records go on with what they have located, and they are the
    checker and the evaluator. -/
theorem resolution_agrees {tree : Tree} {t : Ty} (accepted : tree.check = .ok t) :
    tree.watch.erase = tree.infer ∧ (∀ fuel, (tree.trace fuel).erase = tree.eval fuel) ∧
    (tree.lookups.map (·.place)).Nodup ∧ (∀ visit ∈ tree.lookups, visit.Points tree.part) ∧
    ∀ fuel, ∀ visit ∈ (tree.trace fuel).visits (Machine.start []),
      visit ∈ tree.lookups ∧ visit.found ≠ .unbound := by
  have marks := marks_watch tree
  have evaluates : ∀ fuel, (tree.trace fuel).erase = tree.eval fuel :=
    fun fuel => erase_trace fuel tree
  refine ⟨erase_watch tree, evaluates, marks.once, marks.points, ?_⟩
  intro fuel visit member
  have listed := (follows_trace accepted fuel (Machine.start []) rfl).1 visit member
  exact ⟨listed, marks.found t [] (gives_watch accepted).1 visit listed⟩

/-- `let var x := 1 function down(n: Integer): Integer :=
    if n < 1 then x else down(n - 1) in let var x := true in down(1) end end` -/
def downUnderShadow : Tree :=
  let down : FnDecl := ⟨"down", [⟨"n", .integer, none⟩], .integer,
    .ifElse (.binary (.var "n" none) .lt (.literal (.int 1) none) none) (.var "x" none)
      (.call "down" [.binary (.var "n" none) .sub (.literal (.int 1) none) none] none) none, none⟩
  .expr (.letIn [⟨"x", .literal (.int 1) none, none⟩] [down]
    [.letIn [⟨"x", .literal (.bool true) none, none⟩] []
      [.call "down" [.literal (.int 1) none] none] none] none)

theorem resolution_agrees_down_under_shadow :
    downUnderShadow.check = .ok .integer ∧
    ((downUnderShadow.trace 9).visits (Machine.start [])).length = 6 ∧
    downUnderShadow.watch.erase = downUnderShadow.infer ∧
    (∀ fuel, (downUnderShadow.trace fuel).erase = downUnderShadow.eval fuel) ∧
    (downUnderShadow.lookups.map (·.place)).Nodup ∧
    (∀ visit ∈ downUnderShadow.lookups, visit.Points downUnderShadow.part) ∧
    ∀ fuel, ∀ visit ∈ (downUnderShadow.trace fuel).visits (Machine.start []),
      visit ∈ downUnderShadow.lookups ∧ visit.found ≠ .unbound := by
  have accepted : downUnderShadow.check = .ok .integer := rfl
  exact ⟨accepted, rfl, resolution_agrees accepted⟩

end Tree
end TypedLet
