import TypedLet.Proofs.Environment.Visible
import TypedLet.Proofs.Evaluation.Lasting
import TypedLet.Proofs.Sharing.Snapshots
import TypedLet.Proofs.Workspace.Lasting

/-
What holds of an environment throughout, and what a refused operation leaves behind. In every
scope each name stands for one declaration. An operation that cannot be carried out is refused
before anything is changed. Main statement: both, for checking and evaluation environments and
whatever led to them, with the conditions under which each operation is refused.
-/
namespace TypedLet

namespace Scopes

section

variable {scopes : Scopes α}

theorem declareVar_refused_iff {decl : Declaration} {info : α} :
    (∃ e, declareVar decl info scopes = .error e) ↔
      ∀ s ∈ scopes.head?, decl.name ∈ s.varNames := by
  cases scopes with
  | nil => exact iff_of_true ⟨_, rfl⟩ nofun
  | cons s outer =>
    rw [declareVar]
    cases found : s.findVar decl.name <;> simp [← Scope.isSome_findVar_iff, found]

theorem declareFn_refused_iff {f : FnDecl} :
    (∃ e, declareFn f scopes = .error e) ↔ ∀ s ∈ scopes.head?, f.name ∈ s.fnNames := by
  cases scopes with
  | nil => exact iff_of_true ⟨_, rfl⟩ nofun
  | cons s outer =>
    rw [declareFn]
    cases found : s.findFn f.name <;> simp [← Scope.isSome_findFn_iff, found]

theorem findVar_eq_none_iff {name : String} :
    findVar name scopes = none ↔ ∀ s ∈ scopes, name ∉ s.varNames := by
  rw [← Option.not_isSome_iff_eq_none, isSome_findVar_iff]
  simp

theorem assign_refused_iff {name : String} {info : α} :
    (∃ e, scopes.assign name info = .error e) ↔ ∀ s ∈ scopes, name ∉ s.varNames := by
  rw [← findVar_eq_none_iff, ← Option.not_isSome_iff_eq_none, ← isSome_assign? scopes name info]
  unfold assign
  cases assign? name info scopes <;> simp

theorem lookupVar_refused_iff {name : String} {span : Option Span} :
    (∃ e, scopes.lookupVar name span = .error e) ↔ ∀ s ∈ scopes, name ∉ s.varNames := by
  rw [← findVar_eq_none_iff]
  unfold lookupVar
  cases findVar name scopes <;> simp

theorem lookupFn_refused_iff {name : String} {span : Option Span} :
    (∃ e, scopes.lookupFn name span = .error e) ↔ ∀ s ∈ scopes, name ∉ s.fnNames := by
  have none : scopes.findFn name = none ↔ ∀ s ∈ scopes, name ∉ s.fnNames := by
    rw [← Option.not_isSome_iff_eq_none, isSome_findFn_iff]
    simp
  rw [← none]
  unfold lookupFn
  cases scopes.findFn name <;> simp

end

end Scopes

namespace Workspace

structure Guarded (w : Workspace ι) (condition : Prop) (r : Ran ι (Reply ι ρ)) : Prop where
  refused : (∃ e, r.answer = .error e) ↔ condition
  unchanged : condition → r.after = w

section

variable {w : Workspace ι} {condition : Prop}

theorem Guarded.of_iff {condition' : Prop} {r : Ran ι (Reply ι ρ)} (guarded : Guarded w condition r)
    (same : condition ↔ condition') : Guarded w condition' r :=
  ⟨guarded.refused.trans same, guarded.unchanged ∘ same.mpr⟩

theorem ok_not_refused (a : α) : ¬∃ e : Error, Except.ok a = Except.error e := by
  rintro ⟨e, ⟨⟩⟩

theorem map_refused_iff {x : Except Error α} {f : α → β} :
    (∃ e, x.map f = .error e) ↔ ∃ e, x = .error e := by
  cases x <;> simp [Except.map]

theorem guarded_quiet {answer : Except Error (Reply ι ρ)}
    (when : (∃ e, answer = .error e) ↔ condition) : Guarded w condition (w.quiet answer) :=
  ⟨when, fun _ => rfl⟩

theorem guarded_changed {change : Except Error (Workspace ι)}
    (when : (∃ e, change = .error e) ↔ condition) :
    Guarded (ρ := ρ) w condition (w.changed change) := by
  cases change with
  | ok after =>
    have carriedOut : ¬condition := fun holds => ok_not_refused after (when.mpr holds)
    exact ⟨iff_of_false (ok_not_refused _) carriedOut, fun holds => absurd holds carriedOut⟩
  | error e => exact ⟨iff_of_true ⟨e, rfl⟩ (when.mp ⟨e, rfl⟩), fun _ => rfl⟩

theorem guarded_failed {x : Action ι Unit} {e : Error} (failed : x w.scopes = (.error e, w.scopes))
    (holds : condition) : Guarded (ρ := ρ) w condition (w.acted x) := by
  unfold acted act
  rw [failed]
  exact ⟨iff_of_true ⟨e, rfl⟩ holds, fun _ => withScopes_scopes w⟩

theorem guarded_update {f : Scopes ι → Except Error (Scopes ι)}
    (when : (∃ e, f w.scopes = .error e) ↔ condition) :
    Guarded (ρ := ρ) w condition (w.acted (Action.update f)) := by
  cases run : f w.scopes with
  | ok after =>
    rw [run] at when
    have carriedOut : ¬condition := fun holds => ok_not_refused after (when.mpr holds)
    have ends : Action.update f w.scopes = (.ok (), after) := by rw [Action.update, run]
    unfold acted act
    rw [ends]
    exact ⟨iff_of_false (ok_not_refused _) carriedOut, fun holds => absurd holds carriedOut⟩
  | error e =>
    have failed : Action.update f w.scopes = (.error e, w.scopes) := by rw [Action.update, run]
    exact guarded_failed failed (when.mp ⟨e, run⟩)

theorem leave_refused_iff : (∃ e, w.leave = .error e) ↔ w.depth = 0 := by
  rw [leave, depth]
  cases w.live with
  | nil => simp
  | cons top outer =>
    dsimp only
    split <;> simp

theorem restore_refused_iff {id : String} :
    (∃ e, w.restore id = .error e) ↔ (w.stored id).length ≠ w.depth := by
  rw [restore]
  by_cases count : (w.stored id).length = w.depth <;> simp [count]

theorem enterFrame_ok_iff {depth : Int} :
    (∃ inner, w.enterFrame depth = .ok inner) ↔ 0 < depth ∧ depth ≤ w.depth := by
  rw [enterFrame, Scopes.checkFrame, length_scopes]
  by_cases fits : 0 < depth ∧ depth ≤ w.depth <;> simp [fits]

theorem run_frame_outside {pass : Pass ι τ ρ} {depth : Int} (body : List (Command ι τ))
    (outside : ¬(0 < depth ∧ depth ≤ w.depth)) :
    run pass w (.frame depth body) =
      some (w.quiet (.ok (.nested [] [] (some (.internal (.frameDepth depth w.depth) none))))) := by
  rw [run, enterFrame, Scopes.checkFrame, length_scopes, if_neg outside]

theorem guarded_typeAssign {w : Workspace Ty} (name : String) (v : Value) :
    Guarded (ρ := ρ) w True (w.acted (typePass.assign name v)) := by
  cases found : w.scopes.findVar name with
  | some b =>
    have failed : typePass.assign name v w.scopes =
        (.error (.internal (.assignedOutsideEvaluation name) none), w.scopes) := by
      simp only [typePass, found]
    exact guarded_failed failed trivial
  | none =>
    have failed : typePass.assign name v w.scopes =
        (.error (.internal (.nothingToAssign name) none), w.scopes) := by
      simp only [typePass, found]
    exact guarded_failed failed trivial

theorem guarded_valueAssign {w : Workspace Value} (fuel : Nat) (name : String) (v : Value) :
    Guarded (ρ := ρ) w (∀ s ∈ w.scopes, name ∉ s.varNames)
      (w.acted ((valuePass fuel).assign name v)) :=
  guarded_update Scopes.assign_refused_iff

end

/-- A command that is one operation: no task, and no list of commands. -/
def Command.Single : Command ι τ → Prop
  | .perform _ | .scope _ | .frame .. => False
  | _ => True

namespace Use

/-- When an operation cannot be carried out: there is no scope to leave or to declare in, the
    name is declared there already, nothing bears the name, as many scopes as are stored are not
    there, or a builtin refuses its arguments. While types are checked, no value is assigned. -/
def Refuses (use : Use) (w : Workspace use.Info) : Command use.Info use.Task → Prop
  | .leave => w.depth = 0
  | .declare decl _ => ∀ s ∈ w.scopes.head?, decl.name ∈ s.varNames
  | .declareFn f => ∀ s ∈ w.scopes.head?, f.name ∈ s.fnNames
  | .assign name _ => use = checking ∨ ∀ s ∈ w.scopes, name ∉ s.varNames
  | .restore id => (w.stored id).length ≠ w.depth
  | .lookup name _ => ∀ s ∈ w.scopes, name ∉ s.varNames
  | .lookupFn name _ => ∀ s ∈ w.scopes, name ∉ s.fnNames
  | .builtin name args => ∃ e, Builtin.callNamed name args = .error e
  | _ => False

theorem guarded_assign (use : Use) (fuel : Nat) (w : Workspace use.Info) (name : String)
    (v : Value) : Guarded (ρ := ρ) w (use.Refuses w (.assign name v))
      (w.acted ((use.passes fuel).assign name v)) := by
  cases use with
  | checking => exact (guarded_typeAssign name v).of_iff (iff_of_true trivial (.inl rfl))
  | evaluation =>
    exact (guarded_valueAssign fuel name v).of_iff (or_iff_right nofun).symm

theorem guarded_run (use : Use) (fuel : Nat) (w : Workspace use.Info)
    (c : Command use.Info use.Task) (single : c.Single) :
    ∃ r, run (use.passes fuel) w c = some r ∧ Guarded w (use.Refuses w c) r := by
  cases c with
  | perform | scope | frame => cases single
  | leave => exact ⟨_, rfl, guarded_changed leave_refused_iff⟩
  | declare decl info => exact ⟨_, rfl, guarded_update Scopes.declareVar_refused_iff⟩
  | declareFn f => exact ⟨_, rfl, guarded_update Scopes.declareFn_refused_iff⟩
  | assign name v => exact ⟨_, rfl, use.guarded_assign fuel w name v⟩
  | restore id => exact ⟨_, rfl, guarded_changed restore_refused_iff⟩
  | lookup name span =>
    exact ⟨_, rfl, guarded_quiet (map_refused_iff.trans Scopes.lookupVar_refused_iff)⟩
  | lookupFn name span =>
    exact ⟨_, rfl, guarded_quiet (map_refused_iff.trans Scopes.lookupFn_refused_iff)⟩
  | builtin name args =>
    rw [run]
    cases called : Builtin.callNamed name args with
    | ok result =>
      exact ⟨_, rfl, iff_of_false (ok_not_refused _) (by simp [Refuses, called]), fun _ => rfl⟩
    | error e => exact ⟨_, rfl, guarded_quiet (iff_of_true ⟨e, rfl⟩ ⟨e, called⟩)⟩
  | enter | snapshot => exact ⟨_, rfl, guarded_changed (iff_of_false (ok_not_refused _) not_false)⟩
  | find | findFn | resolveFn | names =>
    exact ⟨_, rfl, guarded_quiet (iff_of_false (ok_not_refused _) not_false)⟩

end Use

section

variable {P : Scope Value → Prop}

theorem all_task (lasting : Scope.Lasting P) (fuel : Nat) (task : ValueTask) :
    Eval.Maintains (Machine.All P) (task.run fuel) := by
  cases task with
  | eval tree =>
    exact Eval.maintains_bind (tree.all_eval lasting fuel) fun _ => Eval.maintains_pure _
  | tryMatch pattern v =>
    exact Eval.maintains_bind (Eval.all_tryMatch lasting pattern v) fun _ => Eval.maintains_pure _
  | matchOnly pattern v =>
    exact Eval.maintains_bind (Eval.all_matchOnly lasting pattern v) fun _ => Eval.maintains_pure _
  | call decl args depth =>
    exact Eval.maintains_bind (Eval.all_callFn lasting fuel decl args depth)
      fun _ => Eval.maintains_pure _

theorem valuePass_lasts (lasting : Scope.Lasting P) (fuel : Nat) : (valuePass fuel).Lasts P where
  assign name v scopes all :=
    all_update all fun _ run => Scopes.lasts_assign lasting run all
  perform task scopes effect all performed := by
    have kept := all_task lasting fuel task (Machine.start scopes) ⟨all, nofun⟩
    simp only [valuePass] at performed
    cases ran : task.run fuel (Machine.start scopes) with
    | done result m | failed e m =>
      rw [ran] at performed kept
      cases performed
      exact ⟨kept.scopes, kept.abandoned⟩
    | outOfFuel =>
      rw [ran] at performed
      cases performed

theorem typePass_lasts (P : Scope Ty → Prop) : typePass.Lasts P where
  assign name v scopes all := by
    have same : (typePass.assign name v scopes).2 = scopes := by
      simp only [typePass]
      split <;> rfl
    rwa [same]
  perform task scopes effect all performed := by
    cases performed
    refine ⟨?_, nofun⟩
    cases task with
    | check tree => exact (Tree.leaves_infer tree scopes).symm ▸ all
    | checkFn decl => exact (Expr.leaves_checkFn decl scopes).symm ▸ all

end

theorem Use.lasts (use : Use) {P : Scope use.Info → Prop} (lasting : Scope.Lasting P)
    (fuel : Nat) : (use.passes fuel).Lasts P := by
  cases use with
  | checking => exact typePass_lasts P
  | evaluation => exact valuePass_lasts lasting fuel

/-- In an environment for checking or for evaluation, whatever led to it: in every scope, be it
    in use or in store, each name stands for one variable and for one function, which bear it.
    Every single operation is refused exactly when it cannot be carried out, and then everything
    stays as it was. So it is with a frame, which is entered exactly when there are the scopes that
    it asks for. -/
theorem keyed_and_unchanged_when_refused (use : Use) {w : Workspace use.Info}
    {callers : List (Suspended use.Info)} (reached : Reached use.passes w callers) :
    (∀ n, (w.table n).Keyed) ∧
      (∀ scopes ∈ w.allScopes callers, ∀ s ∈ scopes, s.Keyed) ∧
      (∀ fuel c, c.Single → ∃ r, run (use.passes fuel) w c = some r ∧
        ((∃ e, r.answer = .error e) ↔ use.Refuses w c) ∧ (use.Refuses w c → r.after = w)) ∧
      ∀ depth : Int,
        ((∃ inner, w.enterFrame depth = .ok inner) ↔ 0 < depth ∧ depth ≤ w.depth) ∧
        ∀ fuel body, ¬(0 < depth ∧ depth ≤ w.depth) →
          run (use.passes fuel) w (.frame depth body) =
            some ⟨.ok (.nested [] [] (some (.internal (.frameDepth depth w.depth) none))),
              "", w⟩ := by
  have all := all_of_reached Scope.keyed_lasting (use.lasts Scope.keyed_lasting) reached
  have empty := Scope.keyed_lasting.empty (α := use.Info)
  refine ⟨all.table empty, all.allScopes empty, ?_, ?_⟩
  · intro fuel c single
    obtain ⟨r, ran, guarded⟩ := use.guarded_run fuel w c single
    exact ⟨r, ran, guarded.refused, guarded.unchanged⟩
  · intro depth
    exact ⟨enterFrame_ok_iff, fun fuel body outside => run_frame_outside body outside⟩

/-- Where the same scopes were put back in a frame and in its caller, `x` cannot be declared again,
    and no frame can have three scopes. -/
theorem keyed_and_unchanged_put_back_twice :
    let again : Declaration := .var ⟨"x", .literal (.int 1) none, none⟩
    let three : Error := .internal (.frameDepth 3 2) none
    (puttingBackAgain.table 2).Keyed ∧
      (∃ r, run (valuePass 0) puttingBackAgain (.declare again (.int 1)) = some r ∧
        (∃ e, r.answer = .error e) ∧ r.after = puttingBackAgain) ∧
      run (valuePass 0) puttingBackAgain (.frame 3 []) =
        some ⟨.ok (.nested [] [] (some three)), "", puttingBackAgain⟩ := by
  intro again three
  obtain ⟨keyed, _, single, frames⟩ :=
    keyed_and_unchanged_when_refused .evaluation reached_puttingBackAgain
  refine ⟨keyed 2, ?_, (frames 3).2 0 [] (by decide)⟩
  obtain ⟨r, ran, refused, unchanged⟩ := single 0 (.declare again (.int 1)) trivial
  have held : ∀ s ∈ puttingBackAgain.scopes.head?, "x" ∈ s.varNames := by decide
  exact ⟨r, ran, refused.mpr held, unchanged held⟩

end Workspace
end TypedLet
