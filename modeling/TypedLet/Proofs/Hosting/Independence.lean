import TypedLet.Proofs.Hosting.Runs
import TypedLet.Proofs.Resolution.Agreement
import TypedLet.Proofs.Typing.Signatures

/-
An accepted program is independent of its host. Every name that it looks up it finds among
its own scopes or, when it comes down to a builtin, nowhere in the host; so the run on top
of the host is the run without it, and the host is left as it was.
-/
namespace TypedLet

open Scopes

variable {host : Scopes Value} {n : Nat}

namespace Traced

section Parts

variable {eval : List Place → Place → Expr → Traced Value} {plain : Expr → Eval Value}
  (hosted : ∀ {n : Nat} openers place e, Hosted host (OnHost host n) (eval openers place e))
include hosted

theorem hosted_all (openers : List Place) (place : Place) (es : List Expr) :
    ∀ index, Hosted host (OnHost host n) (all eval openers place index es) := by
  induction es with
  | nil => intro index; exact hosted_pure []
  | cons e es ih =>
    intro index
    apply hosted_bind (hosted openers (index :: place) e)
    intro v
    exact hosted_bind (ih (index + 1)) fun _ => hosted_pure _

theorem hosted_row (openers : List Place) (place : Place) (body : List Expr) :
    Hosted host (OnHost host n) (row eval openers place body) :=
  hosted_bind (hosted_all hosted openers place body 0) fun _ => hosted_pure _

theorem hosted_declareVars (openers : List Place) (place : Place) (vars : List VarDecl) :
    ∀ index, Hosted host (OnHost host (n + 1)) (declareVars eval openers place index vars) := by
  induction vars with
  | nil => intro index; exact hosted_pure ()
  | cons d ds ih =>
    intro index
    apply hosted_bind (hosted openers (0 :: index :: place) d.value)
    intro v
    exact hosted_bind (hosted_lift (Eval.agree_declare _ v)) fun _ => ih (index + 1)

variable (same : ∀ openers place e, (eval openers place e).erase = plain e)
include same

theorem alike_callFn {m m' : Machine} (related : OnHost host n m m') {openers : List Place}
    {place : Place} {f : FnDecl} {args : List Value} {depth : Nat} (pos : 0 < depth)
    (fits : depth ≤ n)
    (own : ∀ v ∈ (callFn eval openers place f args depth).visits m, v.Own host) :
    (Eval.callFn plain f args depth m).Alike (OnHost host n)
      (Eval.callFn plain f args (depth + host.length : Nat) m') := by
  unfold callFn at own
  unfold Eval.callFn
  split at own
  · next count =>
    rw [if_pos count, if_pos count]
    have body : Hosted host (OnHost host (depth + 1)) (do
        lift (Eval.declareArgs f.args args)
        eval (openers.take depth ++ [place]) (1 :: place) f.body) :=
      hosted_bind (hosted_lift (Eval.agree_declareArgs f.args args)) fun _ => hosted _ _ f.body
    have tall : depth ≤ m.scopes.length := by
      rw [related.1.length.1]
      exact fits
    unfold visits inFrame at own
    rw [checkFrame_of_le pos tall] at own
    have run := body { m with scopes := _ } { m' with scopes := _ }
      ⟨(related.1.outermost_above fits).enter, related.2⟩ own
    simp only [erase_bind, erase_lift, same] at run
    exact Eval.alike_inFrame_above related pos fits run
  · next count =>
    rw [if_neg count, if_neg count]
    exact Eval.agree_fail _ _ m m' related

theorem hosted_call (openers : List Place) (place : Place) (name : String) (args : List Value) :
    Hosted host (OnHost host n) (call eval openers place name args) := by
  intro m m' related own
  obtain ⟨scopes', count, output⟩ := onHost_iff.mp related
  obtain ⟨here, later⟩ := List.forall_mem_cons.mp own
  rw [erase_call same]
  unfold Eval.call
  rw [scopes', resolveFn_append, resolveFn_eq_locate]
  cases found : m.scopes.locateFn name with
  | none =>
    rw [resolveFn_of_own here found]
    exact Eval.agree_callBuiltin name args m m' related
  | some spot =>
    have le := index_lt_of_locate found
    rw [count] at le
    change ∀ v ∈ (callCallee eval openers name args (m.scopes.callee name)).visits m, v.Own host
      at later
    rw [callee, found] at later
    exact alike_callFn hosted same related (Nat.succ_pos _) le later

end Parts

end Traced

namespace Expr

open Traced

theorem hosted_trace (fuel : Nat) : ∀ {n : Nat} (openers : List Place) (place : Place) (e : Expr),
    Hosted host (OnHost host n) (trace fuel openers place e) := by
  induction fuel with
  | zero => exact fun _ _ _ _ _ _ _ => trivial
  | succ fuel ih =>
    intro n openers place e
    have same := erase_trace fuel
    cases e with
    | literal v span => exact hosted_pure v
    | var name span => exact hosted_read name span
    | group body span => exact hosted_row ih openers place body
    | letIn vars fns body span =>
      apply hosted_inScope
      apply hosted_bind (hosted_declareVars ih _ _ vars 0)
      intro _
      apply hosted_bind (hosted_lift (Eval.agree_declareFns fun f _ => fnAvoids_none f))
      intro _
      exact hosted_row ih _ _ body
    | assign name value nameSpan span =>
      apply hosted_bind (ih openers (0 :: place) value)
      intro v
      exact hosted_bind (hosted_assign name v) fun _ => hosted_pure v
    | matchWith pattern value span =>
      apply hosted_bind (ih openers (1 :: place) value)
      intro v
      exact hosted_bind (hosted_tryMatch pattern v) fun _ => hosted_pure _
    | call name args span =>
      apply hosted_bind (hosted_all ih openers place args 0)
      intro vs
      exact hosted_call ih same openers place name vs
    | ifElse cond whenTrue whenFalse span =>
      apply hosted_bind (ih openers (0 :: place) cond)
      intro v
      apply hosted_bind (hosted_lift (Eval.agree_ofFault _))
      intro b
      cases b with
      | true => exact ih openers (1 :: place) whenTrue
      | false => exact ih openers (2 :: place) whenFalse
    | whileDo cond body span =>
      apply hosted_bind _ fun _ => hosted_pure _
      apply hosted_loop
      · exact hosted_bind (ih _ _ cond) fun v => hosted_lift (Eval.agree_ofFault _)
      · exact hosted_bind (ih _ _ body) fun _ => hosted_pure _
    | forTo loop goal body span =>
      apply hosted_bind _ fun _ => hosted_pure _
      apply hosted_inScope
      apply hosted_bind (ih _ _ loop.value)
      intro start
      apply hosted_bind (ih _ _ goal)
      intro bound
      apply hosted_declare_bind
      apply hosted_loop (hosted_lift (Eval.agree_below_having loop bound))
      have keeps : Eval.Keeps (trace fuel (openers ++ [place]) (2 :: place) body).erase := by
        rw [same]
        exact keeps_eval fuel body
      exact hosted_bind (hosted_having keeps (ih _ _ body)) fun _ =>
        hosted_lift (Eval.agree_advance_having loop)
    | binary left op right span =>
      apply hosted_bind (ih _ _ left)
      intro v
      exact hosted_bind (ih _ _ right) fun w => hosted_lift (Eval.agree_ofExcept _)
    | unary op operand span =>
      exact hosted_bind (ih _ _ operand) fun v => hosted_lift (Eval.agree_ofExcept _)
    | cast operand target span =>
      exact hosted_bind (ih _ _ operand) fun v => hosted_lift (Eval.agree_ofFault _)
    | array items element elementSpan span =>
      apply hosted_bind (hosted_all ih _ _ items 0)
      intro vs
      cases element with
      | some t => exact hosted_pure _
      | none =>
        cases vs with
        | nil => exact hosted_lift (Eval.agree_fail _ _)
        | cons v vs => exact hosted_pure _
    | tuple items span =>
      exact hosted_bind (hosted_all ih _ _ items 0) fun _ => hosted_pure _

end Expr

namespace Tree

/-- The names of the builtins that the program calls are no functions of the host. -/
def LeavesBuiltins (tree : Tree) (host : Scopes Value) : Prop :=
  ∀ visit ∈ tree.lookups, ∀ b, visit.found = .builtin b → host.resolveFn b.name = none

theorem leavesBuiltins_of_ordinary (tree : Tree)
    (ordinary : ∀ s ∈ host, ∀ f ∈ s.fns, Builtin.find? f.name = none) :
    tree.LeavesBuiltins host := by
  intro visit _ b _
  cases found : host.resolveFn b.name with
  | none => rfl
  | some r =>
    obtain ⟨s, member, declared, named⟩ := mem_of_resolveFn found
    have unknown := ordinary s member r.1 declared
    rw [Builtin.find?_iff.mpr named.symm] at unknown
    cases unknown

theorem alike_onHost {tree : Tree} {t : Ty} (accepted : tree.check = .ok t)
    (free : tree.LeavesBuiltins host) (fuel : Nat) :
    (tree.eval fuel (Machine.start [])).Alike (OnHost host 0)
      (tree.eval fuel (Machine.start host)) := by
  have hosted : Traced.Hosted host (OnHost host 0) (tree.trace fuel) := by
    cases tree with
    | expr e => exact Expr.hosted_trace fuel [] [] e
    | block body => exact Traced.hosted_row (Expr.hosted_trace fuel) [] [] body
  have own : ∀ v ∈ (tree.trace fuel).visits (Machine.start []), v.Own host := by
    intro visit member
    have listed := (follows_trace accepted fuel (Machine.start []) rfl).1 visit member
    have found := (marks_watch tree).found t [] (gives_watch accepted).1 visit listed
    exact ⟨found, free visit listed⟩
  have related : OnHost host 0 (Machine.start []) (Machine.start host) :=
    onHost_iff.mpr ⟨rfl, rfl, rfl⟩
  have run := hosted _ _ related own
  rwa [erase_trace] at run

/-- An accepted program runs on top of scopes that give no builtin's name to a function as it
    runs on none: both runs end with the same value or the same error and the same output, or
    neither ends, and the scopes below are left as they were. -/
theorem independent_of_host {tree : Tree} {t : Ty} (accepted : tree.check = .ok t)
    (ordinary : ∀ s ∈ host, ∀ f ∈ s.fns, Builtin.find? f.name = none) (fuel : Nat) :
    (tree.eval fuel (Machine.start [])).Alike
      (fun alone inside => alone.output = inside.output ∧ inside.scopes = host)
      (tree.eval fuel (Machine.start host)) := by
  apply (alike_onHost accepted (leavesBuiltins_of_ordinary tree ordinary) fuel).mono
  intro alone inside related
  obtain ⟨scopes, bare, output⟩ := onHost_iff.mp related
  obtain none := List.length_eq_zero_iff.mp bare
  exact ⟨output, by rw [scopes, none, List.nil_append]⟩

/-- `let var x := 1 function add(n: Integer): Integer := x := x + n in println(add(2)) end` -/
def printSum : Tree :=
  let add : FnDecl := ⟨"add", [⟨"n", .integer, none⟩], .integer,
    .assign "x" (.binary (.var "x" none) .add (.var "n" none) none) none none, none⟩
  .expr (.letIn [⟨"x", .literal (.int 1) none, none⟩] [add]
    [.call "println" [.call "add" [.literal (.int 2) none] none] none] none)

def sameNames : Scopes Value :=
  let add : FnDecl := ⟨"add", [], .bool, .var "x" none, none⟩
  [⟨[.of (.var ⟨"x", .literal (.bool true) none, none⟩) (.bool true)], [.of add]⟩]

theorem ordinary_sameNames : ∀ s ∈ sameNames, ∀ f ∈ s.fns, Builtin.find? f.name = none := by
  intro s inside f declared
  rw [List.mem_singleton.mp inside] at declared
  rw [List.mem_singleton.mp declared]
  rfl

theorem independent_of_host_same_names : printSum.check = .ok .void ∧
    (∀ s ∈ sameNames, ∀ f ∈ s.fns, Builtin.find? f.name = none) ∧
    (∃ after, printSum.eval 6 (Machine.start sameNames) = .done .void after ∧
      after.output = "3\n") ∧
    ∀ fuel, (printSum.eval fuel (Machine.start [])).Alike
      (fun alone inside => alone.output = inside.output ∧ inside.scopes = sameNames)
      (printSum.eval fuel (Machine.start sameNames)) := by
  have accepted : printSum.check = .ok .void := rfl
  exact ⟨accepted, ordinary_sameNames, ⟨_, rfl, rfl⟩,
    independent_of_host accepted ordinary_sameNames⟩

end Tree
end TypedLet
