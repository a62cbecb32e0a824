import TypedLet.Session
import TypedLet.Proofs.Hosting.Independence
import TypedLet.Proofs.Typing.Soundness

/-
Programs run in a session are typed against nothing and evaluated on top of what the
session has declared. The two agree as long as no function of the session bears the name
of a builtin that the program calls: for such a name the evaluator takes the function,
which the checker has not seen.
-/
namespace TypedLet
namespace Session

open Scopes

/-- What the session has declared makes no difference to an accepted program: it ends in a
    well-formed value of its type or in the division of an integer by zero, if the builtins
    that it calls are still found as builtins. -/
theorem run_typed {s : Session} {tree : Tree} {t : Ty} (formed : tree.LiteralsFormed)
    (accepted : (s.check tree).answer = .ok t) (free : tree.LeavesBuiltins s.scopes) {fuel : Nat}
    {ending : Ending Value} (run : s.run fuel tree = some ending) :
    (∃ v, ending.answer = .ok v ∧ v.type = t ∧ v.WellFormed) ∨
      ending.answer = .error .divisionByZero := by
  have checked : tree.check = .ok t := accepted
  have typed := Tree.runs_eval formed checked fuel (Machine.start []) ⟨rfl, nofun⟩
  rw [Session.run, checked] at run
  unfold evaluate at run
  rcases (Tree.alike_onHost checked free fuel).ends with
    ⟨v, alone, inside, ran, ran', _⟩ | ⟨e, alone, inside, ran, ran', _⟩ | ⟨_, ran'⟩
  · rw [ran] at typed
    rw [ran'] at run
    cases run
    exact .inl ⟨v, rfl, typed.1⟩
  · rw [ran] at typed
    rw [ran'] at run
    cases run
    exact .inr (congrArg Except.error typed)
  · rw [ran'] at run
    cases run

def sameNames : Session :=
  let x := start.enter.after.declare (.var ⟨"x", .literal (.bool true) none, none⟩) (.bool true)
  (x.after.declareFn ⟨"add", [], .bool, .var "x" none, none⟩).after

theorem run_typed_same_names : Tree.printSum.LiteralsFormed ∧
    (sameNames.check Tree.printSum).answer = .ok .void ∧
    Tree.printSum.LeavesBuiltins sameNames.scopes ∧
    ∃ ending, sameNames.run 6 Tree.printSum = some ending ∧ ending.output = "3\n" ∧
      ((∃ v, ending.answer = .ok v ∧ v.type = .void ∧ v.WellFormed) ∨
        ending.answer = .error .divisionByZero) := by
  have formed : Tree.printSum.LiteralsFormed :=
    ⟨⟨Value.wellFormed_int 1, trivial⟩, ⟨⟨trivial, trivial⟩, trivial⟩,
      ⟨⟨Value.wellFormed_int 2, trivial⟩, trivial⟩, trivial⟩
  have accepted : (sameNames.check Tree.printSum).answer = .ok .void := rfl
  have free : Tree.printSum.LeavesBuiltins sameNames.scopes :=
    Tree.leavesBuiltins_of_ordinary Tree.printSum Tree.ordinary_sameNames
  have ran : sameNames.run 6 Tree.printSum = some ⟨.ok .void, "3\n", sameNames⟩ := rfl
  exact ⟨formed, accepted, free, _, ran, rfl, run_typed formed accepted free ran⟩

def callOnes (b : Builtin) : Tree :=
  .expr (.call b.name (List.replicate b.arity (.literal (.int 1) none)) none)

theorem callOnes_accepted (b : Builtin) :
    (callOnes b).LiteralsFormed ∧ ∃ t, (callOnes b).check = .ok t := by
  have one := Value.wellFormed_int 1
  cases b with
  | binary op => exact ⟨⟨one, one, trivial⟩, by cases op <;> exact ⟨_, rfl⟩⟩
  | unary op => exact ⟨⟨one, trivial⟩, by cases op <;> exact ⟨_, rfl⟩⟩
  | print | println => exact ⟨⟨one, trivial⟩, _, rfl⟩

/-- A function that takes the name of a builtin and another number of arguments breaks the
    accepted calls of the builtin. -/
theorem run_callOnes_of_taken {s : Session} {b : Builtin} {f : FnDecl} {depth : Nat}
    (taken : s.scopes.resolveFn b.name = some (f, depth)) (count : b.arity ≠ f.args.length)
    (fuel : Nat) : ∃ ending, s.run (fuel + 2) (callOnes b) = some ending ∧
      ending.answer = .error (.internal (.argumentCount f.name f.args.length b.arity) none) := by
  obtain ⟨_, t, accepted⟩ := callOnes_accepted b
  let m := Machine.start s.scopes
  have ones : Eval.all (Expr.eval (fuel + 1)) (List.replicate b.arity (.literal (.int 1) none)) m =
      .done (List.replicate b.arity (.int 1)) m := by
    cases b <;> rfl
  have fails : (callOnes b).eval (fuel + 2) m =
      .failed (.internal (.argumentCount f.name f.args.length b.arity) none) m := by
    have found : m.scopes.resolveFn b.name = some (f, depth) := taken
    change Eval.bind _ (Eval.call (Expr.eval (fuel + 1)) b.name) m = _
    unfold Eval.bind Eval.call
    rw [ones]
    dsimp only
    rw [found]
    dsimp only
    rw [Eval.callFn, List.length_replicate, if_neg count]
    rfl
  refine ⟨⟨_, m.output, ⟨m.scopes⟩⟩, ?_, rfl⟩
  rw [run, accepted]
  unfold evaluate
  rw [fails]

end Session
end TypedLet
