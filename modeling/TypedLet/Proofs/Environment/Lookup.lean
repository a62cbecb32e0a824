import TypedLet.Environment.Action
import TypedLet.Proofs.Environment.Entries

/-
Where lookups find what they find. A variable or a function found in scopes that
stand on others is found among the upper ones first, and a function brings along
the scope that declares it as the innermost one its body sees.
-/
namespace TypedLet

def Scope.ofVar (decl : VarDecl) (info : α) : Scope α := ⟨[.of (.var decl) info], []⟩

theorem Scope.findVar_ofVar (decl : VarDecl) (a : α) :
    (Scope.ofVar decl a).findVar decl.name = some (.of (.var decl) a) := by
  simp [findVar, ofVar, Declaration.name]

theorem Scope.setVar_ofVar (decl : VarDecl) (a b : α) :
    (Scope.ofVar decl a).setVar decl.name b = Scope.ofVar decl b := by
  simp [setVar, ofVar, Binding.of, Declaration.name]

theorem Scope.findVar_withVar {s : Scope α} {decl : Declaration} (a : α)
    (fresh : s.findVar decl.name = none) (name : String) :
    (s.withVar decl a).findVar name =
      if name = decl.name then some (.of decl a) else s.findVar name := by
  unfold Scope.findVar withVar at *
  rw [List.find?_append]
  split
  · next same => rw [same, fresh]; simp
  · next differ =>
    have other : decl.name ≠ name := fun same => differ same.symm
    simp [other]

namespace Scopes

theorem outermost_all (scopes : Scopes α) : outermost scopes scopes.length = scopes := by
  simp [outermost]

theorem outermost_of_le (s : Scope α) (outer : Scopes α) (depth : Nat)
    (h : depth ≤ outer.length) : outermost (s :: outer) depth = outermost outer depth := by
  have count : (s :: outer).length - depth = outer.length - depth + 1 := by
    rw [List.length_cons]
    omega
  rw [outermost, outermost, count, List.drop_succ_cons]

theorem outermost_append_of_le (inner outer : Scopes α) (depth : Nat)
    (h : depth ≤ outer.length) : outermost (inner ++ outer) depth = outermost outer depth := by
  induction inner with
  | nil => rfl
  | cons s inner ih =>
    have above : depth ≤ (inner ++ outer).length := by
      rw [List.length_append]
      omega
    rw [List.cons_append, outermost_of_le s _ depth above, ih]

theorem innermost_append_of_le (inner outer : Scopes α) (depth : Nat)
    (h : depth ≤ outer.length) :
    innermost (inner ++ outer) depth = inner ++ innermost outer depth := by
  have count : (inner ++ outer).length - depth = inner.length + (outer.length - depth) := by
    rw [List.length_append]
    omega
  rw [innermost, innermost, count, List.take_length_add_append]

theorem outermost_append_add (inner outer : Scopes α) (depth : Nat) :
    outermost (inner ++ outer) (depth + outer.length) = outermost inner depth ++ outer := by
  have count : (inner ++ outer).length - (depth + outer.length) = inner.length - depth := by
    rw [List.length_append]
    omega
  rw [outermost, outermost, count, List.drop_append_of_le_length (Nat.sub_le _ _)]

theorem innermost_append_add (inner outer : Scopes α) (depth : Nat) :
    innermost (inner ++ outer) (depth + outer.length) = innermost inner depth := by
  have count : (inner ++ outer).length - (depth + outer.length) = inner.length - depth := by
    rw [List.length_append]
    omega
  rw [innermost, innermost, count, List.take_append_of_le_length (Nat.sub_le _ _)]

theorem outermost_append_length (inner outer : Scopes α) :
    outermost (inner ++ outer) outer.length = outer := by
  have cut := outermost_append_add inner outer 0
  rwa [Nat.zero_add, outermost, outermost, Nat.sub_zero, List.drop_length, List.nil_append] at cut

theorem innermost_append_length (inner outer : Scopes α) :
    innermost (inner ++ outer) outer.length = inner := by
  have cut := innermost_append_add inner outer 0
  rwa [Nat.zero_add, innermost, innermost, Nat.sub_zero, List.take_length] at cut

theorem findVar_cons (name : String) (s : Scope α) (outer : Scopes α) :
    findVar name (s :: outer) = (s.findVar name).or (findVar name outer) := by
  rw [findVar]
  cases s.findVar name <;> rfl

theorem findVar_ofVar (decl : VarDecl) (a : α) (outer : Scopes α) :
    findVar decl.name (Scope.ofVar decl a :: outer) = some (.of (.var decl) a) := by
  rw [findVar_cons, Scope.findVar_ofVar, Option.some_or]

theorem findVar_append (name : String) (inner outer : Scopes α) :
    findVar name (inner ++ outer) = (findVar name inner).or (findVar name outer) := by
  induction inner with
  | nil => rfl
  | cons s inner ih => rw [List.cons_append, findVar_cons, findVar_cons, ih, Option.or_assoc]

theorem resolveFn_append (name : String) (inner outer : Scopes α) :
    resolveFn name (inner ++ outer) =
      ((resolveFn name inner).map fun r => (r.1, r.2 + outer.length)).or
        (resolveFn name outer) := by
  induction inner with
  | nil => rfl
  | cons s inner ih =>
    rw [List.cons_append, resolveFn, resolveFn, ih]
    cases s.findFn name with
    | none => rfl
    | some f =>
      simp only [Option.map_some, Option.some_or, Option.some.injEq, Prod.mk.injEq, true_and,
        List.length_append]
      omega

theorem findFn_cons (name : String) (s : Scope α) (outer : Scopes α) :
    findFn (s :: outer) name = (s.findFn name).or (findFn outer name) := by
  rw [findFn, findFn, resolveFn]
  cases s.findFn name <;> rfl

theorem findFn_append (name : String) (inner outer : Scopes α) :
    findFn (inner ++ outer) name = (findFn inner name).or (findFn outer name) := by
  induction inner with
  | nil => rfl
  | cons s inner ih => rw [List.cons_append, findFn_cons, findFn_cons, ih, Option.or_assoc]

theorem assign?_append (name : String) (a : α) (inner outer : Scopes α) :
    assign? name a (inner ++ outer) =
      ((assign? name a inner).map (· ++ outer)).or
        ((assign? name a outer).map (inner ++ ·)) := by
  induction inner with
  | nil => simp [assign?]
  | cons s inner ih =>
    rw [List.cons_append, assign?, assign?, ih]
    cases s.findVar name with
    | none => cases assign? name a inner <;> simp [Function.comp_def]
    | some b => rfl

theorem fns_of_assign? {Q : FnDecl → Prop} {name : String} {a : α} :
    ∀ {scopes after : Scopes α}, assign? name a scopes = some after →
      (∀ s ∈ scopes, ∀ f ∈ s.fns, Q f) → ∀ s ∈ after, ∀ f ∈ s.fns, Q f := by
  intro scopes
  induction scopes with
  | nil => intro after run; cases run
  | cons s outer ih =>
    intro after run all
    obtain ⟨first, others⟩ := List.forall_mem_cons.mp all
    rw [assign?] at run
    split at run
    · cases run
      exact List.forall_mem_cons.mpr ⟨first, others⟩
    · obtain ⟨rest, below, rfl⟩ := Option.map_eq_some_iff.mp run
      exact List.forall_mem_cons.mpr ⟨first, ih below others⟩

theorem mem_of_findVar {name : String} {b : Binding α} : ∀ {scopes : Scopes α},
    findVar name scopes = some b → ∃ s ∈ scopes, b ∈ s.vars := by
  intro scopes
  induction scopes with
  | nil => intro found; cases found
  | cons s outer ih =>
    intro found
    rw [findVar] at found
    cases here : s.findVar name with
    | some c =>
      rw [here] at found
      cases found
      exact ⟨s, by simp, List.mem_of_find?_eq_some here⟩
    | none =>
      rw [here] at found
      obtain ⟨t, member, declared⟩ := ih found
      exact ⟨t, List.mem_cons_of_mem s member, declared⟩

theorem declareVar_cons_ok_iff {decl : Declaration} {a : α} {s : Scope α}
    {outer after : Scopes α} :
    declareVar decl a (s :: outer) = .ok after ↔
      s.findVar decl.name = none ∧ after = s.withVar decl a :: outer := by
  rw [declareVar]
  cases s.findVar decl.name with
  | none => simp [eq_comm]
  | some b => simp

theorem declareFn_cons_ok_iff {f : FnDecl} {s : Scope α} {outer after : Scopes α} :
    declareFn f (s :: outer) = .ok after ↔
      s.findFn f.name = none ∧ after = s.withFns [f] :: outer := by
  rw [declareFn]
  cases s.findFn f.name with
  | none => simp [eq_comm]
  | some first => simp

theorem mem_scope_of_resolveFn {name : String} {f : FnDecl} {depth : Nat} :
    ∀ {scopes : Scopes α}, resolveFn name scopes = some (f, depth) →
      ∃ s outer, outermost scopes depth = s :: outer ∧ depth = outer.length + 1 ∧
        s.findFn name = some f := by
  intro scopes
  induction scopes with
  | nil => intro found; simp [resolveFn] at found
  | cons s outer ih =>
    intro found
    rw [resolveFn] at found
    cases here : s.findFn name with
    | some g =>
      simp only [here, Option.some.injEq, Prod.mk.injEq] at found
      obtain ⟨rfl, rfl⟩ := found
      exact ⟨s, outer, outermost_all (s :: outer), rfl, here⟩
    | none =>
      simp only [here] at found
      obtain ⟨t, rest, cut, count, declared⟩ := ih found
      refine ⟨t, rest, ?_, count, declared⟩
      have fits : depth ≤ outer.length := by
        have := congrArg List.length cut
        simp only [outermost, List.length_drop, List.length_cons] at this
        omega
      rw [outermost_of_le s outer depth fits, cut]

theorem mem_of_resolveFn {name : String} {f : FnDecl} {depth : Nat} {scopes : Scopes α}
    (found : resolveFn name scopes = some (f, depth)) :
    ∃ s ∈ scopes, f ∈ s.fns ∧ f.name = name := by
  obtain ⟨s, outer, cut, _, here⟩ := mem_scope_of_resolveFn found
  have first : s ∈ outermost scopes depth := by
    rw [cut]
    exact List.mem_cons_self
  exact ⟨s, List.mem_of_mem_drop first, Scope.mem_of_findFn here, Scope.name_of_findFn here⟩

theorem depth_of_resolveFn {name : String} {f : FnDecl} {depth : Nat} {scopes : Scopes α}
    (found : resolveFn name scopes = some (f, depth)) : 0 < depth ∧ depth ≤ scopes.length := by
  obtain ⟨s, outer, cut, count, _⟩ := mem_scope_of_resolveFn found
  have := congrArg List.length cut
  simp only [outermost, List.length_drop, List.length_cons] at this
  omega

theorem checkFrame_of_le {scopes : Scopes α} {depth : Nat} (pos : 0 < depth)
    (fits : depth ≤ scopes.length) : checkFrame scopes depth = .ok depth := by
  rw [checkFrame, if_pos ⟨by omega, by omega⟩]
  rfl

end Scopes
end TypedLet
