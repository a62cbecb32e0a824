import TypedLet.Proofs.Environment.Lookup
import TypedLet.Proofs.Scoping.Names

/-
Two stacks that differ by scopes inserted in the middle. The inserted scopes hold no
functions, and variables of hidden names only; the functions in the scopes above them use
no hidden name. Then every other name stands for the same thing on both stacks. What
differs is the depth of the functions declared above the inserted scopes, which is larger
by their number; that of the functions below is the same, and their bodies may use the
hidden names as they like, for the stack they run on does not reach that far up.
-/
namespace TypedLet

open TypedLet.Expr

namespace Scopes

def Hides (P : String → Prop) (mid : Scopes α) : Prop :=
  ∀ s ∈ mid, s.fns = [] ∧ ∀ b ∈ s.vars, P b.name

/-- The second stack is the first one with `mid` between its `inner` upper scopes and
    the `outer` lower ones. -/
def Inserted (P : String → Prop) (mid : Scopes α) (inner outer : Nat)
    (scopes scopes' : Scopes α) : Prop :=
  ∃ upper lower, scopes = upper ++ lower ∧ scopes' = upper ++ (mid ++ lower) ∧
    upper.length = inner ∧ lower.length = outer ∧ ∀ s ∈ upper, ∀ f ∈ s.fns, FnAvoids P f

variable {P : String → Prop} {mid scopes scopes' after : Scopes α} {inner outer : Nat}
  {name : String}

theorem hides_nil : Hides P ([] : Scopes α) := by
  intro s member
  cases member

theorem findVar_of_hides (hides : Hides P mid) (shown : ¬ P name) : findVar name mid = none := by
  induction mid with
  | nil => rfl
  | cons s rest ih =>
    obtain ⟨⟨_, names⟩, others⟩ := List.forall_mem_cons.mp hides
    have here : s.findVar name = none := by
      apply List.find?_eq_none.mpr
      intro b member named
      have same : b.name = name := by simpa using named
      exact shown (same ▸ names b member)
    rw [findVar, here]
    exact ih others

theorem assign?_of_hides (hides : Hides P mid) (shown : ¬ P name) (a : α) :
    assign? name a mid = none := by
  have none := findVar_of_hides hides shown
  have same := isSome_assign? mid name a
  rw [none] at same
  exact Option.not_isSome_iff_eq_none.mp (by simp [same])

theorem resolveFn_of_hides (hides : Hides P mid) : resolveFn name mid = none := by
  induction mid with
  | nil => rfl
  | cons s rest ih =>
    obtain ⟨⟨bare, _⟩, others⟩ := List.forall_mem_cons.mp hides
    have here : s.findFn name = none := by
      rw [Scope.findFn_eq, bare]
      rfl
    rw [resolveFn, here]
    exact ih others

theorem inserted_none (scopes : Scopes α) :
    Inserted (fun _ => False) [] scopes.length 0 scopes scopes :=
  ⟨scopes, [], by simp, by simp, rfl, rfl, fun _ _ f _ => fnAvoids_none f⟩

theorem eq_of_inserted_none (h : Inserted P [] inner outer scopes scopes') :
    scopes' = scopes := by
  obtain ⟨upper, lower, rfl, rfl, _⟩ := h
  rfl

theorem inserted_here (mid scopes : Scopes α) :
    Inserted P mid 0 scopes.length scopes (mid ++ scopes) :=
  ⟨[], scopes, rfl, rfl, rfl, rfl, nofun⟩

namespace Inserted

theorem length (h : Inserted P mid inner outer scopes scopes') :
    scopes.length = inner + outer ∧ scopes'.length = inner + mid.length + outer := by
  obtain ⟨upper, lower, rfl, rfl, rfl, rfl, _⟩ := h
  simp only [List.length_append, true_and]
  omega

theorem findVar (h : Inserted P mid inner outer scopes scopes') (hides : Hides P mid)
    (shown : ¬ P name) : scopes'.findVar name = scopes.findVar name := by
  obtain ⟨upper, lower, rfl, rfl, _⟩ := h
  rw [findVar_append, findVar_append, findVar_append, findVar_of_hides hides shown]
  rfl

def shift (mid : Scopes α) (outer depth : Nat) : Nat :=
  if depth ≤ outer then depth else depth + mid.length

theorem resolveFn (h : Inserted P mid inner outer scopes scopes') (hides : Hides P mid) :
    scopes'.resolveFn name =
      (scopes.resolveFn name).map fun r => (r.1, shift mid outer r.2) := by
  obtain ⟨upper, lower, rfl, rfl, rfl, rfl, _⟩ := h
  rw [resolveFn_append, resolveFn_append, resolveFn_append, resolveFn_of_hides hides]
  cases found : Scopes.resolveFn name upper with
  | some r =>
    have pos := (depth_of_resolveFn found).1
    have above : ¬ r.2 + List.length lower ≤ List.length lower := by omega
    simp only [Option.map_some, Option.some_or, shift, if_neg above, List.length_append,
      Option.some.injEq, Prod.mk.injEq, true_and]
    omega
  | none =>
    simp only [Option.map_none, Option.none_or]
    cases below : Scopes.resolveFn name lower with
    | none => rfl
    | some r =>
      have fits := (depth_of_resolveFn below).2
      simp only [Option.map_some, shift, if_pos fits]

/-- A function that is declared above the inserted scopes uses no hidden name. -/
theorem avoids_of_resolveFn (h : Inserted P mid inner outer scopes scopes') {f : FnDecl}
    {depth : Nat} (found : scopes.resolveFn name = some (f, depth)) (above : outer < depth) :
    FnAvoids P f := by
  obtain ⟨upper, lower, rfl, rfl, rfl, rfl, avoid⟩ := h
  rw [resolveFn_append] at found
  cases there : Scopes.resolveFn name upper with
  | some r =>
    rw [there] at found
    cases found
    obtain ⟨s, member, declared, _⟩ := mem_of_resolveFn there
    exact avoid s member r.1 declared
  | none =>
    rw [there] at found
    have fits := (depth_of_resolveFn found).2
    omega

theorem uncons (h : Inserted P mid (inner + 1) outer scopes scopes') :
    ∃ s rest rest', scopes = s :: rest ∧ scopes' = s :: rest' ∧
      (∀ f ∈ s.fns, FnAvoids P f) ∧ Inserted P mid inner outer rest rest' := by
  obtain ⟨upper, lower, rfl, rfl, count, rfl, avoid⟩ := h
  cases upper with
  | nil => cases count
  | cons s upper =>
    obtain ⟨here, others⟩ := List.forall_mem_cons.mp avoid
    exact ⟨s, _, _, rfl, rfl, here, upper, lower, rfl, rfl, Nat.succ.inj count, rfl, others⟩

theorem cons {s : Scope α} (h : Inserted P mid inner outer scopes scopes')
    (avoid : ∀ f ∈ s.fns, FnAvoids P f) :
    Inserted P mid (inner + 1) outer (s :: scopes) (s :: scopes') := by
  obtain ⟨upper, lower, rfl, rfl, rfl, rfl, others⟩ := h
  exact ⟨s :: upper, lower, rfl, rfl, rfl, rfl, List.forall_mem_cons.mpr ⟨avoid, others⟩⟩

theorem enter (h : Inserted P mid inner outer scopes scopes') :
    Inserted P mid (inner + 1) outer (Scope.empty :: scopes) (Scope.empty :: scopes') :=
  h.cons nofun

theorem assign? (h : Inserted P mid inner outer scopes scopes') (hides : Hides P mid)
    (shown : ¬ P name) (a : α) :
    (scopes.assign? name a = none ∧ scopes'.assign? name a = none) ∨
      ∃ after after', scopes.assign? name a = some after ∧ scopes'.assign? name a = some after' ∧
        Inserted P mid inner outer after after' := by
  obtain ⟨upper, lower, rfl, rfl, rfl, rfl, avoid⟩ := h
  rw [assign?_append, assign?_append, assign?_append, assign?_of_hides hides shown]
  cases above : Scopes.assign? name a upper with
  | some upper' =>
    refine Or.inr ⟨upper' ++ lower, upper' ++ (mid ++ lower), rfl, rfl, upper', lower, rfl, rfl,
      length_of_assign? name a above, rfl, ?_⟩
    exact fns_of_assign? above avoid
  | none =>
    cases below : Scopes.assign? name a lower with
    | none => exact Or.inl ⟨rfl, rfl⟩
    | some lower' =>
      exact Or.inr ⟨upper ++ lower', upper ++ (mid ++ lower'), rfl, rfl, upper, lower', rfl, rfl,
        rfl, length_of_assign? name a below, avoid⟩

theorem declareVar (h : Inserted P mid (inner + 1) outer scopes scopes') (decl : Declaration)
    (a : α) :
    (∃ e, scopes.declareVar decl a = .error e ∧ scopes'.declareVar decl a = .error e) ∨
      ∃ after after', scopes.declareVar decl a = .ok after ∧
        scopes'.declareVar decl a = .ok after' ∧ Inserted P mid (inner + 1) outer after after' := by
  obtain ⟨s, rest, rest', rfl, rfl, avoid, below⟩ := h.uncons
  rw [Scopes.declareVar, Scopes.declareVar]
  cases s.findVar decl.name with
  | some b => exact Or.inl ⟨_, rfl, rfl⟩
  | none => exact Or.inr ⟨_, _, rfl, rfl, below.cons avoid⟩

theorem declareFn (h : Inserted P mid (inner + 1) outer scopes scopes') {f : FnDecl}
    (avoids : FnAvoids P f) :
    (∃ e, scopes.declareFn f = .error e ∧ scopes'.declareFn f = .error e) ∨
      ∃ after after', scopes.declareFn f = .ok after ∧
        scopes'.declareFn f = .ok after' ∧ Inserted P mid (inner + 1) outer after after' := by
  obtain ⟨s, rest, rest', rfl, rfl, avoid, below⟩ := h.uncons
  rw [Scopes.declareFn, Scopes.declareFn]
  cases s.findFn f.name with
  | some first => exact Or.inl ⟨_, rfl, rfl⟩
  | none =>
    refine Or.inr ⟨_, _, rfl, rfl, below.cons ?_⟩
    exact Scope.forall_fns_withFns.mpr ⟨avoid, List.forall_mem_singleton.mpr avoids⟩

section Frames

variable {depth : Nat}

theorem outermost_below (h : Inserted P mid inner outer scopes scopes') (below : depth ≤ outer) :
    scopes'.outermost depth = scopes.outermost depth := by
  obtain ⟨upper, lower, rfl, rfl, rfl, rfl, _⟩ := h
  have fits : depth ≤ (mid ++ lower).length := by
    rw [List.length_append]
    omega
  rw [outermost_append_of_le upper _ depth fits, outermost_append_of_le mid lower depth below,
    outermost_append_of_le upper lower depth below]

theorem resume_below (h : Inserted P mid inner outer scopes scopes') (below : depth ≤ outer)
    {last : Scopes α} (count : last.length = depth) :
    Inserted P mid inner outer (scopes.innermost depth ++ last)
      (scopes'.innermost depth ++ last) := by
  obtain ⟨upper, lower, rfl, rfl, rfl, rfl, avoid⟩ := h
  have fits : depth ≤ (mid ++ lower).length := by
    rw [List.length_append]
    omega
  refine ⟨upper, lower.innermost depth ++ last, ?_, ?_, rfl, ?_, avoid⟩
  · rw [innermost_append_of_le upper lower depth below, List.append_assoc]
  · rw [innermost_append_of_le upper _ depth fits, innermost_append_of_le mid lower depth below,
      List.append_assoc, List.append_assoc]
  · rw [List.length_append, innermost, List.length_take, count]
    omega

theorem outermost_above (h : Inserted P mid inner outer scopes scopes')
    (fits : depth ≤ inner) :
    Inserted P mid depth outer (scopes.outermost (depth + outer))
      (scopes'.outermost (depth + outer + mid.length)) := by
  obtain ⟨upper, lower, rfl, rfl, rfl, rfl, avoid⟩ := h
  have count : depth + List.length lower + List.length mid = depth + (mid ++ lower).length := by
    rw [List.length_append]
    omega
  refine ⟨upper.outermost depth, lower, outermost_append_add upper lower depth, ?_,
    length_outermost upper depth fits, rfl, ?_⟩
  · rw [count, outermost_append_add]
  · intro s member
    exact avoid s (List.mem_of_mem_drop member)

theorem resume_above (h : Inserted P mid inner outer scopes scopes') (fits : depth ≤ inner)
    {last last' : Scopes α} (h' : Inserted P mid depth outer last last') :
    Inserted P mid inner outer (scopes.innermost (depth + outer) ++ last)
      (scopes'.innermost (depth + outer + mid.length) ++ last') := by
  obtain ⟨upper, lower, rfl, rfl, rfl, rfl, avoid⟩ := h
  obtain ⟨upper', lower', rfl, rfl, rfl, count, avoid'⟩ := h'
  have shifted : List.length upper' + List.length lower + List.length mid =
      List.length upper' + (mid ++ lower).length := by
    rw [List.length_append]
    omega
  refine ⟨upper.innermost upper'.length ++ upper', lower', ?_, ?_, ?_, count, ?_⟩
  · rw [innermost_append_add, List.append_assoc]
  · rw [shifted, innermost_append_add, List.append_assoc]
  · rw [List.length_append, innermost, List.length_take]
    omega
  · intro s member
    rcases List.mem_append.mp member with kept | new
    · exact avoid s (List.mem_of_mem_take kept)
    · exact avoid' s new

end Frames

end Inserted
end Scopes

end TypedLet
