import TypedLet.Proofs.Checking.Patterns
import TypedLet.Proofs.Matching.Effect

/-
Matches that break off. A match can meet a fault after it has assigned some variables: a part
that may not stand in a pattern, an array or a tuple against another kind of value, or a
variable that is not there. Nothing is undone then. What stands to the left of the broken part
has matched, and its variables have taken over their components; all else is as it was. So the
scopes come back as they were only when these variables held the same before.
-/
namespace TypedLet

def Scopes.binds (scopes : Scopes α) (name : String) : Bool := (findVar name scopes).isSome

theorem Scopes.binds_overwrite (new : String → Option α) (scopes : Scopes α) :
    binds (overwrite new scopes) = binds scopes := by
  funext name
  rw [binds, findVar_overwrite, Option.isSome_map]
  rfl

namespace Expr

open Scopes

mutual
/-- Where the variables that `known` tells are there, a match of the value breaks off with the
    error, and the components listed have been taken over before, from left to right. -/
inductive Breaks (known : String → Bool) : Expr → Value → List (String × Value) → Error → Prop
  | unbound {name span v} (absent : known name = false) :
      Breaks known (var name span) v [] (.internal (.nothingToAssign name) none)
  | forbidden {part v} (not : part.mayStand = false) : Breaks known part v [] part.forbiddenError
  | noArray {parts element elementSpan span v} (other : ∀ t items, v ≠ .array t items) :
      Breaks known (array parts element elementSpan span) v []
        (.internal (.arrayPattern v.type) span)
  | noTuple {parts span v} (other : ∀ ts items, v ≠ .tuple ts items) :
      Breaks known (tuple parts span) v [] (.internal (.tuplePattern v.type) span)
  | inArray {parts element elementSpan span t items done e} (count : parts.length = items.length)
      (inside : BreaksAll known parts items done e) :
      Breaks known (array parts element elementSpan span) (.array t items) done e
  | inTuple {parts span ts items done e} (count : parts.length = items.length)
      (inside : BreaksAll known parts items done e) :
      Breaks known (tuple parts span) (.tuple ts items) done e
inductive BreaksAll (known : String → Bool) :
    List Expr → List Value → List (String × Value) → Error → Prop
  | here {p ps v vs done e} (first : Breaks known p v done e) :
      BreaksAll known (p :: ps) (v :: vs) done e
  | later {p ps v vs done e} (shape : p.Shapes v)
      (bound : ∀ c ∈ p.components v, known c.1 = true) (rest : BreaksAll known ps vs done e) :
      BreaksAll known (p :: ps) (v :: vs) (p.components v ++ done) e
end

theorem matchItems_cons_error {p : Expr} {ps : List Expr} {v : Value} {vs : List Value}
    {scopes after : Scopes Value} {e : Error}
    (run : matchItems (p :: ps) (v :: vs) scopes = (.error e, after)) :
    p.matchValue v scopes = (.error e, after) ∨
      ∃ middle, p.matchValue v scopes = (.ok true, middle) ∧
        matchItems ps vs middle = (.error e, after) := by
  change Action.bind (p.matchValue v) _ scopes = _ at run
  unfold Action.bind at run
  cases first : p.matchValue v scopes with
  | mk result middle =>
    rw [first] at run
    cases result with
    | error e' =>
      cases run
      exact .inl rfl
    | ok matched =>
      cases matched with
      | false => cases run
      | true => exact .inr ⟨middle, rfl, run⟩

mutual
/-- A match that ends in an error has broken off, and has overwritten what it had taken over
    by then. -/
theorem breaks_of_matchValue : ∀ (pattern : Expr) (v : Value) {scopes after : Scopes Value}
    {e : Error}, pattern.matchValue v scopes = (.error e, after) →
      ∃ done, Breaks scopes.binds pattern v done e ∧ after = overwrite (rightmost done) scopes
  | var name span, v, scopes, after, e, run => by
    rw [matchValue_var] at run
    cases assigned : assign? name v scopes with
    | some rest =>
      rw [assigned] at run
      cases run
    | none =>
      rw [assigned] at run
      cases run
      -- What cannot be assigned is not there.
      have absent : scopes.binds name = false := by
        rw [binds, ← isSome_assign? scopes name v, assigned]
        rfl
      exact ⟨[], .unbound absent, (overwrite_none scopes).symm⟩
  | literal w span, v, scopes, after, e, run => by cases run
  | array parts element elementSpan span, v, scopes, after, e, run => by
    cases v with
    | array t items =>
      rw [matchValue] at run
      split at run
      · next count =>
        obtain ⟨done, inside, effect⟩ := breaks_of_matchItems parts items run
        exact ⟨done, .inArray count inside, effect⟩
      · cases run
    | _ =>
      cases run
      exact ⟨[], .noArray nofun, (overwrite_none scopes).symm⟩
  | tuple parts span, v, scopes, after, e, run => by
    cases v with
    | tuple ts items =>
      rw [matchValue] at run
      split at run
      · next count =>
        obtain ⟨done, inside, effect⟩ := breaks_of_matchItems parts items run
        exact ⟨done, .inTuple count inside, effect⟩
      · cases run
    | _ =>
      cases run
      exact ⟨[], .noTuple nofun, (overwrite_none scopes).symm⟩
  | group .., v, scopes, after, e, run | letIn .., v, scopes, after, e, run
  | assign .., v, scopes, after, e, run | matchWith .., v, scopes, after, e, run
  | call .., v, scopes, after, e, run | ifElse .., v, scopes, after, e, run
  | whileDo .., v, scopes, after, e, run | forTo .., v, scopes, after, e, run
  | binary .., v, scopes, after, e, run | unary .., v, scopes, after, e, run
  | cast .., v, scopes, after, e, run => by
    cases run
    exact ⟨[], .forbidden rfl, (overwrite_none scopes).symm⟩
theorem breaks_of_matchItems : ∀ (parts : List Expr) (items : List Value)
    {scopes after : Scopes Value} {e : Error}, matchItems parts items scopes = (.error e, after) →
      ∃ done, BreaksAll scopes.binds parts items done e ∧
        after = overwrite (rightmost done) scopes
  | [], items, scopes, after, e, run => by cases items <;> cases run
  | p :: ps, [], scopes, after, e, run => by cases run
  | p :: ps, v :: vs, scopes, after, e, run => by
    rcases matchItems_cons_error run with first | ⟨middle, first, rest⟩
    · obtain ⟨done, broken, effect⟩ := breaks_of_matchValue p v first
      exact ⟨done, .here broken, effect⟩
    · obtain ⟨shape, bound, overwritten⟩ := matched_of_matchValue p v first
      obtain ⟨done, broken, effect⟩ := breaks_of_matchItems ps vs rest
      rw [overwritten, binds_overwrite] at broken
      have joined : rightmost (p.components v ++ done) = fun name =>
          (rightmost done name).or (rightmost (p.components v) name) := by
        funext name
        exact rightmost_append _ _ name
      refine ⟨p.components v ++ done, .later shape bound broken, ?_⟩
      rw [effect, overwritten, overwrite_overwrite, joined]
end

mutual
theorem Breaks.bound {known : String → Bool} : ∀ {p : Expr} {v : Value}
    {done : List (String × Value)} {e : Error}, Breaks known p v done e →
      ∀ c ∈ done, known c.1 = true
  | _, _, _, _, .unbound _ | _, _, _, _, .forbidden _ | _, _, _, _, .noArray _
  | _, _, _, _, .noTuple _ => nofun
  | _, _, _, _, .inArray _ inside | _, _, _, _, .inTuple _ inside => inside.bound
theorem BreaksAll.bound {known : String → Bool} : ∀ {ps : List Expr} {vs : List Value}
    {done : List (String × Value)} {e : Error}, BreaksAll known ps vs done e →
      ∀ c ∈ done, known c.1 = true
  | _, _, _, _, .here first => first.bound
  | _, _, _, _, .later _ bound rest => List.forall_mem_append.mpr ⟨bound, rest.bound⟩
end

end Expr

namespace Workspace

open Scopes

variable {w : Workspace Value} {callers : List (Suspended Value)} {pattern : Expr} {v : Value}

theorem withScopes_scopes (w : Workspace ι) : w.withScopes w.scopes = w := by
  have same : ∀ (ns : List Nat) (tables : List (Scope ι)),
      write ns (ns.map fun n => tables[n]?.getD Scope.empty) tables = tables := by
    intro ns
    induction ns with
    | nil => intro tables; rfl
    | cons n ns ih =>
      intro tables
      have set : tables.set n (tables[n]?.getD Scope.empty) = tables := by
        by_cases inside : n < tables.length
        · rw [List.getElem?_eq_getElem inside, Option.getD_some, List.set_getElem_self]
        · exact List.set_eq_of_length_le (Nat.le_of_not_lt inside)
      rw [List.map_cons, write, set]
      exact ih tables
  have tables : write w.live w.scopes w.tables = w.tables := same w.live w.tables
  rw [withScopes, tables]

theorem after_of_broken {fuel : Nat} {e : Error} {r : Ran Value (Reply Value ValueResult)}
    (ran : run (valuePass fuel) w (.perform (.tryMatch pattern v)) = some r)
    (answer : r.answer = .error e) :
    ∃ done, pattern.Breaks w.scopes.binds v done e ∧
      r.after = w.withScopes (w.scopes.overwrite (Expr.rightmost done)) := by
  rw [run_tryMatch] at ran
  cases matching : pattern.matchValue v w.scopes with
  | mk result tried =>
    rw [matching] at ran
    cases Option.some.inj ran
    cases result with
    | error e' =>
      cases answer
      obtain ⟨done, broken, effect⟩ := Expr.breaks_of_matchValue pattern v matching
      exact ⟨done, broken, congrArg w.withScopes effect⟩
    | ok matched => cases matched <;> cases answer

/-- A match that breaks off does not undo what it has done. It leaves the components of the
    variables to the left of the broken part in the innermost variable of each name, the
    rightmost component where a name has several, and changes nothing else. So the scopes of
    the frame and of its callers are as they were before exactly when these variables held
    these components already. -/
theorem tryMatch_breaking_off (reached : Reached valuePass w callers) {fuel : Nat} {e : Error}
    {r : Ran Value (Reply Value ValueResult)}
    (ran : run (valuePass fuel) w (.perform (.tryMatch pattern v)) = some r)
    (answer : r.answer = .error e) :
    ∃ done, pattern.Breaks w.scopes.binds v done e ∧
      r.after.scopes = w.scopes.overwrite (Expr.rightmost done) ∧
      r.after = w.withScopes (w.scopes.overwrite (Expr.rightmost done)) ∧
      (∀ n, n ∉ w.live → r.after.table n = w.table n) ∧
      (∀ name part, Expr.rightmost done name = some part →
        ∃ b, findVar name w.scopes = some b ∧
          findVar name r.after.scopes = some { b with info := part }) ∧
      (r.after.allScopes callers = w.allScopes callers ↔
        w.scopes.overwrite (Expr.rightmost done) = w.scopes) := by
  obtain ⟨level, settled, _⟩ := settled_of_reached keepsCount_valuePass reached
  obtain ⟨done, broken, after⟩ := after_of_broken ran answer
  have count : (w.scopes.overwrite (Expr.rightmost done)).length = w.depth := by
    rw [length_overwrite, length_scopes]
  have put :=
    scopes_withScopes (nodup_of_stacked settled.live) (bound_of_stacked settled.live) count
  rw [after, put]
  refine ⟨done, broken, rfl, rfl, ?_, ?_, ?_⟩
  · intro n absent
    exact table_withScopes_of_notMem absent
  · intro name part component
    have there := broken.bound _ (Expr.mem_of_rightmost component)
    obtain ⟨b, found⟩ := Option.isSome_iff_exists.mp there
    refine ⟨b, found, ?_⟩
    rw [findVar_overwrite, found, component]
    rfl
  · constructor
    · intro same
      -- The scopes of the frame itself come first.
      have own := congrArg List.head? same
      rw [head?_allScopes, head?_allScopes, put] at own
      exact Option.some.inj own
    · intro same
      rw [same, withScopes_scopes]

def holding : Workspace Value := ⟨[xZero], [0], [], 0, []⟩

theorem reached_holding : Reached valuePass holding [] :=
  reached_runAll 0 [.enter, .declare (.var ⟨"x", .literal (.int 0) none, none⟩) (Value.int 0)]
    .start rfl

/-- The match `(x, []) := (5, 6)` breaks off at the empty array, and 5 stays in `x`. -/
theorem tryMatch_breaking_off_second_item :
    let pattern : Expr := .tuple [.var "x" none, .array [] none none none] none
    let v := Value.tupleOf [.int 5, .int 6]
    ∃ r, run (valuePass 0) holding (.perform (.tryMatch pattern v)) = some r ∧
      r.answer = .error (.internal (.arrayPattern .integer) none) ∧
      r.after.allScopes [] ≠ holding.allScopes [] := by
  intro pattern v
  have ran := run_tryMatch 0 holding pattern v
  obtain ⟨done, _, effect, _, _, _, condition⟩ := tryMatch_breaking_off reached_holding ran rfl
  refine ⟨_, ran, rfl, fun same => ?_⟩
  have unchanged := effect.trans (condition.mp same)
  let read (scopes : Scopes Value) : Option Value := (findVar "x" scopes).map (·.info)
  have equal : some (Value.int 5) = some (Value.int 0) := congrArg read unchanged
  cases equal

end Workspace
end TypedLet
