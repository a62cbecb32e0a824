import TypedLet.Pattern.Match
import TypedLet.Proofs.Evaluation.Outline
import TypedLet.Proofs.Matching.Overwrite

/-
What a match comes to. A value that matches has the shape of its pattern, and
the scopes are those from before the match with each variable of the pattern
overwritten by the component at its place. Where a variable stands at several
places, the rightmost counts.
-/
namespace TypedLet
namespace Expr

open Scopes

mutual
/-- A value has the shape of a pattern: the same number of items at each array
    and each tuple, and at each literal an equal value. -/
def Shapes : Expr → Value → Prop
  | var .., _ => True
  | literal w _, v => w.same v = true
  | array parts .., .array _ items => ShapesAll parts items
  | tuple parts _, .tuple _ items => ShapesAll parts items
  | _, _ => False
def ShapesAll : List Expr → List Value → Prop
  | [], [] => True
  | p :: ps, v :: vs => p.Shapes v ∧ ShapesAll ps vs
  | _, _ => False
end

mutual
/-- The variables of a pattern and the components at their places, from left to
    right. -/
def components : Expr → Value → List (String × Value)
  | var name _, v => [(name, v)]
  | array parts .., .array _ items => componentsAll parts items
  | tuple parts _, .tuple _ items => componentsAll parts items
  | _, _ => []
def componentsAll : List Expr → List Value → List (String × Value)
  | p :: ps, v :: vs => p.components v ++ componentsAll ps vs
  | _, _ => []
end

def rightmost : List (String × Value) → String → Option Value
  | [], _ => none
  | (name, v) :: later, other => (rightmost later other).or (Scope.only name v other)

theorem rightmost_append (earlier later : List (String × Value)) (name : String) :
    rightmost (earlier ++ later) name = (rightmost later name).or (rightmost earlier name) := by
  induction earlier with
  | nil => simp [rightmost]
  | cons c rest ih => rw [List.cons_append, rightmost, rightmost, ih, Option.or_assoc]

theorem mem_of_rightmost {cs : List (String × Value)} {name : String} {v : Value}
    (found : rightmost cs name = some v) : (name, v) ∈ cs := by
  induction cs with
  | nil => cases found
  | cons c later ih =>
    rw [rightmost] at found
    cases more : rightmost later name with
    | some w =>
      rw [more] at found
      exact List.mem_cons_of_mem c (ih (more.trans found))
    | none =>
      rw [more, Option.none_or, Scope.only] at found
      split at found
      · next same =>
        cases found
        rw [same]
        exact List.mem_cons_self
      · cases found

structure Matched (pattern : Expr) (v : Value) (scopes after : Scopes Value) : Prop where
  shape : pattern.Shapes v
  bound : ∀ c ∈ pattern.components v, (findVar c.1 scopes).isSome
  effect : after = overwrite (rightmost (pattern.components v)) scopes

structure MatchedAll (parts : List Expr) (items : List Value) (scopes after : Scopes Value) :
    Prop where
  shape : ShapesAll parts items
  bound : ∀ c ∈ componentsAll parts items, (findVar c.1 scopes).isSome
  effect : after = overwrite (rightmost (componentsAll parts items)) scopes

theorem matchedAll_nil (scopes : Scopes Value) : MatchedAll [] [] scopes scopes where
  shape := trivial
  bound := by simp [componentsAll]
  effect := (overwrite_none scopes).symm

theorem matchedAll_cons {p : Expr} {ps : List Expr} {v : Value} {vs : List Value}
    {scopes middle after : Scopes Value} (first : Matched p v scopes middle)
    (rest : MatchedAll ps vs middle after) : MatchedAll (p :: ps) (v :: vs) scopes after where
  shape := ⟨first.shape, rest.shape⟩
  bound := by
    intro c member
    rcases List.mem_append.mp member with here | there
    · exact first.bound c here
    · have later := rest.bound c there
      rwa [first.effect, findVar_overwrite, Option.isSome_map] at later
  effect := by
    have joined : rightmost (componentsAll (p :: ps) (v :: vs)) = fun name =>
        (rightmost (componentsAll ps vs) name).or (rightmost (p.components v) name) := by
      funext name
      exact rightmost_append _ _ name
    rw [rest.effect, first.effect, overwrite_overwrite, joined]

theorem matched_var {name : String} {span : Option Span} {v : Value} {scopes after : Scopes Value}
    (run : (var name span).matchValue v scopes = (.ok true, after)) :
    Matched (var name span) v scopes after := by
  rw [matchValue_var] at run
  cases assigned : assign? name v scopes with
  | none =>
    rw [assigned] at run
    cases run
  | some rest =>
    rw [assigned] at run
    cases run
    have there : (findVar name scopes).isSome := by
      rw [← isSome_assign? scopes name v, assigned]
      rfl
    refine ⟨trivial, ?_, overwrite_of_assign? assigned⟩
    intro c member
    rw [List.mem_singleton.mp member]
    exact there

theorem matchItems_cons_true {p : Expr} {ps : List Expr} {v : Value} {vs : List Value}
    {scopes after : Scopes Value}
    (run : matchItems (p :: ps) (v :: vs) scopes = (.ok true, after)) :
    ∃ middle, p.matchValue v scopes = (.ok true, middle) ∧
      matchItems ps vs middle = (.ok true, after) := by
  change Action.bind (p.matchValue v) _ scopes = _ at run
  unfold Action.bind at run
  cases first : p.matchValue v scopes with
  | mk result middle =>
    rw [first] at run
    cases result with
    | error e => cases run
    | ok matched =>
      cases matched with
      | false => cases run
      | true => exact ⟨middle, rfl, run⟩

mutual
theorem matched_of_matchValue : ∀ (pattern : Expr) (v : Value) {scopes after : Scopes Value},
    pattern.matchValue v scopes = (.ok true, after) → Matched pattern v scopes after
  | var name span, v, scopes, after, run => matched_var run
  | literal w span, v, scopes, after, run => by
    change (Except.ok (w.same v), scopes) = _ at run
    obtain ⟨equal, rfl⟩ := Prod.mk.inj run
    exact ⟨Except.ok.inj equal, by simp [components], (overwrite_none scopes).symm⟩
  | array parts element elementSpan span, v, scopes, after, run => by
    cases v with
    | array type items =>
      rw [matchValue] at run
      split at run
      · next count =>
        obtain ⟨shape, bound, effect⟩ := matched_of_matchItems parts items count run
        exact ⟨shape, bound, effect⟩
      · cases run
    | _ => cases run
  | tuple parts span, v, scopes, after, run => by
    cases v with
    | tuple types items =>
      rw [matchValue] at run
      split at run
      · next count =>
        obtain ⟨shape, bound, effect⟩ := matched_of_matchItems parts items count run
        exact ⟨shape, bound, effect⟩
      · cases run
    | _ => cases run
  | group .., v, scopes, after, run | letIn .., v, scopes, after, run
  | assign .., v, scopes, after, run | matchWith .., v, scopes, after, run
  | call .., v, scopes, after, run | ifElse .., v, scopes, after, run
  | whileDo .., v, scopes, after, run | forTo .., v, scopes, after, run
  | binary .., v, scopes, after, run | unary .., v, scopes, after, run
  | cast .., v, scopes, after, run => by cases run
theorem matched_of_matchItems : ∀ (parts : List Expr) (items : List Value)
    {scopes after : Scopes Value}, parts.length = items.length →
      matchItems parts items scopes = (.ok true, after) → MatchedAll parts items scopes after
  | [], [], scopes, after, count, run => by
    cases run
    exact matchedAll_nil scopes
  | [], v :: vs, scopes, after, count, run => by simp at count
  | p :: ps, [], scopes, after, count, run => by simp at count
  | p :: ps, v :: vs, scopes, after, count, run => by
    obtain ⟨middle, first, rest⟩ := matchItems_cons_true run
    have fewer : ps.length = vs.length := by simpa using count
    exact matchedAll_cons (matched_of_matchValue p v first) (matched_of_matchItems ps vs fewer rest)
end

theorem length_of_shapesAll : ∀ {parts : List Expr} {items : List Value},
    ShapesAll parts items → parts.length = items.length
  | [], [], _ => rfl
  | [], _ :: _, shape => by cases shape
  | _ :: _, [], shape => by cases shape
  | p :: ps, v :: vs, shape => congrArg (· + 1) (length_of_shapesAll shape.2)

theorem matchItems_cons_false {p : Expr} {ps : List Expr} {v : Value} {vs : List Value}
    {scopes after : Scopes Value}
    (run : matchItems (p :: ps) (v :: vs) scopes = (.ok false, after)) :
    p.matchValue v scopes = (.ok false, after) ∨
      ∃ middle, matchItems ps vs middle = (.ok false, after) := by
  change Action.bind (p.matchValue v) _ scopes = _ at run
  unfold Action.bind at run
  cases first : p.matchValue v scopes with
  | mk result middle =>
    rw [first] at run
    cases result with
    | error e => cases run
    | ok matched =>
      cases matched with
      | false =>
        cases run
        exact Or.inl rfl
      | true => exact Or.inr ⟨middle, run⟩

mutual
/-- A match fails only for a value of another shape. -/
theorem not_shapes_of_matchValue : ∀ (pattern : Expr) (v : Value) {scopes after : Scopes Value},
    pattern.matchValue v scopes = (.ok false, after) → ¬ pattern.Shapes v
  | var name span, v, scopes, after, run => by
    rw [matchValue_var] at run
    cases assigned : assign? name v scopes with
    | none => rw [assigned] at run; cases run
    | some rest => rw [assigned] at run; cases run
  | literal w span, v, scopes, after, run => by
    change (Except.ok (w.same v), scopes) = _ at run
    obtain ⟨unequal, _⟩ := Prod.mk.inj run
    rw [Shapes, Except.ok.inj unequal]
    nofun
  | array parts element elementSpan span, v, scopes, after, run => by
    cases v with
    | array type items =>
      rw [matchValue] at run
      split at run
      · exact not_shapes_of_matchItems parts items run
      · next count => exact fun shape => count (length_of_shapesAll shape)
    | _ => cases run
  | tuple parts span, v, scopes, after, run => by
    cases v with
    | tuple types items =>
      rw [matchValue] at run
      split at run
      · exact not_shapes_of_matchItems parts items run
      · next count => exact fun shape => count (length_of_shapesAll shape)
    | _ => cases run
  | group .., v, scopes, after, run | letIn .., v, scopes, after, run
  | assign .., v, scopes, after, run | matchWith .., v, scopes, after, run
  | call .., v, scopes, after, run | ifElse .., v, scopes, after, run
  | whileDo .., v, scopes, after, run | forTo .., v, scopes, after, run
  | binary .., v, scopes, after, run | unary .., v, scopes, after, run
  | cast .., v, scopes, after, run => by cases run
theorem not_shapes_of_matchItems : ∀ (parts : List Expr) (items : List Value)
    {scopes after : Scopes Value}, matchItems parts items scopes = (.ok false, after) →
      ¬ ShapesAll parts items
  | [], [], scopes, after, run => by cases run
  | [], _ :: _, scopes, after, run => by cases run
  | _ :: _, [], scopes, after, run => by cases run
  | p :: ps, v :: vs, scopes, after, run => by
    rcases matchItems_cons_false run with first | ⟨middle, rest⟩
    · exact fun shape => not_shapes_of_matchValue p v first shape.1
    · exact fun shape => not_shapes_of_matchItems ps vs rest shape.2
end

theorem Matched.findVar_after {pattern : Expr} {v : Value} {scopes after : Scopes Value}
    (matched : Matched pattern v scopes after) {name : String} {w : Value}
    (component : rightmost (pattern.components v) name = some w) :
    ∃ b, findVar name scopes = some b ∧ findVar name after = some { b with info := w } := by
  have bound := matched.bound _ (mem_of_rightmost component)
  obtain ⟨b, found⟩ := Option.isSome_iff_exists.mp bound
  refine ⟨b, found, ?_⟩
  rw [matched.effect, findVar_overwrite, found, component]
  rfl

end Expr
end TypedLet
