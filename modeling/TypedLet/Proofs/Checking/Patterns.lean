import TypedLet.Proofs.Checking.Accept

/-
The patterns of a program. A pattern is built from variables, literals, arrays and tuples,
to any depth; any other part that stands in it is forbidden. A program with a forbidden
part in one of its patterns is never accepted, wherever the match stands and whatever else
is wrong with the program.
-/
namespace TypedLet
namespace Expr

def mayStand : Expr → Bool
  | var .. | literal .. | array .. | tuple .. => true
  | _ => false

mutual
/-- The parts of a pattern: itself and, of an array or a tuple, the parts of its items. -/
def patternParts : Expr → List Expr
  | array items element elementSpan span =>
    array items element elementSpan span :: patternPartsAll items
  | tuple items span => tuple items span :: patternPartsAll items
  | e => [e]
def patternPartsAll : List Expr → List Expr
  | [] => []
  | e :: es => e.patternParts ++ patternPartsAll es
end

def IsPattern (p : Expr) : Prop := ∀ part ∈ p.patternParts, part.mayStand = true

def AllPatterns (ps : List Expr) : Prop := ∀ part ∈ patternPartsAll ps, part.mayStand = true

mutual
def patterns : Expr → List Expr
  | literal _ _ | var _ _ => []
  | group body _ => patternsAll body
  | letIn vars fns body _ => patternsVars vars ++ patternsFns fns ++ patternsAll body
  | assign _ value _ _ => value.patterns
  | matchWith pattern value _ => pattern :: pattern.patterns ++ value.patterns
  | call _ args _ => patternsAll args
  | ifElse cond whenTrue whenFalse _ =>
    cond.patterns ++ whenTrue.patterns ++ whenFalse.patterns
  | whileDo cond body _ => cond.patterns ++ body.patterns
  | forTo ⟨_, start, _⟩ goal body _ => start.patterns ++ goal.patterns ++ body.patterns
  | binary left _ right _ => left.patterns ++ right.patterns
  | unary _ operand _ => operand.patterns
  | cast operand _ _ => operand.patterns
  | array items _ _ _ => patternsAll items
  | tuple items _ => patternsAll items
def patternsAll : List Expr → List Expr
  | [] => []
  | e :: es => e.patterns ++ patternsAll es
def patternsVars : List VarDecl → List Expr
  | [] => []
  | ⟨_, value, _⟩ :: rest => value.patterns ++ patternsVars rest
def patternsFns : List FnDecl → List Expr
  | [] => []
  | ⟨_, _, _, body, _⟩ :: rest => body.patterns ++ patternsFns rest
end

theorem isPattern_array {items : List Expr} {element : Option Ty}
    {elementSpan span : Option Span} :
    IsPattern (array items element elementSpan span) ↔ AllPatterns items := by
  simp [IsPattern, AllPatterns, patternParts, mayStand]

theorem isPattern_tuple {items : List Expr} {span : Option Span} :
    IsPattern (tuple items span) ↔ AllPatterns items := by
  simp [IsPattern, AllPatterns, patternParts, mayStand]

theorem allPatterns_cons {p : Expr} {ps : List Expr} :
    AllPatterns (p :: ps) ↔ p.IsPattern ∧ AllPatterns ps := by
  rw [AllPatterns, patternPartsAll, List.forall_mem_append]
  rfl

mutual
theorem forbidden?_some : ∀ {p part : Expr}, p.forbidden? = some part →
    part ∈ p.patternParts ∧ part.mayStand = false
  | array items _ _ _, part, found => by
    have below : anyForbidden? items = some part := found
    obtain ⟨inside, not⟩ := anyForbidden?_some below
    exact ⟨List.mem_cons_of_mem _ inside, not⟩
  | tuple items _, part, found => by
    have below : anyForbidden? items = some part := found
    obtain ⟨inside, not⟩ := anyForbidden?_some below
    exact ⟨List.mem_cons_of_mem _ inside, not⟩
  | var .., part, found | literal .., part, found => by cases found
  | group .., part, found | letIn .., part, found | assign .., part, found
  | matchWith .., part, found | call .., part, found | ifElse .., part, found
  | whileDo .., part, found | forTo .., part, found | binary .., part, found
  | unary .., part, found | cast .., part, found => by
    cases found
    exact ⟨List.mem_singleton_self _, rfl⟩
theorem anyForbidden?_some : ∀ {ps : List Expr} {part : Expr}, anyForbidden? ps = some part →
    part ∈ patternPartsAll ps ∧ part.mayStand = false
  | [], part, found => by cases found
  | p :: ps, part, found => by
    rw [anyForbidden?] at found
    rw [patternPartsAll, List.mem_append]
    cases here : p.forbidden? with
    | some q =>
      rw [here] at found
      cases found
      obtain ⟨inside, not⟩ := forbidden?_some here
      exact ⟨.inl inside, not⟩
    | none =>
      rw [here] at found
      obtain ⟨inside, not⟩ := anyForbidden?_some found
      exact ⟨.inr inside, not⟩
end

mutual
theorem isPattern_of_allowed : ∀ {p : Expr}, p.forbidden? = none → p.IsPattern
  | array items _ _ _, allowed => isPattern_array.mpr (allPatterns_of_allowed allowed)
  | tuple items _, allowed => isPattern_tuple.mpr (allPatterns_of_allowed allowed)
  | var .., _ | literal .., _ => List.forall_mem_singleton.mpr rfl
  | group .., allowed | letIn .., allowed | assign .., allowed | matchWith .., allowed
  | call .., allowed | ifElse .., allowed | whileDo .., allowed | forTo .., allowed
  | binary .., allowed | unary .., allowed | cast .., allowed => by cases allowed
theorem allPatterns_of_allowed : ∀ {ps : List Expr}, anyForbidden? ps = none → AllPatterns ps
  | [], _ => List.forall_mem_nil _
  | _ :: _, allowed => by
    obtain ⟨first, others⟩ := anyForbidden_cons_iff.mp allowed
    exact allPatterns_cons.mpr ⟨isPattern_of_allowed first, allPatterns_of_allowed others⟩
end

mutual
theorem patterns_of_infers : ∀ (e : Expr) {Γ : Scopes Ty} {t : Ty}, Infers Γ e t →
    ∀ p ∈ e.patterns, p.IsPattern
  | literal _ _, _, _, _ | var _ _, _, _, _ => List.forall_mem_nil _
  | group body _, _, _, infers => by
    obtain ⟨ts, types, _⟩ := infers_group.mp infers
    exact patterns_of_infersAll body types
  | letIn vars fns body _, _, _, infers => by
    obtain ⟨g, h, ts, checked, _, checks, types, _⟩ := infers_letIn.mp infers
    refine List.forall_mem_append.mpr ⟨List.forall_mem_append.mpr ⟨?_, ?_⟩, ?_⟩
    · exact patterns_of_checkVars vars checked
    · exact patterns_of_fnChecks fns checks
    · exact patterns_of_infersAll body types
  | assign name value _ _, _, _, infers =>
    patterns_of_infers value (infers_assign.mp infers).1
  | matchWith pattern value _, _, _, infers => by
    obtain ⟨_, allowed, s, expected, got⟩ := infers_matchWith.mp infers
    refine List.forall_mem_append.mpr ⟨List.forall_mem_cons.mpr ⟨?_, ?_⟩, ?_⟩
    · exact isPattern_of_allowed allowed
    · exact patterns_of_infers pattern expected
    · exact patterns_of_infers value got
  | call name args _, _, _, infers => by
    obtain ⟨ts, types, _⟩ := infers_call.mp infers
    exact patterns_of_infersAll args types
  | ifElse cond whenTrue whenFalse _, _, _, infers => by
    obtain ⟨⟨c, test, _⟩, first, second⟩ := infers_ifElse.mp infers
    refine List.forall_mem_append.mpr ⟨List.forall_mem_append.mpr ⟨?_, ?_⟩, ?_⟩
    · exact patterns_of_infers cond test
    · exact patterns_of_infers whenTrue first
    · exact patterns_of_infers whenFalse second
  | whileDo cond body _, _, _, infers => by
    obtain ⟨_, ⟨c, test, _⟩, s, run⟩ := infers_whileDo.mp infers
    refine List.forall_mem_append.mpr ⟨?_, ?_⟩
    · exact patterns_of_infers cond test
    · exact patterns_of_infers body run
  | forTo ⟨name, start, declSpan⟩ goal body _, _, _, infers => by
    obtain ⟨_, first, second, s, run⟩ := infers_forTo.mp infers
    refine List.forall_mem_append.mpr ⟨List.forall_mem_append.mpr ⟨?_, ?_⟩, ?_⟩
    · exact patterns_of_infers start first
    · exact patterns_of_infers goal second
    · exact patterns_of_infers body run
  | binary left _ right _, _, _, infers => by
    obtain ⟨a, b, first, second, _⟩ := infers_binary.mp infers
    refine List.forall_mem_append.mpr ⟨?_, ?_⟩
    · exact patterns_of_infers left first
    · exact patterns_of_infers right second
  | unary _ operand _, _, _, infers => by
    obtain ⟨a, inner, _⟩ := infers_unary.mp infers
    exact patterns_of_infers operand inner
  | cast operand _ _, _, _, infers => by
    obtain ⟨_, s, inner, _⟩ := infers_cast.mp infers
    exact patterns_of_infers operand inner
  | array items _ _ _, _, _, infers => by
    obtain ⟨element, ts, _, _, types, _⟩ := infers_array.mp infers
    exact patterns_of_infersAll items types
  | tuple items _, _, _, infers => by
    obtain ⟨ts, _, types⟩ := infers_tuple.mp infers
    exact patterns_of_infersAll items types

theorem patterns_of_infersAll : ∀ (es : List Expr) {Γ : Scopes Ty} {ts : List Ty},
    InfersAll Γ es ts → ∀ p ∈ patternsAll es, p.IsPattern
  | [], _, _, _ => List.forall_mem_nil _
  | e :: es, _, _, infers => by
    obtain ⟨s, rest, _, first, others⟩ := infersAll_cons.mp infers
    refine List.forall_mem_append.mpr ⟨?_, ?_⟩
    · exact patterns_of_infers e first
    · exact patterns_of_infersAll es others

theorem patterns_of_checkVars : ∀ (vars : List VarDecl) {Γ Δ : Scopes Ty},
    checkVars vars Γ = (.ok (), Δ) → ∀ p ∈ patternsVars vars, p.IsPattern
  | [], _, _, _ => List.forall_mem_nil _
  | ⟨name, value, span⟩ :: rest, _, _, checked => by
    obtain ⟨t, _, infers, _, _, others⟩ := checkVars_cons_ok_iff.mp checked
    refine List.forall_mem_append.mpr ⟨?_, ?_⟩
    · exact patterns_of_infers value infers
    · exact patterns_of_checkVars rest others

theorem patterns_of_fnChecks : ∀ (fns : List FnDecl) {Γ : Scopes Ty},
    (∀ f ∈ fns, FnChecks Γ f) → ∀ p ∈ patternsFns fns, p.IsPattern
  | [], _, _ => List.forall_mem_nil _
  | ⟨name, args, result, body, span⟩ :: fs, _, checks => by
    obtain ⟨first, others⟩ := List.forall_mem_cons.mp checks
    obtain ⟨g, _, infers⟩ := fnChecks_iff.mp first
    refine List.forall_mem_append.mpr ⟨?_, ?_⟩
    · exact patterns_of_infers body infers
    · exact patterns_of_fnChecks fs others
end

end Expr
end TypedLet
