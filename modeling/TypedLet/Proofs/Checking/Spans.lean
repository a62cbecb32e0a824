import TypedLet.Checking.Diagnose
import TypedLet.Proofs.Checking.Accept
import TypedLet.Proofs.Diagnostic.Labels

/-
Where diagnostics point. Every span that a type error carries, or that its cause carries, was
recorded in the program. The errors that point back take what they point to from the scopes,
and these hold nothing but declarations of the program: a scope of a let has those of the
let, in their order, and that of a function has its arguments. So a second declaration meets
only declarations that come before it in the same list.
-/
namespace TypedLet
namespace Expr

mutual
def spans : Expr → List Span
  | literal _ span | var _ span => span.toList
  | group body span => span.toList ++ spansAll body
  | letIn vars fns body span =>
    span.toList ++ spansVars vars ++ spansFns fns ++ spansAll body
  | assign _ value nameSpan span => span.toList ++ nameSpan.toList ++ value.spans
  | matchWith pattern value span => span.toList ++ pattern.spans ++ value.spans
  | call _ args span => span.toList ++ spansAll args
  | ifElse cond whenTrue whenFalse span =>
    span.toList ++ cond.spans ++ whenTrue.spans ++ whenFalse.spans
  | whileDo cond body span => span.toList ++ cond.spans ++ body.spans
  | forTo ⟨_, start, declSpan⟩ goal body span =>
    span.toList ++ declSpan.toList ++ start.spans ++ goal.spans ++ body.spans
  | binary left _ right span => span.toList ++ left.spans ++ right.spans
  | unary _ operand span => span.toList ++ operand.spans
  | cast operand _ span => span.toList ++ operand.spans
  | array items _ elementSpan span => span.toList ++ elementSpan.toList ++ spansAll items
  | tuple items span => span.toList ++ spansAll items
def spansAll : List Expr → List Span
  | [] => []
  | e :: es => e.spans ++ spansAll es
def spansVars : List VarDecl → List Span
  | [] => []
  | ⟨_, value, span⟩ :: rest => span.toList ++ value.spans ++ spansVars rest
def spansFns : List FnDecl → List Span
  | [] => []
  | ⟨_, args, _, body, span⟩ :: rest =>
    span.toList ++ args.flatMap (·.span.toList) ++ body.spans ++ spansFns rest
end

mutual
/-- What is declared together: the variables of a let, its functions, and the arguments of
    each function. -/
def declared : Expr → List (List Declaration)
  | literal _ _ | var _ _ => []
  | group body _ => declaredAll body
  | letIn vars fns body _ =>
    [vars.map .var, fns.map .fn] ++ declaredVars vars ++ declaredFns fns ++ declaredAll body
  | assign _ value _ _ => value.declared
  | matchWith pattern value _ => pattern.declared ++ value.declared
  | call _ args _ => declaredAll args
  | ifElse cond whenTrue whenFalse _ =>
    cond.declared ++ whenTrue.declared ++ whenFalse.declared
  | whileDo cond body _ => cond.declared ++ body.declared
  | forTo ⟨_, start, _⟩ goal body _ => start.declared ++ goal.declared ++ body.declared
  | binary left _ right _ => left.declared ++ right.declared
  | unary _ operand _ => operand.declared
  | cast operand _ _ => operand.declared
  | array items _ _ _ => declaredAll items
  | tuple items _ => declaredAll items
def declaredAll : List Expr → List (List Declaration)
  | [] => []
  | e :: es => e.declared ++ declaredAll es
def declaredVars : List VarDecl → List (List Declaration)
  | [] => []
  | ⟨_, value, _⟩ :: rest => value.declared ++ declaredVars rest
def declaredFns : List FnDecl → List (List Declaration)
  | [] => []
  | ⟨_, args, _, body, _⟩ :: rest => [args.map .arg] ++ body.declared ++ declaredFns rest
end

theorem span_subset {e : Expr} {S : List Span} (inside : e.spans ⊆ S) : e.span.toList ⊆ S := by
  apply List.Subset.trans _ inside
  cases e with
  | forTo loop goal body span =>
    obtain ⟨⟩ := loop
    simp [spans, Expr.span]
  | _ => simp [spans, Expr.span]

theorem spansFns_cons (f : FnDecl) (fs : List FnDecl) :
    spansFns (f :: fs) = spansFns [f] ++ spansFns fs := by
  obtain ⟨⟩ := f
  simp [spansFns]

theorem declaredFns_cons (f : FnDecl) (fs : List FnDecl) :
    declaredFns (f :: fs) = declaredFns [f] ++ declaredFns fs := by
  obtain ⟨⟩ := f
  simp [declaredFns]

theorem fnSpans_subset {fns : List FnDecl} {S : List Span} (inside : spansFns fns ⊆ S) :
    ∀ f ∈ fns, f.span.toList ⊆ S := by
  induction fns with
  | nil => exact List.forall_mem_nil _
  | cons f fns ih =>
    obtain ⟨⟩ := f
    simp only [spansFns, List.append_subset] at inside
    exact List.forall_mem_cons.mpr ⟨inside.1.1.1, ih inside.2⟩

end Expr

namespace Action

variable {D : α → Scopes ι → Prop} {D' : β → Scopes ι → Prop} {F : Error → Prop}
  {scopes : Scopes ι}

def Ends (D : α → Scopes ι → Prop) (F : Error → Prop) : Except Error α × Scopes ι → Prop
  | (.ok a, after) => D a after
  | (.error e, _) => F e

theorem ends_mono {D D' : α → Scopes ι → Prop} {o : Except Error α × Scopes ι} (h : Ends D F o)
    (weaker : ∀ a after, D a after → D' a after) : Ends D' F o := by
  obtain ⟨result, after⟩ := o
  cases result with
  | ok a => exact weaker a after h
  | error e => exact h

theorem ends_bind {x : Action ι α} {f : α → Action ι β} (first : Ends D F (x scopes))
    (next : ∀ a after, D a after → Ends D' F (f a after)) : Ends D' F ((x >>= f) scopes) := by
  cases run : x scopes with
  | mk result middle =>
    rw [run] at first
    cases result with
    | ok a =>
      rw [bind_of_ok run]
      exact next a middle first
    | error e =>
      rw [bind_of_error run]
      exact first

theorem ends_inspect {f : Scopes ι → Except Error α} (ok : ∀ a, f scopes = .ok a → D a scopes)
    (error : ∀ e, f scopes = .error e → F e) : Ends D F (inspect f scopes) := by
  unfold inspect
  cases run : f scopes with
  | ok a => exact ok a run
  | error e => exact error e run

theorem ends_update {D : Unit → Scopes ι → Prop} {f : Scopes ι → Except Error (Scopes ι)}
    (ok : ∀ after, f scopes = .ok after → D () after) (error : ∀ e, f scopes = .error e → F e) :
    Ends D F (update f scopes) := by
  unfold update
  cases run : f scopes with
  | ok after => exact ok after run
  | error e => exact error e run

theorem ends_inScope {x : Action ι α} (fault : F (.internal .noScopeToLeave none))
    (run : Ends (fun a after => ∃ s outer, after = s :: outer ∧ D a outer) F
      (x (Scope.empty :: scopes))) : Ends D F (inScope x scopes) := by
  unfold inScope
  cases ran : x (Scope.empty :: scopes) with
  | mk result after =>
    rw [ran] at run
    cases result with
    | ok a =>
      obtain ⟨s, outer, rfl, holds⟩ := run
      exact holds
    | error e =>
      cases after with
      | nil => exact fault
      | cons s outer => exact run

end Action

section Points

variable (S : List Span) (L : List (List Declaration))

/-- The second declaration comes after the first one in one of the lists, and has its name. -/
def Redeclares (name : String) (first : Declaration) (span : Option Span) : Prop :=
  ∃ ds ∈ L, ∃ second : Declaration, [first, second].Sublist ds ∧ first.name = name ∧
    second.name = name ∧ second.span = span

def TypeError.PointsInto (span : Option Span) : TypeError → Prop
  | mismatch _ _ (some decl) => decl.span.toList ⊆ S
  | alreadyDeclared name first => first.span.toList ⊆ S ∧ Redeclares L name first span
  | armMismatch _ _ trueSpan => trueSpan.toList ⊆ S
  | itemMismatch _ _ _ _ originSpan => originSpan.toList ⊆ S
  | _ => True

def Error.PointsInto : Error → Prop
  | .typing cause span => span.toList ⊆ S ∧ cause.PointsInto S L span
  | _ => True

def Recorded (scopes : Scopes Ty) : Prop :=
  ∀ s ∈ scopes, (∀ b ∈ s.vars, b.decl.span.toList ⊆ S) ∧ ∀ f ∈ s.fns, f.span.toList ⊆ S

def Points (x : Check α) : Prop := ∀ scopes, Recorded S scopes →
  Action.Ends (fun _ after => after = scopes) (Error.PointsInto S L) (x scopes)

def Holding (decls : List Declaration) (fns : List FnDecl) (outer scopes : Scopes Ty) : Prop :=
  ∃ s, scopes = s :: outer ∧ s.vars.map (·.decl) = decls ∧ s.fns = fns ∧ Recorded S scopes

end Points

namespace Expr

open TypedLet.Action

variable {S : List Span} {L : List (List Declaration)}

theorem points_pure (a : α) : Points S L (Pure.pure a) := fun _ _ => rfl

theorem points_bind {x : Check α} {f : α → Check β} (hx : Points S L x)
    (hf : ∀ a, Points S L (f a)) : Points S L (x >>= f) := by
  intro scopes recorded
  apply ends_bind (hx scopes recorded)
  rintro a _ rfl
  exact hf a _ recorded

theorem ends_reject {D : α → Scopes Ty → Prop} {cause : TypeError} {span : Option Span}
    (here : span.toList ⊆ S) (back : cause.PointsInto S L span) (scopes : Scopes Ty) :
    Ends D (Error.PointsInto S L) ((reject cause span : Check α) scopes) := ⟨here, back⟩

theorem points_reject {cause : TypeError} {span : Option Span} (here : span.toList ⊆ S)
    (back : cause.PointsInto S L span) : Points S L (reject cause span : Check α) :=
  fun scopes _ => ends_reject here back scopes

theorem points_requireCondition (t : Ty) {span : Option Span} (here : span.toList ⊆ S) :
    Points S L (requireCondition t span) := by
  unfold requireCondition
  split
  · exact points_pure ()
  · exact points_reject here trivial

theorem points_requireInteger (t : Ty) {span : Option Span} (here : span.toList ⊆ S) :
    Points S L (requireInteger t span) := by
  unfold requireInteger
  split
  · exact points_pure ()
  · exact points_reject here trivial

theorem ends_lookupVar (name : String) {span : Option Span} (here : span.toList ⊆ S)
    {scopes : Scopes Ty} (recorded : Recorded S scopes) :
    Ends (fun b after => after = scopes ∧ b.decl.span.toList ⊆ S) (Error.PointsInto S L)
      (inspect (fun scopes : Scopes Ty => scopes.lookupVar name span) scopes) := by
  apply ends_inspect
  · intro b found
    obtain ⟨s, member, held⟩ := Scopes.mem_of_findVar (lookupVar_ok_iff.mp found)
    exact ⟨rfl, (recorded s member).1 b held⟩
  · intro e failed
    unfold Scopes.lookupVar at failed
    split at failed <;> cases failed
    exact ⟨here, trivial⟩

theorem points_inferAssign (name : String) (got : Ty) {nameSpan valueSpan : Option Span}
    (named : nameSpan.toList ⊆ S) (here : valueSpan.toList ⊆ S) :
    Points S L (inferAssign name nameSpan got valueSpan) := by
  intro scopes recorded
  apply ends_bind (ends_lookupVar name named recorded)
  rintro b _ ⟨rfl, declared⟩
  split
  · exact points_pure got _ recorded
  · refine ends_reject here ?_ _
    exact declared

theorem points_requirePattern (p : Expr) : Points S L (inspect fun _ => p.requirePattern) := by
  intro scopes _
  apply ends_inspect
  · exact fun _ _ => rfl
  · intro e failed
    unfold requirePattern at failed
    split at failed <;> cases failed
    exact trivial

theorem points_inferBuiltin (b : Builtin) (types : List Ty) {span : Option Span}
    (here : span.toList ⊆ S) : Points S L (inferBuiltin b types span) := by
  unfold inferBuiltin
  split
  · exact points_pure _
  · exact points_reject here trivial

theorem points_inferCall (name : String) (types : List Ty) {span : Option Span}
    (here : span.toList ⊆ S) : Points S L (inferCall name types span) := by
  have looked : Points S L (inspect fun scopes => .ok (scopes.findFn name)) := fun _ _ => rfl
  apply points_bind looked
  intro found
  cases found with
  | some f =>
    dsimp only
    split
    · exact points_pure _
    · exact points_reject here trivial
  | none =>
    dsimp only
    split
    · exact points_inferBuiltin _ _ here
    · exact fun _ _ => ⟨here, trivial⟩

theorem points_requireItems (element : Ty) (origin : ElementOrigin) {originSpan : Option Span}
    (from_ : originSpan.toList ⊆ S) : ∀ (index : Nat) (es : List Expr) (ts : List Ty),
      spansAll es ⊆ S → Points S L (requireItems element origin originSpan index es ts) := by
  intro index es
  induction es generalizing index with
  | nil => intro ts _; exact points_pure ()
  | cons e es ih =>
    intro ts inside
    obtain ⟨first, others⟩ := List.append_subset.mp inside
    cases ts with
    | nil => exact points_pure ()
    | cons t ts =>
      rw [requireItems]
      split
      · exact ih (index + 1) ts others
      · exact points_reject (span_subset first) from_

section Declarations

variable {before rest : List Declaration} {fns : List FnDecl} {outer : Scopes Ty}

theorem ends_declareVar {decl : Declaration} (t : Ty) (listed : before ++ decl :: rest ∈ L)
    (here : decl.span.toList ⊆ S) {scopes : Scopes Ty}
    (holding : Holding S before fns outer scopes) :
    Ends (fun _ after => Holding S (before ++ [decl]) fns outer after) (Error.PointsInto S L)
      (update (Scopes.declareVar decl t) scopes) := by
  obtain ⟨s, rfl, rfl, same, recorded⟩ := holding
  obtain ⟨⟨vars, named⟩, others⟩ := List.forall_mem_cons.mp recorded
  apply ends_update
  · intro after declared
    obtain ⟨_, rfl⟩ := Scopes.declareVar_cons_ok_iff.mp declared
    refine ⟨_, rfl, by simp, same, ?_⟩
    refine List.forall_mem_cons.mpr ⟨⟨?_, named⟩, others⟩
    exact List.forall_mem_append.mpr ⟨vars, List.forall_mem_singleton.mpr here⟩
  · intro e failed
    rw [Scopes.declareVar] at failed
    cases found : s.findVar decl.name with
    | some b =>
      rw [found] at failed
      cases failed
      have member : b ∈ s.vars := List.mem_of_find?_eq_some found
      refine ⟨here, vars b member, _, listed, decl, ?_, Scope.name_of_findVar found, rfl, rfl⟩
      have first : [b.decl].Sublist (s.vars.map (·.decl)) :=
        List.singleton_sublist.mpr (List.mem_map_of_mem member)
      exact first.append (List.singleton_sublist.mpr List.mem_cons_self)
    | none =>
      rw [found] at failed
      cases failed

theorem ends_declareFn {before rest : List FnDecl} {decls : List Declaration} {f : FnDecl}
    (listed : (before ++ f :: rest).map Declaration.fn ∈ L) (here : f.span.toList ⊆ S)
    {scopes : Scopes Ty} (holding : Holding S decls before outer scopes) :
    Ends (fun _ after => Holding S decls (before ++ [f]) outer after) (Error.PointsInto S L)
      (update (Scopes.declareFn f) scopes) := by
  obtain ⟨s, rfl, same, rfl, recorded⟩ := holding
  obtain ⟨⟨named, fns⟩, others⟩ := List.forall_mem_cons.mp recorded
  apply ends_update
  · intro after declared
    rw [Scopes.declareFn] at declared
    split at declared <;> cases declared
    refine ⟨_, rfl, same, Scope.fns_withFns [f], ?_⟩
    refine List.forall_mem_cons.mpr ⟨⟨named, ?_⟩, others⟩
    exact Scope.forall_fns_withFns.mpr ⟨fns, List.forall_mem_singleton.mpr here⟩
  · intro e failed
    rw [Scopes.declareFn] at failed
    cases found : s.findFn f.name with
    | some first =>
      rw [found] at failed
      cases failed
      have member : first ∈ s.fns := Scope.mem_of_findFn found
      refine ⟨here, fns first member, _, listed, .fn f, ?_, Scope.name_of_findFn found, rfl, rfl⟩
      have before : [first].Sublist s.fns := List.singleton_sublist.mpr member
      exact (before.append (List.singleton_sublist.mpr List.mem_cons_self)).map Declaration.fn
    | none =>
      rw [found] at failed
      cases failed

theorem ends_declareFns {decls : List Declaration} : ∀ {fns before : List FnDecl},
    (before ++ fns).map Declaration.fn ∈ L → (∀ f ∈ fns, f.span.toList ⊆ S) →
    ∀ {scopes}, Holding S decls before outer scopes →
      Ends (fun _ after => Holding S decls (before ++ fns) outer after) (Error.PointsInto S L)
        (declareFns fns scopes) := by
  intro fns
  induction fns with
  | nil =>
    intro before _ _ scopes holding
    rw [List.append_nil]
    exact holding
  | cons f fns ih =>
    intro before listed inside scopes holding
    obtain ⟨here, others⟩ := List.forall_mem_cons.mp inside
    apply ends_bind (ends_declareFn listed here holding)
    intro _ middle holding
    rw [List.append_cons] at listed ⊢
    exact ih listed others holding

theorem ends_declareArgs : ∀ {args : List ArgDecl} {before : List Declaration},
    before ++ args.map .arg ∈ L → (∀ a ∈ args, a.span.toList ⊆ S) →
    ∀ {scopes}, Holding S before fns outer scopes →
      Ends (fun _ after => Holding S (before ++ args.map .arg) fns outer after)
        (Error.PointsInto S L) (declareArgs args scopes) := by
  intro args
  induction args with
  | nil =>
    intro before _ _ scopes holding
    rw [List.map_nil, List.append_nil]
    exact holding
  | cons a args ih =>
    intro before listed inside scopes holding
    obtain ⟨here, others⟩ := List.forall_mem_cons.mp inside
    rw [List.map_cons] at listed ⊢
    apply ends_bind (ends_declareVar a.type listed here holding)
    intro _ middle holding
    rw [List.append_cons] at listed ⊢
    exact ih listed others holding

end Declarations

theorem holding_entered {scopes : Scopes Ty} (recorded : Recorded S scopes) :
    Holding S [] [] scopes (Scope.empty :: scopes) := by
  refine ⟨Scope.empty, rfl, rfl, rfl, List.forall_mem_cons.mpr ⟨⟨?_, ?_⟩, recorded⟩⟩
  · exact List.forall_mem_nil _
  · exact List.forall_mem_nil _

theorem points_inScope {x : Check α} (inside : ∀ scopes, Recorded S scopes →
    Ends (fun _ after => ∃ s, after = s :: scopes) (Error.PointsInto S L)
      (x (Scope.empty :: scopes))) : Points S L (inScope x) := by
  intro scopes recorded
  apply ends_inScope trivial
  apply ends_mono (inside scopes recorded)
  rintro _ _ ⟨s, rfl⟩
  exact ⟨s, scopes, rfl, rfl⟩

theorem ends_of_holding {x : Check α} (hx : Points S L x) {decls : List Declaration}
    {fns : List FnDecl} {outer scopes : Scopes Ty} (holding : Holding S decls fns outer scopes) :
    Ends (fun _ after => ∃ s, after = s :: outer) (Error.PointsInto S L) (x scopes) := by
  obtain ⟨s, rfl, _, _, recorded⟩ := holding
  apply ends_mono (hx _ recorded)
  rintro _ _ rfl
  exact ⟨s, rfl⟩

theorem ends_bind_holding {x : Check α} {f : α → Check β} {D : β → Scopes Ty → Prop}
    (hx : Points S L x) {decls : List Declaration} {fns : List FnDecl} {outer scopes : Scopes Ty}
    (holding : Holding S decls fns outer scopes)
    (next : ∀ a, Ends D (Error.PointsInto S L) (f a scopes)) :
    Ends D (Error.PointsInto S L) ((x >>= f) scopes) := by
  have recorded : Recorded S scopes := by
    obtain ⟨_, _, _, _, recorded⟩ := holding
    exact recorded
  apply ends_bind (hx scopes recorded)
  rintro a _ rfl
  exact next a

theorem ends_declareLoop {loop : VarDecl} (t : Ty) (here : loop.span.toList ⊆ S)
    {scopes : Scopes Ty} (recorded : Recorded S scopes) :
    Ends (fun _ after => Holding S [.var loop] [] scopes after) (Error.PointsInto S L)
      (update (Scopes.declareVar (.var loop) t) (Scope.empty :: scopes)) := by
  refine ⟨Scope.ofVar loop t, rfl, rfl, rfl, ?_⟩
  refine List.forall_mem_cons.mpr ⟨⟨?_, List.forall_mem_nil _⟩, recorded⟩
  exact List.forall_mem_singleton.mpr here

mutual
theorem points_infer : ∀ e : Expr, e.spans ⊆ S → e.declared ⊆ L → Points S L e.infer
  | literal _ _, _, _ => points_pure _
  | var name span, inside, _ => by
    intro scopes recorded
    apply ends_bind (ends_lookupVar name inside recorded)
    rintro b _ ⟨rfl, _⟩
    rfl
  | group body _, inside, listed => by
    simp only [spans, List.append_subset] at inside
    exact points_bind (points_inferAll body inside.2 listed) fun _ => points_pure _
  | letIn vars fns body span, inside, listed => by
    simp only [spans, List.append_subset] at inside
    simp only [declared, List.append_subset, List.cons_subset] at listed
    obtain ⟨⟨⟨_, inVars⟩, inFns⟩, inBody⟩ := inside
    obtain ⟨⟨⟨⟨ofLet, ofLetFns, _⟩, ofVars⟩, ofFns⟩, ofBody⟩ := listed
    apply points_inScope
    intro scopes recorded
    apply ends_bind (ends_checkVars vars inVars ofVars _ _ _ _ ofLet (holding_entered recorded))
    intro _ middle holding
    apply ends_bind (ends_declareFns ofLetFns (fnSpans_subset inFns) holding)
    intro _ after holding
    refine ends_of_holding ?_ holding
    apply points_bind (points_checkFns fns inFns ofFns)
    intro _
    exact points_bind (points_inferAll body inBody ofBody) fun _ => points_pure _
  | assign name value nameSpan _, inside, listed => by
    simp only [spans, List.append_subset] at inside
    obtain ⟨⟨_, named⟩, inValue⟩ := inside
    apply points_bind (points_infer value inValue listed)
    intro got
    exact points_inferAssign name got named (span_subset inValue)
  | matchWith pattern value _, inside, listed => by
    simp only [spans, List.append_subset] at inside
    obtain ⟨⟨_, inPattern⟩, inValue⟩ := inside
    obtain ⟨ofPattern, ofValue⟩ := List.append_subset.mp listed
    have here := span_subset inValue
    by_cases isVar : ∃ name nameSpan, pattern = var name nameSpan
    · obtain ⟨name, nameSpan, rfl⟩ := isVar
      apply points_bind (points_requirePattern _)
      intro _
      apply points_bind (points_infer value inValue ofValue)
      intro got
      exact points_bind (points_inferAssign name got inPattern here) fun _ => points_pure _
    · rw [infer_matchWith fun name nameSpan same => isVar ⟨name, nameSpan, same⟩]
      apply points_bind (points_requirePattern _)
      intro _
      apply points_bind (points_infer pattern inPattern ofPattern)
      intro expected
      apply points_bind (points_infer value inValue ofValue)
      intro got
      split
      · exact points_pure _
      · exact points_reject here trivial
  | call name args span, inside, listed => by
    simp only [spans, List.append_subset] at inside
    exact points_bind (points_inferAll args inside.2 listed) fun _ =>
      points_inferCall _ _ inside.1
  | ifElse cond whenTrue whenFalse _, inside, listed => by
    simp only [spans, List.append_subset] at inside
    simp only [declared, List.append_subset] at listed
    obtain ⟨⟨⟨_, inCond⟩, inTrue⟩, inFalse⟩ := inside
    apply points_bind (points_infer cond inCond listed.1.1)
    intro c
    apply points_bind (points_requireCondition _ (span_subset inCond))
    intro _
    apply points_bind (points_infer whenTrue inTrue listed.1.2)
    intro trueType
    apply points_bind (points_infer whenFalse inFalse listed.2)
    intro falseType
    split
    · exact points_pure _
    · exact points_reject (span_subset inFalse) (span_subset inTrue)
  | whileDo cond body _, inside, listed => by
    simp only [spans, List.append_subset] at inside
    simp only [declared, List.append_subset] at listed
    obtain ⟨⟨_, inCond⟩, inBody⟩ := inside
    apply points_bind (points_infer cond inCond listed.1)
    intro c
    apply points_bind (points_requireCondition _ (span_subset inCond))
    intro _
    exact points_bind (points_infer body inBody listed.2) fun _ => points_pure _
  | forTo ⟨name, start, declSpan⟩ goal body _, inside, listed => by
    simp only [spans, List.append_subset] at inside
    simp only [declared, List.append_subset] at listed
    obtain ⟨⟨⟨⟨_, here⟩, inStart⟩, inGoal⟩, inBody⟩ := inside
    refine points_bind (points_inScope fun scopes recorded => ?_) fun _ => points_pure _
    have entered := holding_entered recorded
    apply ends_bind_holding (points_infer start inStart listed.1.1) entered
    intro startType
    have startSpan := span_subset inStart
    apply ends_bind_holding (points_requireInteger startType startSpan) entered
    intro _
    apply ends_bind_holding (points_infer goal inGoal listed.1.2) entered
    intro goalType
    have goalSpan := span_subset inGoal
    apply ends_bind_holding (points_requireInteger goalType goalSpan) entered
    intro _
    apply ends_bind (ends_declareLoop .integer here recorded)
    intro _ after holding
    exact ends_of_holding (points_bind (points_infer body inBody listed.2) fun _ => points_pure _)
      holding
  | binary left op right span, inside, listed => by
    simp only [spans, List.append_subset] at inside
    simp only [declared, List.append_subset] at listed
    apply points_bind (points_infer left inside.1.2 listed.1)
    intro leftType
    exact points_bind (points_infer right inside.2 listed.2) fun _ =>
      points_inferBuiltin _ _ inside.1.1
  | unary op operand span, inside, listed => by
    simp only [spans, List.append_subset] at inside
    exact points_bind (points_infer operand inside.2 listed) fun _ =>
      points_inferBuiltin _ _ inside.1
  | cast operand target _, inside, listed => by
    simp only [spans, List.append_subset] at inside
    rw [infer]
    apply points_bind (points_infer operand inside.2 listed)
    intro source
    split
    · exact points_pure _
    · exact points_reject (span_subset inside.2) trivial
  | array items (some element) elementSpan _, inside, listed => by
    simp only [spans, List.append_subset] at inside
    obtain ⟨⟨_, typed⟩, inItems⟩ := inside
    apply points_bind (points_inferAll items inItems listed)
    intro types
    exact points_bind (points_requireItems _ _ typed _ _ _ inItems) fun _ => points_pure _
  | array items none _ span, inside, listed => by
    simp only [spans, List.append_subset] at inside
    obtain ⟨⟨here, _⟩, inItems⟩ := inside
    apply points_bind (points_inferAll items inItems listed)
    intro types
    split
    · next first rest element _ =>
      have start := (List.append_subset.mp inItems).1
      refine points_bind (points_requireItems _ _ ?_ _ _ _ inItems) fun _ => points_pure _
      exact span_subset start
    · exact points_reject here trivial
  | tuple items _, inside, listed => by
    simp only [spans, List.append_subset] at inside
    exact points_bind (points_inferAll items inside.2 listed) fun _ => points_pure _

theorem points_inferAll : ∀ es : List Expr, spansAll es ⊆ S → declaredAll es ⊆ L →
    Points S L (inferAll es)
  | [], _, _ => points_pure []
  | e :: es, inside, listed => by
    obtain ⟨first, others⟩ := List.append_subset.mp inside
    obtain ⟨ofFirst, ofOthers⟩ := List.append_subset.mp listed
    apply points_bind (points_infer e first ofFirst)
    intro _
    exact points_bind (points_inferAll es others ofOthers) fun _ => points_pure _

theorem ends_checkVars : ∀ vars : List VarDecl, spansVars vars ⊆ S → declaredVars vars ⊆ L →
    ∀ before fns outer scopes, before ++ vars.map .var ∈ L → Holding S before fns outer scopes →
      Ends (fun _ after => Holding S (before ++ vars.map .var) fns outer after)
        (Error.PointsInto S L) (checkVars vars scopes)
  | [], _, _ => by
    intro before fns outer scopes _ holding
    rw [List.map_nil, List.append_nil]
    exact holding
  | ⟨name, value, span⟩ :: rest, inside, listed => by
    intro before fns outer scopes ofLet holding
    simp only [spansVars, List.append_subset] at inside
    obtain ⟨⟨here, inValue⟩, inRest⟩ := inside
    obtain ⟨ofValue, ofRest⟩ := List.append_subset.mp listed
    rw [checkVars]
    apply ends_bind_holding (points_infer value inValue ofValue) holding
    intro type
    split
    · apply ends_reject (span_subset inValue)
      exact trivial
    · apply ends_bind (ends_declareVar type ofLet here holding)
      intro _ after holding
      rw [List.map_cons, List.append_cons] at ofLet ⊢
      exact ends_checkVars rest inRest ofRest _ _ _ _ ofLet holding

theorem points_checkFn : ∀ f : FnDecl, spansFns [f] ⊆ S → declaredFns [f] ⊆ L →
    Points S L (checkFn f)
  | ⟨name, args, result, body, span⟩, inside, listed => by
    simp only [spansFns, List.append_subset] at inside
    simp only [declaredFns, List.append_subset, List.cons_subset] at listed
    obtain ⟨⟨⟨here, inArgs⟩, inBody⟩, _⟩ := inside
    obtain ⟨⟨⟨arguments, _⟩, ofBody⟩, _⟩ := listed
    refine points_bind (points_inScope fun scopes recorded => ?_) fun _ => points_pure _
    have argSpans : ∀ a ∈ args, a.span.toList ⊆ S := fun a member =>
      fun _ found => inArgs (List.mem_flatMap.mpr ⟨a, member, found⟩)
    apply ends_bind (ends_declareArgs arguments argSpans (holding_entered recorded))
    intro _ after holding
    refine ends_of_holding ?_ holding
    apply points_bind (points_infer body inBody ofBody)
    intro got
    split
    · exact points_pure _
    · exact points_reject (span_subset inBody) here

theorem points_checkFns : ∀ fns : List FnDecl, spansFns fns ⊆ S → declaredFns fns ⊆ L →
    Points S L (checkFns fns)
  | [], _, _ => points_pure ()
  | f :: fs, inside, listed => by
    rw [spansFns_cons] at inside
    rw [declaredFns_cons] at listed
    obtain ⟨first, others⟩ := List.append_subset.mp inside
    obtain ⟨ofFirst, ofOthers⟩ := List.append_subset.mp listed
    exact points_bind (points_checkFn f first ofFirst) fun _ => points_checkFns fs others ofOthers
end

theorem recorded_nil : Recorded S [] := List.forall_mem_nil _

end Expr

theorem TypeError.back_subset {cause : TypeError} {S : List Span} {L : List (List Declaration)}
    {span : Option Span} (points : cause.PointsInto S L span) : cause.back.toList ⊆ S := by
  cases cause with
  | mismatch expected got binding =>
    cases binding with
    | none => exact List.nil_subset S
    | some decl => exact points
  | alreadyDeclared name first => exact points.1
  | armMismatch | itemMismatch => exact points
  | _ => exact List.nil_subset S

namespace Tree

def spans : Tree → List Span
  | expr e => e.spans
  | block body => Expr.spansAll body

def declared : Tree → List (List Declaration)
  | expr e => e.declared
  | block body => Expr.declaredAll body

theorem points_infer (t : Tree) : Points t.spans t.declared t.infer := by
  cases t with
  | expr e => exact Expr.points_infer e (List.Subset.refl _) (List.Subset.refl _)
  | block body =>
    exact Expr.points_bind
      (Expr.points_inferAll body (List.Subset.refl _) (List.Subset.refl _)) fun _ =>
        Expr.points_pure _

theorem points_of_check {t : Tree} {e : Error} (refused : t.check = .error e) :
    e.PointsInto t.spans t.declared := by
  have points := points_infer t [] Expr.recorded_nil
  unfold check at refused
  cases run : t.infer [] with
  | mk answer after =>
    rw [run] at points refused
    cases refused
    exact points

/-- A diagnostic of a program tells of a type error, in the program. Its labels stand on spans of
    the program. A primary label is there exactly when the error has a span; it stands on that
    span and comes first. A second declaration of a name is told of together with an earlier
    one in the same list of variables, functions or arguments. -/
theorem diagnose_points {t : Tree} {d : Diagnostic} (found : t.diagnose = .ok (some d)) :
    ∃ cause span, t.check = .error (.typing cause span) ∧ d.code = cause.code.text ∧
      d.code ∈ ["E0101", "E0102", "E0103", "E0104", "E0105", "E0106", "E0107", "E0108", "E0109",
        "E0110"] ∧
      (∀ l ∈ d.labels, l.span ∈ t.spans) ∧
      (∀ s, span = some s → ∃ message others, d.labels = ⟨s, message, true⟩ :: others ∧
        ∀ l ∈ others, l.isPrimary = false) ∧
      (span = none → ∀ l ∈ d.labels, l.isPrimary = false) ∧
      ∀ name first, cause = .alreadyDeclared name first →
        (∃ ds ∈ t.declared, ∃ second : Declaration, [first, second].Sublist ds ∧
          first.name = name ∧ second.name = name ∧ second.span = span) ∧
        ∀ s, first.span = some s → d.secondary = [⟨s, "first declared here", false⟩] := by
  unfold diagnose at found
  cases answer : t.check with
  | ok type =>
    rw [answer] at found
    cases found
  | error e =>
    cases e with
    | typing cause span =>
      rw [answer] at found
      cases found
      obtain ⟨inside, back⟩ := points_of_check answer
      obtain ⟨here, there, labels⟩ := cause.labels_diagnostic [] span
      have code : (cause.diagnostic [] span).code = cause.code.text := Diagnostic.code_foldl _ _
      refine ⟨cause, span, rfl, code, ?_, ?_, ?_, ?_, ?_⟩
      · rw [code]
        exact Code.text_mem cause.code_ne_internal
      · intro l member
        rw [labels] at member
        rcases List.mem_append.mp member with own | other
        · obtain ⟨rfl, _⟩ := Diagnostic.mem_labelAt own
          exact inside List.mem_cons_self
        · have at_ := (Diagnostic.mem_labelAt other).1
          apply TypeError.back_subset back
          rw [at_]
          exact List.mem_cons_self
      · rintro s rfl
        exact ⟨here, _, labels, fun l member => (Diagnostic.mem_labelAt member).2⟩
      · rintro rfl l member
        rw [labels] at member
        exact (Diagnostic.mem_labelAt member).2
      · rintro name first rfl
        refine ⟨back.2, ?_⟩
        intro s spanned
        have both : (TypeError.diagnostic [] (.alreadyDeclared name first) span).labels =
            Diagnostic.labelAt span "declared again here" true ++
              Diagnostic.labelAt first.span "first declared here" false :=
          Diagnostic.labels_build _ _ _ _ _ _ _
        rw [Diagnostic.secondary, both, spanned]
        cases span <;> rfl
    | internal | general | divisionByZero =>
      rw [answer] at found
      cases found

/-- `let var x := 1, var x := 2 in x` -/
def twice : Tree :=
  .expr (.letIn [⟨"x", .literal (.int 1) (some ⟨13, 14⟩), some ⟨4, 14⟩⟩,
      ⟨"x", .literal (.int 2) (some ⟨25, 26⟩), some ⟨16, 26⟩⟩] []
    [.var "x" (some ⟨30, 31⟩)] (some ⟨0, 31⟩))

theorem diagnose_points_twice : ∃ d, twice.diagnose = .ok (some d) ∧
    (∀ l ∈ d.labels, l.span ∈ twice.spans) ∧
    d.secondary = [⟨⟨4, 14⟩, "first declared here", false⟩] := by
  have answer : twice.check = .error (.typing (.alreadyDeclared "x"
      (.var ⟨"x", .literal (.int 1) (some ⟨13, 14⟩), some ⟨4, 14⟩⟩)) (some ⟨16, 26⟩)) := rfl
  refine ⟨_, rfl, ?_⟩
  obtain ⟨cause, span, told, _, _, inside, _, _, again⟩ := diagnose_points (t := twice) rfl
  rw [answer] at told
  cases told
  exact ⟨inside, (again _ _ rfl).2 _ rfl⟩

end Tree
end TypedLet
