import TypedLet.Proofs.Resolution.Parts

/-
What the checker looks up. The lookups in an expression stand at or below its place, those of
different parts below different steps, so the checker looks at no occurrence twice. What it
finds is declared in the tree where the finding says; and where a check succeeds, each of its
lookups has found something.
-/
namespace TypedLet

open Scopes

/-- At the place or below it. -/
def Under (place q : Place) : Prop := place <:+ q

def From (place : Place) (step : Nat) (q : Place) : Prop := ∃ j, step ≤ j ∧ Under (j :: place) q

section Places

variable {place q : Place} {i j : Nat}

theorem under_of_from (h : From place i q) : Under place q := by
  obtain ⟨j, _, below⟩ := h
  exact (List.suffix_cons j place).trans below

theorem eq_of_under (h : Under (i :: place) q) (h' : Under (j :: place) q) : i = j := by
  obtain ⟨r, rfl⟩ := h
  obtain ⟨r', same⟩ := h'
  have tails := List.append_inj_right' same rfl
  exact (List.cons.inj tails).1.symm

theorem not_from_of_under (h : Under (i :: place) q) : ¬ From place (i + 1) q := by
  rintro ⟨j, later, below⟩
  have same := eq_of_under h below
  omega

theorem ne_of_from (h : From place i q) : q ≠ place := by
  obtain ⟨j, _, below⟩ := h
  intro same
  have tall := below.length_le
  rw [same, List.length_cons] at tall
  omega

end Places

namespace Watched

variable {root : Part} {P Q : Place → Prop} {place : Place} {i : Nat} {scopes : Scopes ι}

/-- No lookup that the action makes on the scopes comes twice, all are where they may be and
    point into the tree, and if the action succeeds all of them have found something. -/
structure Marks (root : Part) (P : Place → Prop) (x : Watched ι α) (scopes : Scopes ι) :
    Prop where
  once : ((x.visits scopes).map (·.place)).Nodup
  within : ∀ v ∈ x.visits scopes, P v.place
  points : ∀ v ∈ x.visits scopes, v.Points root
  found : ∀ a after, x.erase scopes = (.ok a, after) → ∀ v ∈ x.visits scopes, v.found ≠ .unbound

theorem marks_lift (x : Action ι α) : Marks root P (lift x) scopes where
  once := List.nodup_nil
  within := nofun
  points := nofun
  found _ _ _ := nofun

theorem marks_pure (a : α) : Marks root P (Pure.pure a : Watched ι α) scopes := marks_lift _

theorem marks_mono {x : Watched ι α} (h : Marks root P x scopes) (le : ∀ q, P q → Q q) :
    Marks root Q x scopes where
  once := h.once
  within v member := le _ (h.within v member)
  points := h.points
  found := h.found

theorem marks_bind {x : Watched ι α} {f : α → Watched ι β} (first : Marks root P x scopes)
    (next : ∀ a after, x.erase scopes = (.ok a, after) → Marks root Q (f a) after)
    (apart : ∀ q, P q → ¬ Q q) : Marks root (fun q => P q ∨ Q q) (x >>= f) scopes := by
  cases run : x.erase scopes with
  | mk result after =>
    cases result with
    | error e =>
      have seen : (x >>= f).visits scopes = x.visits scopes := visits_bind_of_error run
      refine ⟨seen ▸ first.once, ?_, seen ▸ first.points, ?_⟩
      · rw [seen]
        exact fun v member => Or.inl (first.within v member)
      · intro b last ended
        rw [erase_bind, Action.bind_of_error run] at ended
        cases ended
    | ok a =>
      have second := next a after run
      have seen : (x >>= f).visits scopes = x.visits scopes ++ (f a).visits after :=
        visits_bind_of_ok run
      refine ⟨?_, ?_, ?_, ?_⟩
      · rw [seen, List.map_append]
        refine List.nodup_append.mpr ⟨first.once, second.once, ?_⟩
        -- A place that came twice would lie in both areas.
        intro q here r there same
        obtain ⟨v, member, rfl⟩ := List.mem_map.mp here
        obtain ⟨w, member', rfl⟩ := List.mem_map.mp there
        have inside := second.within w member'
        rw [← same] at inside
        exact apart _ (first.within v member) inside
      · rw [seen, List.forall_mem_append]
        constructor
        · exact fun v member => Or.inl (first.within v member)
        · exact fun v member => Or.inr (second.within v member)
      · rw [seen, List.forall_mem_append]
        exact ⟨first.points, second.points⟩
      · intro b last ended
        rw [erase_bind, Action.bind_of_ok run] at ended
        rw [seen, List.forall_mem_append]
        exact ⟨first.found a after run, second.found b last ended⟩

theorem marks_lift_bind {x : Action ι α} {f : α → Watched ι β}
    (next : ∀ a after, x scopes = (.ok a, after) → Marks root P (f a) after) :
    Marks root P (lift x >>= f) scopes := by
  apply marks_mono (marks_bind (P := fun _ => False) (marks_lift x) next fun _ => nofun)
  rintro q (none | here)
  · cases none
  · exact here

theorem marks_leaves_bind {x : Action ι α} {f : α → Watched ι β} (leaves : Action.Leaves x)
    (next : ∀ a, Marks root P (f a) scopes) : Marks root P (lift x >>= f) scopes := by
  apply marks_lift_bind
  intro a after run
  obtain rfl := Action.leaves_ok leaves run
  exact next a

theorem marks_declareVar_bind {decl : Declaration} {info : ι} {s : Scope ι}
    {f : Unit → Watched ι β} (next : Marks root P (f ()) (s.withVar decl info :: scopes)) :
    Marks root P (lift (Action.update (declareVar decl info)) >>= f) (s :: scopes) := by
  apply marks_lift_bind
  intro _ after run
  obtain ⟨_, rfl⟩ := declareVar_cons_ok_iff.mp (Action.update_ok_iff.mp run)
  exact next

theorem marks_quiet {x : Watched ι α} {f : α → Action ι β} (h : Marks root P x scopes) :
    Marks root P (x >>= fun a => lift (f a)) scopes := by
  have both := marks_bind (Q := fun _ => False) h (fun a after _ => marks_lift (f a)) fun _ _ => id
  apply marks_mono both
  rintro q (here | none)
  · exact here
  · cases none

/-- A lookup, and an action that can succeed only if something was found. -/
theorem marks_look {seek : Scopes ι → β} {found : β → Found} {f : β → Action ι α}
    (points : Visit.Points root ⟨place, found (seek scopes)⟩)
    (sure : ∀ b scopes a after, f b scopes = (.ok a, after) → found b ≠ .unbound) :
    Marks root (· = place) (look place seek found >>= fun b => lift (f b)) scopes := by
  have seen : (look place seek found >>= fun b => lift (f b)).visits scopes =
      [⟨place, found (seek scopes)⟩] := visits_bind_of_ok rfl
  constructor <;> rw [seen]
  · exact List.nodup_cons.mpr ⟨List.not_mem_nil, List.nodup_nil⟩
  · exact List.forall_mem_singleton.mpr rfl
  · exact List.forall_mem_singleton.mpr points
  · intro a after run
    exact List.forall_mem_singleton.mpr (sure (seek scopes) scopes a after run)

theorem marks_inScope {x : Watched ι α} (h : Marks root P x (Scope.empty :: scopes)) :
    Marks root P (inScope x) scopes where
  once := h.once
  within := h.within
  points := h.points
  found a after run := by
    have gives : Gives (x.visits (Scope.empty :: scopes)) (inScope x) scopes a after :=
      ⟨run, fun _ member => member⟩
    obtain ⟨last, inside, _⟩ := gives_inScope gives
    exact h.found a last inside

theorem marks_part {x : Watched ι α} (h : Marks root (Under (i :: place)) x scopes) :
    Marks root (From place i) x scopes :=
  marks_mono h fun _ below => ⟨i, Nat.le_refl i, below⟩

/-- One part, and then the parts after it. -/
theorem marks_then {x : Watched ι α} {f : α → Watched ι β}
    (first : Marks root (Under (i :: place)) x scopes)
    (next : ∀ a after, x.erase scopes = (.ok a, after) →
      Marks root (From place (i + 1)) (f a) after) :
    Marks root (From place i) (x >>= f) scopes := by
  apply marks_mono (marks_bind first next fun _ => not_from_of_under)
  rintro q (here | ⟨j, later, below⟩)
  · exact ⟨i, Nat.le_refl i, here⟩
  · exact ⟨j, by omega, below⟩

theorem marks_parts {x : Watched ι α} {f : α → Watched ι β} (leaves : Action.Leaves x.erase)
    (first : Marks root (Under (i :: place)) x scopes)
    (next : ∀ a, Marks root (From place (i + 1)) (f a) scopes) :
    Marks root (From place i) (x >>= f) scopes := by
  apply marks_then first
  intro a after run
  obtain rfl := Action.leaves_ok leaves run
  exact next a

theorem marks_deeper {x : Watched ι α} (h : Marks root (Under (i :: place)) x scopes) :
    Marks root (Under place) x scopes :=
  marks_mono h fun _ => (List.suffix_cons i place).trans

theorem marks_all {x : Watched ι α} (h : Marks root (From place i) x scopes) :
    Marks root (Under place) x scopes :=
  marks_mono h fun _ => under_of_from

/-- The parts, and then a lookup at the place itself. -/
theorem marks_here {x : Watched ι α} {f : α → Watched ι β} (leaves : Action.Leaves x.erase)
    (first : Marks root (From place i) x scopes)
    (next : ∀ a, Marks root (· = place) (f a) scopes) :
    Marks root (Under place) (x >>= f) scopes := by
  have after : ∀ a after, x.erase scopes = (.ok a, after) →
      Marks root (· = place) (f a) after := by
    intro a after run
    obtain rfl := Action.leaves_ok leaves run
    exact next a
  apply marks_mono (marks_bind first after fun _ => ne_of_from)
  rintro q (below | rfl)
  · exact under_of_from below
  · exact List.suffix_refl q

end Watched

namespace Expr

open Watched

variable {root : Part}

section Lookups

variable {openers : List Place} {place : Place} {Γ : Scopes Ty} {e : Expr} {name : String}
  {span : Option Span}

theorem marks_watchVar (housed : Housed root openers Γ)
    (here : root.follow place = some (.expr e)) (named : e.occurrence = some name) :
    Marks root (· = place) (watchVar openers place name span) Γ := by
  apply marks_look ⟨e, name, here, named, housed.declared_ofVar⟩
  intro spot scopes b after run
  cases spot with
  | some spot => nofun
  | none => cases run

theorem marks_watchAssign {got : Ty} {valueSpan : Option Span} (housed : Housed root openers Γ)
    (here : root.follow place = some (.expr e)) (named : e.occurrence = some name) :
    Marks root (· = place) (watchAssign openers place name span got valueSpan) Γ :=
  marks_quiet (marks_watchVar housed here named)

theorem marks_watchCall {types : List Ty} (housed : Housed root openers Γ)
    (here : root.follow place = some (.expr e)) (named : e.occurrence = some name) :
    Marks root (· = place) (watchCall openers place name types span) Γ := by
  apply marks_look ⟨e, name, here, named, housed.declared_ofCallee⟩
  intro callee scopes t after run
  cases callee with
  | fn spot => nofun
  | builtin b => nofun
  | unknown => cases run

end Lookups

mutual
theorem marks_watch : ∀ (e : Expr) (openers : List Place) (place : Place) {Γ : Scopes Ty},
    Housed root openers Γ → root.follow place = some (.expr e) →
      Marks root (Under place) (watch openers place e) Γ
  | literal v _, openers, place, Γ, housed, here => marks_lift _
  | var name span, openers, place, Γ, housed, here => by
    rw [watch]
    apply marks_mono (marks_quiet (marks_watchVar housed here rfl))
    rintro q rfl
    exact List.suffix_refl q
  | group body _, openers, place, Γ, housed, here => by
    rw [watch]
    have row := marks_watchAll body openers place 0 housed (along_of_parts here rfl)
    exact marks_all (marks_quiet row)
  | letIn vars fns body _, openers, place, Γ, housed, here => by
    have vars' := along_of_decls (Part.follow_cons here 0)
    have fns' := along_of_decls (Part.follow_cons here 1)
    have body' : Along root (2 :: place) 0 .expr body :=
      along_of_parts (Part.follow_cons here 2) rfl
    rw [watch]
    apply marks_inScope
    apply marks_all (i := 0)
    -- The scope of the let is filled step by step; the tree declares what it has at each of them.
    apply marks_then (marks_all (marks_watchVars vars openers place housed Scope.At.empty vars'))
    intro _ Θ checked
    rw [erase_watchVars] at checked
    obtain ⟨g, rfl, bare, declared⟩ := at_of_checkVars Scope.At.empty rfl vars' checked
    apply marks_lift_bind
    intro _ Λ run
    obtain rfl := fns_of_declareFns run
    have inside := housed.enter (declared.withFns bare fns')
    apply marks_parts (leaves_watchFns fns _ _ _)
    · exact marks_all (marks_watchFns fns _ (1 :: place) 0 inside fns')
    intro _
    apply marks_part
    exact marks_all (marks_quiet (marks_watchAll body _ (2 :: place) 0 inside body'))
  | assign name value nameSpan _, openers, place, Γ, housed, here => by
    rw [watch]
    have value' := marks_watch value openers (0 :: place) housed (Part.follow_cons here 0)
    apply marks_here (leaves_watch value _ _) (marks_part value')
    intro got
    exact marks_watchAssign housed here rfl
  | matchWith pattern value _, openers, place, Γ, housed, here => by
    have pattern' := Part.follow_cons here 0
    have value' := marks_watch value openers (1 :: place) housed (Part.follow_cons here 1)
    by_cases named : ∃ name nameSpan, pattern = var name nameSpan
    · obtain ⟨name, nameSpan, rfl⟩ := named
      rw [watch]
      apply marks_leaves_bind (Action.leaves_inspect _)
      intro _
      -- Here the value comes before the variable, which stands under the step before it.
      apply marks_mono (marks_bind value' (Q := (· = 0 :: place)) _ _)
      · rintro q (below | rfl)
        · exact (List.suffix_cons 1 place).trans below
        · exact List.suffix_cons 0 place
      · intro got after run
        obtain rfl := Action.leaves_ok (leaves_watch value _ _) run
        exact marks_quiet (marks_watchAssign housed pattern' rfl)
      · rintro q below rfl
        have same := eq_of_under below (List.suffix_refl (0 :: place))
        omega
    · have other : ∀ name nameSpan, pattern ≠ var name nameSpan := by
        intro name nameSpan same
        exact named ⟨name, nameSpan, same⟩
      rw [watch_matchWith other]
      apply marks_leaves_bind (Action.leaves_inspect _)
      intro _
      apply marks_all (i := 0)
      apply marks_parts (leaves_watch pattern _ _)
      · exact marks_watch pattern openers (0 :: place) housed pattern'
      intro expected
      exact marks_part (marks_quiet value')
  | call name args span, openers, place, Γ, housed, here => by
    rw [watch]
    apply marks_here (leaves_watchAll args _ _ _)
    · exact marks_watchAll args openers place 0 housed (along_of_parts here rfl)
    intro types
    exact marks_watchCall housed here rfl
  | ifElse cond whenTrue whenFalse _, openers, place, Γ, housed, here => by
    have last := marks_watch whenFalse openers (2 :: place) housed (Part.follow_cons here 2)
    rw [watch]
    apply marks_all (i := 0)
    apply marks_parts (leaves_watch cond _ _)
    · exact marks_watch cond openers (0 :: place) housed (Part.follow_cons here 0)
    intro c
    apply marks_leaves_bind (leaves_requireCondition _ _)
    intro _
    apply marks_parts (leaves_watch whenTrue _ _)
    · exact marks_watch whenTrue openers (1 :: place) housed (Part.follow_cons here 1)
    intro trueType
    exact marks_part (marks_quiet last)
  | whileDo cond body _, openers, place, Γ, housed, here => by
    have last := marks_watch body openers (1 :: place) housed (Part.follow_cons here 1)
    rw [watch]
    apply marks_all (i := 0)
    apply marks_parts (leaves_watch cond _ _)
    · exact marks_watch cond openers (0 :: place) housed (Part.follow_cons here 0)
    intro c
    apply marks_leaves_bind (leaves_requireCondition _ _)
    intro _
    exact marks_part (marks_quiet last)
  | forTo ⟨name, start, declSpan⟩ goal body _, openers, place, Γ, housed, here => by
    have vars := Part.follow_cons here 0
    have loop := Part.follow_cons vars 0
    have entered : Housed root (openers ++ [place]) (Scope.empty :: Γ) :=
      housed.enter Scope.At.empty
    have counting := housed.enter (Scope.At.empty.withVar Ty.integer loop)
    have start' := marks_watch start _ (0 :: 0 :: 0 :: place) entered (Part.follow_cons loop 0)
    rw [watch]
    apply marks_quiet
    apply marks_inScope
    apply marks_all (i := 0)
    apply marks_parts (leaves_watch start _ _) (marks_deeper (marks_deeper start'))
    intro s
    apply marks_leaves_bind (leaves_requireInteger _ _)
    intro _
    apply marks_parts (leaves_watch goal _ _)
    · exact marks_watch goal _ (1 :: place) entered (Part.follow_cons here 1)
    intro g
    apply marks_leaves_bind (leaves_requireInteger _ _)
    intro _
    apply marks_declareVar_bind
    apply marks_part
    exact marks_quiet (marks_watch body _ (2 :: place) counting (Part.follow_cons here 2))
  | binary left op right span, openers, place, Γ, housed, here => by
    have last := marks_watch right openers (1 :: place) housed (Part.follow_cons here 1)
    rw [watch]
    apply marks_all (i := 0)
    apply marks_parts (leaves_watch left _ _)
    · exact marks_watch left openers (0 :: place) housed (Part.follow_cons here 0)
    intro leftType
    exact marks_part (marks_quiet last)
  | unary op operand span, openers, place, Γ, housed, here => by
    rw [watch]
    have inside := marks_watch operand openers (0 :: place) housed (Part.follow_cons here 0)
    exact marks_deeper (marks_quiet inside)
  | cast operand target _, openers, place, Γ, housed, here => by
    rw [watch]
    have inside := marks_watch operand openers (0 :: place) housed (Part.follow_cons here 0)
    exact marks_deeper (marks_quiet inside)
  | array items (some element) elementSpan _, openers, place, Γ, housed, here => by
    rw [watch]
    have all := marks_watchAll items openers place 0 housed (along_of_parts here rfl)
    exact marks_all (marks_quiet all)
  | array items none _ span, openers, place, Γ, housed, here => by
    rw [watch]
    have all := marks_watchAll items openers place 0 housed (along_of_parts here rfl)
    exact marks_all (marks_quiet all)
  | tuple items _, openers, place, Γ, housed, here => by
    rw [watch]
    have all := marks_watchAll items openers place 0 housed (along_of_parts here rfl)
    exact marks_all (marks_quiet all)

theorem marks_watchAll : ∀ (es : List Expr) (openers : List Place) (place : Place) (index : Nat)
    {Γ : Scopes Ty}, Housed root openers Γ → Along root place index .expr es →
      Marks root (From place index) (watchAll openers place index es) Γ
  | [], openers, place, index, Γ, housed, along => marks_pure []
  | e :: es, openers, place, index, Γ, housed, along => by
    obtain ⟨first, rest⟩ := along_cons along
    rw [watchAll]
    apply marks_parts (leaves_watch e _ _) (marks_watch e openers (index :: place) housed first)
    intro t
    exact marks_quiet (marks_watchAll es openers place (index + 1) housed rest)

theorem marks_watchVars : ∀ (vars : List VarDecl) (openers : List Place) (place : Place)
    {Γ : Scopes Ty} {s : Scope Ty}, Housed root openers Γ → s.At root place →
      Along root (0 :: place) s.vars.length (fun d => .decl (.var d)) vars →
        Marks root (From (0 :: place) s.vars.length)
          (watchVars (openers ++ [place]) (0 :: place) s.vars.length vars) (s :: Γ)
  | [], openers, place, Γ, s, housed, here, along => marks_pure ()
  | ⟨name, value, span⟩ :: rest, openers, place, Γ, s, housed, here, along => by
    obtain ⟨first, others⟩ := along_cons along
    have value' := marks_watch value _ _ (housed.enter here) (Part.follow_cons first 0)
    rw [watchVars]
    apply marks_parts (leaves_watch value _ _) (marks_deeper value')
    intro t
    split
    · exact marks_lift_bind fun _ _ run => absurd run reject_ne_ok
    · apply marks_declareVar_bind
      have longer : (s.withVar (.var ⟨name, value, span⟩) t).vars.length = s.vars.length + 1 := by
        simp
      rw [← longer] at others ⊢
      exact marks_watchVars rest openers place housed (here.withVar t first) others

theorem marks_watchFn : ∀ (f : FnDecl) (openers : List Place) (place : Place) {Γ : Scopes Ty},
    Housed root openers Γ → root.follow place = some (.decl (.fn f)) →
      Marks root (Under place) (watchFn openers place f) Γ
  | ⟨name, args, result, body, span⟩, openers, place, Γ, housed, here => by
    have args' := along_of_decls (Part.follow_cons here 0)
    rw [watchFn]
    apply marks_quiet
    apply marks_inScope
    apply marks_lift_bind
    intro _ Θ run
    obtain ⟨g, rfl, declared⟩ := at_of_declareArgs Scope.At.empty args' run
    have body' := marks_watch body _ (1 :: place) (housed.enter declared) (Part.follow_cons here 1)
    exact marks_deeper (marks_quiet body')

theorem marks_watchFns : ∀ (fns : List FnDecl) (openers : List Place) (place : Place)
    (index : Nat) {Γ : Scopes Ty}, Housed root openers Γ →
      Along root place index (fun f => .decl (.fn f)) fns →
        Marks root (From place index) (watchFns openers place index fns) Γ
  | [], openers, place, index, Γ, housed, along => marks_pure ()
  | f :: fs, openers, place, index, Γ, housed, along => by
    obtain ⟨first, rest⟩ := along_cons along
    rw [watchFns]
    apply marks_parts (leaves_watchFn f _ _) (marks_watchFn f openers (index :: place) housed first)
    intro _
    exact marks_watchFns fs openers place (index + 1) housed rest
end

end Expr

theorem Tree.marks_watch : ∀ tree : Tree, Watched.Marks tree.part (Under []) tree.watch []
  | expr e => Expr.marks_watch e [] [] Opened.nil rfl
  | block body => by
    have here : (Part.body body).follow [] = some (.body body) := rfl
    have row := Expr.marks_watchAll body [] [] 0 Opened.nil (along_of_parts here rfl)
    exact Watched.marks_all (Watched.marks_quiet row)

end TypedLet
