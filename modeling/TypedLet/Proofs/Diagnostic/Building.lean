import TypedLet.Proofs.Diagnostic.Labels

/-
Building a diagnostic. Steps come in any order and number, and any of them may lack its span. A
primary step replaces the label in front, and the other steps add at the end. Main statement:
what a diagnostic holds, given the steps it was built in.
-/
namespace TypedLet.Diagnostic

def label? (span : Option Span) (message : String) (isPrimary : Bool) : Option Label :=
  span.map fun s => ⟨s, message, isPrimary⟩

/-- The primary label, for a primary step: no label if the step has no span. -/
def Step.primary? : Step → Option (Option Label)
  | primary span message => some (label? span message true)
  | _ => none

def Step.secondary? : Step → Option Label
  | secondary span message => label? span message false
  | _ => none

def Step.note? : Step → Option String
  | note text => some text
  | _ => none

def Step.help? : Step → Option String
  | help text => some text
  | _ => none

/-- The primary label of the last primary step, and `first` where there is no such step. -/
def lastPrimary (first : Option Label) (steps : List Step) : Option Label :=
  (steps.filterMap Step.primary?).getLast?.getD first

structure Arranged (primary : Option Label) (secondary : List Label) (notes helps : List String)
    (d : Diagnostic) : Prop where
  labels : d.labels = primary.toList ++ secondary
  front : ∀ l ∈ primary.toList, l.isPrimary = true
  others : ∀ l ∈ secondary, l.isPrimary = false
  notes : d.notes = notes
  helps : d.helps = helps

theorem toList_label? (span : Option Span) (message : String) (isPrimary : Bool) :
    (label? span message isPrimary).toList = labelAt span message isPrimary := by
  cases span <;> rfl

theorem isPrimary_of_mem_label? {span : Option Span} {message : String} {isPrimary : Bool}
    {l : Label} (member : l ∈ (label? span message isPrimary).toList) :
    l.isPrimary = isPrimary := by
  rw [toList_label?] at member
  exact (mem_labelAt member).2

theorem filterMap_cons_toList (f : Step → Option α) (s : Step) (steps : List Step) :
    (s :: steps).filterMap f = (f s).toList ++ steps.filterMap f := by
  cases read : f s <;> simp [read]

theorem lastPrimary_cons (first : Option Label) (s : Step) (steps : List Step) :
    lastPrimary first (s :: steps) = lastPrimary (s.primary?.getD first) steps := by
  rw [lastPrimary, lastPrimary, filterMap_cons_toList, List.getLast?_append]
  cases (steps.filterMap Step.primary?).getLast? with
  | some label => rfl
  | none => cases s.primary? <;> rfl

variable {primary : Option Label} {secondary : List Label} {notes helps : List String}
  {d : Diagnostic}

theorem Arranged.filter_primary (arranged : Arranged primary secondary notes helps d) :
    d.labels.filter (·.isPrimary) = primary.toList := by
  have front : primary.toList.filter (·.isPrimary) = primary.toList :=
    List.filter_eq_self.mpr arranged.front
  have none : secondary.filter (·.isPrimary) = [] := by
    apply List.filter_eq_nil_iff.mpr
    intro l member
    rw [arranged.others l member]
    exact Bool.false_ne_true
  rw [arranged.labels, List.filter_append, front, none, List.append_nil]

theorem Arranged.primary?_eq (arranged : Arranged primary secondary notes helps d) :
    d.primary? = primary := by
  rw [primary?, ← List.head?_filter, arranged.filter_primary]
  cases primary <;> rfl

theorem Arranged.secondary_eq (arranged : Arranged primary secondary notes helps d) :
    d.secondary = secondary := by
  have none : primary.toList.filter (!·.isPrimary) = [] := by
    apply List.filter_eq_nil_iff.mpr
    intro l member
    simp [arranged.front l member]
  have others : secondary.filter (!·.isPrimary) = secondary := by
    apply List.filter_eq_self.mpr
    intro l member
    simp [arranged.others l member]
  rw [Diagnostic.secondary, arranged.labels, List.filter_append, none, others, List.nil_append]

/-- Each step keeps the arrangement. Only a primary step touches the label in front, and it
    leaves those behind it in their order. -/
theorem Arranged.take (arranged : Arranged primary secondary notes helps d) (s : Step) :
    Arranged (s.primary?.getD primary) (secondary ++ s.secondary?.toList)
      (notes ++ s.note?.toList) (helps ++ s.help?.toList) (d.take s) := by
  have kept := arranged.secondary_eq
  obtain ⟨labels, front, others, rfl, rfl⟩ := arranged
  have same : ∀ {α : Type} (xs : List α), xs = xs ++ [] := fun xs => (List.append_nil xs).symm
  cases s with
  | primary span message =>
    have replaced : labelAt span message true ++ d.secondary =
        (label? span message true).toList ++ (secondary ++ []) := by
      rw [toList_label?, kept, List.append_nil]
    exact ⟨replaced, fun _ => isPrimary_of_mem_label?, same secondary ▸ others,
      same d.notes, same d.helps⟩
  | secondary span message =>
    have added : d.labels ++ labelAt span message false =
        primary.toList ++ (secondary ++ (label? span message false).toList) := by
      rw [toList_label?, labels, List.append_assoc]
    exact ⟨added, front, List.forall_mem_append.mpr ⟨others, fun _ => isPrimary_of_mem_label?⟩,
      same d.notes, same d.helps⟩
  | note text =>
    exact ⟨same secondary ▸ labels, front, same secondary ▸ others, rfl, same d.helps⟩
  | help text =>
    exact ⟨same secondary ▸ labels, front, same secondary ▸ others, same d.notes, rfl⟩

theorem Arranged.foldl (steps : List Step) (arranged : Arranged primary secondary notes helps d) :
    Arranged (lastPrimary primary steps) (secondary ++ steps.filterMap Step.secondary?)
      (notes ++ steps.filterMap Step.note?) (helps ++ steps.filterMap Step.help?)
      (steps.foldl Diagnostic.take d) := by
  induction steps generalizing primary secondary notes helps d with
  | nil => simpa [lastPrimary] using arranged
  | cons s steps ih =>
    have next := ih (arranged.take s)
    rw [lastPrimary_cons, filterMap_cons_toList, filterMap_cons_toList, filterMap_cons_toList,
      ← List.append_assoc, ← List.append_assoc, ← List.append_assoc]
    exact next

theorem arranged_start (code : String) (severity : Severity) (message : String)
    (span : Option Span) :
    Arranged (label? span "" true) [] [] [] (start code severity message span) where
  labels := by
    rw [List.append_nil, toList_label?]
    rfl
  front _ := isPrimary_of_mem_label?
  others := List.forall_mem_nil _
  notes := rfl
  helps := rfl

/-- Whatever the steps were, there is at most one primary label, and it is the first label: that
    of the last primary step, which is none if that step had no span, and the one from the start
    only where there was no primary step. Behind it come the labels of the secondary steps that
    had a span, and these, the notes and the helps are in the order of their steps. -/
theorem build_arranged (code : String) (severity : Severity) (message : String)
    (span : Option Span) (steps : List Step) :
    let d := build code severity message span steps
    let primary := lastPrimary (label? span "" true) steps
    d.labels = primary.toList ++ steps.filterMap Step.secondary? ∧
      d.labels.filter (·.isPrimary) = primary.toList ∧
      d.primary? = primary ∧
      d.secondary = steps.filterMap Step.secondary? ∧
      d.notes = steps.filterMap Step.note? ∧
      d.helps = steps.filterMap Step.help? := by
  intro d primary
  have built : Arranged primary (steps.filterMap Step.secondary?) (steps.filterMap Step.note?)
      (steps.filterMap Step.help?) d := (arranged_start code severity message span).foldl steps
  exact ⟨built.labels, built.filter_primary, built.primary?_eq, built.secondary_eq, built.notes,
    built.helps⟩

/-- A primary step without a span takes the label from the start away. -/
example (here there : Span) :
    let d := build "E0101" .error "" (some here) [.secondary (some there) "there", .primary none ""]
    d.labels = [⟨there, "there", false⟩] := rfl

end TypedLet.Diagnostic
