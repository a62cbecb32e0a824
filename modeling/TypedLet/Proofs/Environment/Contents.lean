import TypedLet.Proofs.Environment.Carry
import TypedLet.Proofs.Environment.Lookup

/-
What scopes hold. A variable counts by its name and what it carries; what else its
declaration says is only there for messages. Two stacks with the same contents answer every
lookup alike and take every change alike. Together with the declarations the contents are
all that there is.
-/
namespace TypedLet

def Binding.content (b : Binding α) : String × α := (b.name, b.info)

def Scope.contents (s : Scope α) : List (String × α) × List FnDecl :=
  (s.vars.map Binding.content, s.fns)

theorem Binding.eq_of_contents : ∀ {vars vars' : List (Binding α)},
    vars.map content = vars'.map content →
      vars.map (·.mapInfo fun _ => ()) = vars'.map (·.mapInfo fun _ => ()) → vars = vars' := by
  intro vars
  induction vars with
  | nil =>
    intro vars' held _
    exact (List.map_eq_nil_iff.mp held.symm).symm
  | cons b rest ih =>
    intro vars' held declared
    cases vars' with
    | nil => cases held
    | cons b' rest' =>
      obtain ⟨first, others⟩ := List.cons.inj held
      obtain ⟨top, below⟩ := List.cons.inj declared
      have carried : b.info = b'.info := congrArg Prod.snd first
      have declaration : b.decl = b'.decl := (Binding.mk.inj top).2.1
      rw [ih others below, Binding.ext_decl declaration carried]

namespace Scope

variable {s s' : Scope α}

theorem map_content_findVar (s : Scope α) (name : String) :
    (s.findVar name).map Binding.content =
      (s.vars.map Binding.content).find? (·.1 = name) := by
  simp only [findVar, List.find?_map]
  rfl

theorem findVar_of_contents (same : s.contents = s'.contents) (name : String) :
    (s.findVar name = none ∧ s'.findVar name = none) ∨
      ∃ b b', s.findVar name = some b ∧ s'.findVar name = some b' ∧ b.info = b'.info := by
  have held : s.vars.map Binding.content = s'.vars.map Binding.content := congrArg Prod.fst same
  have alike := map_content_findVar s name
  rw [held, ← map_content_findVar s'] at alike
  cases here : s.findVar name with
  | none =>
    cases there : s'.findVar name with
    | none => exact .inl ⟨rfl, rfl⟩
    | some b' => simp [here, there] at alike
  | some b =>
    cases there : s'.findVar name with
    | none => simp [here, there] at alike
    | some b' =>
      rw [here, there] at alike
      exact .inr ⟨b, b', rfl, rfl, congrArg Prod.snd (Option.some.inj alike)⟩

theorem findFn_of_contents (same : s.contents = s'.contents) (name : String) :
    s.findFn name = s'.findFn name := by
  have fns : s.fns = s'.fns := congrArg Prod.snd same
  rw [findFn_eq, findFn_eq, fns]

theorem contents_setVar (s : Scope α) (name : String) (a : α) :
    (s.setVar name a).contents =
      (s.contents.1.map fun c => if c.1 = name then (c.1, a) else c, s.contents.2) := by
  rw [contents, fns_setVar]
  refine congrArg (·, s.fns) ?_
  simp only [contents, setVar, List.map_map]
  apply List.map_congr_left
  intro b _
  change Binding.content (if b.name = name then _ else b) = if b.name = name then _ else _
  split <;> rfl

theorem eq_of_contents (same : s.contents = s'.contents)
    (look : s.mapInfo (fun _ => ()) = s'.mapInfo fun _ => ()) : s = s' := by
  have held : s.vars.map Binding.content = s'.vars.map Binding.content := congrArg Prod.fst same
  have declared : s.vars.map (·.mapInfo fun _ => ()) = s'.vars.map (·.mapInfo fun _ => ()) :=
    congrArg Scope.vars look
  exact ext_fns (Binding.eq_of_contents held declared) (congrArg Prod.snd same)

end Scope

namespace Scopes

def contents (scopes : Scopes α) : List (List (String × α) × List FnDecl) :=
  List.map Scope.contents scopes

@[simp] theorem contents_cons (s : Scope α) (outer : Scopes α) :
    contents (s :: outer) = s.contents :: contents outer := rfl

@[simp] theorem contents_append (inner outer : Scopes α) :
    contents (inner ++ outer) = contents inner ++ contents outer := List.map_append

variable {scopes scopes' : Scopes α} {name : String}

theorem length_of_contents (same : contents scopes = contents scopes') :
    scopes.length = scopes'.length := by
  have count := congrArg List.length same
  rwa [contents, contents, List.length_map, List.length_map] at count

theorem uncons_of_contents {s : Scope α} {outer : Scopes α}
    (same : contents (s :: outer) = contents scopes') :
    ∃ s' outer', scopes' = s' :: outer' ∧ s.contents = s'.contents ∧
      contents outer = contents outer' := by
  cases scopes' with
  | nil => cases same
  | cons s' outer' =>
    obtain ⟨first, others⟩ := List.cons.inj same
    exact ⟨s', outer', rfl, first, others⟩

theorem outermost_of_contents (same : contents scopes = contents scopes') (depth : Nat) :
    contents (outermost scopes depth) = contents (outermost scopes' depth) := by
  have cut := congrArg (List.drop (scopes.length - depth)) same
  rw [outermost, outermost, ← length_of_contents same]
  simpa [contents] using cut

theorem innermost_of_contents (same : contents scopes = contents scopes') (depth : Nat) :
    contents (innermost scopes depth) = contents (innermost scopes' depth) := by
  have cut := congrArg (List.take (scopes.length - depth)) same
  rw [innermost, innermost, ← length_of_contents same]
  simpa [contents] using cut

theorem findVar_of_contents (name : String) : ∀ {scopes scopes' : Scopes α},
    contents scopes = contents scopes' →
      (findVar name scopes = none ∧ findVar name scopes' = none) ∨
        ∃ b b', findVar name scopes = some b ∧ findVar name scopes' = some b' ∧
          b.info = b'.info := by
  intro scopes
  induction scopes with
  | nil =>
    intro scopes' same
    obtain rfl := List.map_eq_nil_iff.mp same.symm
    exact .inl ⟨rfl, rfl⟩
  | cons s outer ih =>
    intro scopes' same
    obtain ⟨s', outer', rfl, first, others⟩ := uncons_of_contents same
    rw [findVar, findVar]
    rcases Scope.findVar_of_contents first name with ⟨here, there⟩ | ⟨b, b', here, there, held⟩
    · rw [here, there]
      exact ih others
    · rw [here, there]
      exact .inr ⟨b, b', rfl, rfl, held⟩

theorem resolveFn_of_contents (name : String) : ∀ {scopes scopes' : Scopes α},
    contents scopes = contents scopes' → resolveFn name scopes = resolveFn name scopes' := by
  intro scopes
  induction scopes with
  | nil =>
    intro scopes' same
    obtain rfl := List.map_eq_nil_iff.mp same.symm
    rfl
  | cons s outer ih =>
    intro scopes' same
    obtain ⟨s', outer', rfl, first, others⟩ := uncons_of_contents same
    rw [resolveFn, resolveFn, Scope.findFn_of_contents first, length_of_contents others, ih others]

theorem assign?_of_contents (name : String) (a : α) : ∀ {scopes scopes' : Scopes α},
    contents scopes = contents scopes' →
      (assign? name a scopes = none ∧ assign? name a scopes' = none) ∨
        ∃ after after', assign? name a scopes = some after ∧
          assign? name a scopes' = some after' ∧ contents after = contents after' := by
  intro scopes
  induction scopes with
  | nil =>
    intro scopes' same
    obtain rfl := List.map_eq_nil_iff.mp same.symm
    exact .inl ⟨rfl, rfl⟩
  | cons s outer ih =>
    intro scopes' same
    obtain ⟨s', outer', rfl, first, others⟩ := uncons_of_contents same
    rw [assign?, assign?]
    rcases Scope.findVar_of_contents first name with ⟨here, there⟩ | ⟨b, b', here, there, _⟩
    · rw [here, there]
      rcases ih others with ⟨none, none'⟩ | ⟨rest, rest', run, run', related⟩
      · exact .inl ⟨by rw [none]; rfl, by rw [none']; rfl⟩
      · refine .inr ⟨s :: rest, s' :: rest', by rw [run]; rfl, by rw [run']; rfl, ?_⟩
        rw [contents_cons, contents_cons, first, related]
    · rw [here, there]
      refine .inr ⟨_, _, rfl, rfl, ?_⟩
      rw [contents_cons, contents_cons, Scope.contents_setVar, Scope.contents_setVar, first, others]

theorem eq_of_contents (same : contents scopes = contents scopes')
    (look : outline scopes = outline scopes') : scopes = scopes' := by
  induction scopes generalizing scopes' with
  | nil => exact (List.map_eq_nil_iff.mp same.symm).symm
  | cons s outer ih =>
    obtain ⟨s', outer', rfl, first, others⟩ := uncons_of_contents same
    obtain ⟨top, below⟩ := List.cons.inj look
    rw [Scope.eq_of_contents first top, ih others below]

end Scopes
end TypedLet
