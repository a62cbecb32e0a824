import TypedLet.Proofs.Environment.Carry
import TypedLet.Proofs.Environment.Lookup

/-
What a name stands for. One function goes outwards through the scopes to the first that
has the name, and says where that is and what is there. It does the lookups of the checker
and of the evaluator, and it says where an assignment writes. What it finds is recorded
with the place of the occurrence in the tree and with the place at which the tree declares
it. To know the place of a declaration one has to know which let, loop or function opened
each scope; these places, the openers, are listed outermost first, so that they are
numbered as the scopes are.
-/
namespace TypedLet

/-- A place in a tree: the numbers of the steps that lead to it, the last one first. -/
abbrev Place := List Nat

/-- Where a lookup ends: the scope, counted from the outermost one, the number of the
    declaration in the scope, and what is declared. -/
structure Spot (β : Type) where
  index : Nat
  number : Nat
  item : β

def Spot.map (f : β → γ) (spot : Spot β) : Spot γ := ⟨spot.index, spot.number, f spot.item⟩

def opener (openers : List Place) (index : Nat) : Place := openers.getD index []

/-- The place of the declaration: under a let, step 0 leads to the variables and step 1 to the
    functions. -/
def Spot.node (openers : List Place) (step : Nat) (spot : Spot β) : Place :=
  spot.number :: step :: opener openers spot.index

/-- There is an opener for each scope, and the property holds of every scope, with those outside
    of it, under the openers of just these. -/
structure Opened (F : List Place → Scope α → Scopes α → Prop) (openers : List Place)
    (scopes : Scopes α) : Prop where
  count : openers.length = scopes.length
  each : ∀ s outer, s :: outer <:+ scopes → F (openers.take (outer.length + 1)) s outer

theorem opener_concat {openers : List Place} {n : Nat} (count : openers.length = n)
    (place : Place) : opener (openers ++ [place]) n = place := by
  simp [opener, ← count]

theorem opener_take (openers : List Place) (n : Nat) :
    opener (openers.take (n + 1)) n = opener openers n := by
  rw [opener, opener, List.getD_eq_getElem?_getD, List.getD_eq_getElem?_getD,
    List.getElem?_take_of_succ]

namespace Opened

open Scopes

variable {F : List Place → Scope α → Scopes α → Prop} {openers : List Place} {scopes : Scopes α}

theorem nil : Opened F [] [] := by
  refine ⟨rfl, ?_⟩
  intro s outer below
  cases List.suffix_nil.mp below

theorem enter (h : Opened F openers scopes) {place : Place} {s : Scope α}
    (here : F (openers ++ [place]) s scopes) : Opened F (openers ++ [place]) (s :: scopes) := by
  have count : (openers ++ [place]).length = scopes.length + 1 := by
    rw [List.length_append, h.count]
    rfl
  refine ⟨count, ?_⟩
  intro t outer below
  rcases List.suffix_cons_iff.mp below with top | under
  · cases top
    rwa [← count, List.take_length]
  · have lower : outer.length + 1 ≤ openers.length := h.count ▸ under.length_le
    rw [List.take_append_of_le_length lower]
    exact h.each t outer under

theorem replace {s t : Scope α} (h : Opened F openers (s :: scopes))
    (here : F openers s scopes → F openers t scopes) : Opened F openers (t :: scopes) := by
  refine ⟨h.count, ?_⟩
  intro u outer below
  rcases List.suffix_cons_iff.mp below with top | under
  · cases top
    have all : openers.take (scopes.length + 1) = openers :=
      List.take_of_length_le (Nat.le_of_eq h.count)
    have first := h.each s scopes (List.suffix_refl _)
    rw [all] at first ⊢
    exact here first
  · exact h.each u outer (under.trans (List.suffix_cons s scopes))

theorem outermost (h : Opened F openers scopes) {depth : Nat} (le : depth ≤ scopes.length) :
    Opened F (openers.take depth) (scopes.outermost depth) := by
  have tall := length_outermost scopes depth le
  refine ⟨?_, ?_⟩
  · rw [tall, List.length_take, h.count]
    omega
  · intro s outer below
    have lower : outer.length + 1 ≤ depth := tall ▸ below.length_le
    rw [List.take_take, Nat.min_eq_left lower]
    exact h.each s outer (below.trans (List.drop_suffix _ _))

theorem of_cut (h : Opened F openers scopes) {index : Nat} {s : Scope α} {outer : Scopes α}
    (cut : scopes.outermost (index + 1) = s :: outer) (count : outer.length = index) :
    F (openers.take (index + 1)) s outer := by
  subst count
  exact h.each s outer (cut ▸ List.drop_suffix _ _)

end Opened

inductive Found where
  | var (index : Nat) (node : Place) (decl : Declaration)
  | fn (index : Nat) (node : Place) (decl : FnDecl)
  | builtin (b : Builtin)
  | unbound

structure Visit where
  place : Place
  found : Found

inductive Callee where
  | fn (spot : Spot FnDecl)
  | builtin (b : Builtin)
  | unknown

def Found.ofVar (openers : List Place) : Option (Spot (Binding α)) → Found
  | some spot => .var spot.index (spot.node openers 0) spot.item.decl
  | none => .unbound

def Found.ofCallee (openers : List Place) : Callee → Found
  | .fn spot => .fn spot.index (spot.node openers 1) spot.item
  | .builtin b => .builtin b
  | .unknown => .unbound

namespace Scopes

/-- Goes outwards to the first scope that has what is looked for. -/
def locate (find : Scope α → Option β) (number : Scope α → Nat) : Scopes α → Option (Spot β)
  | [] => none
  | s :: outer =>
    match find s with
    | some item => some ⟨outer.length, number s, item⟩
    | none => locate find number outer

def locateVar (name : String) : Scopes α → Option (Spot (Binding α)) :=
  locate (·.findVar name) (·.varNames.idxOf name)

def locateFn (name : String) : Scopes α → Option (Spot FnDecl) :=
  locate (·.findFn name) (·.fnNames.idxOf name)

def callee (name : String) (scopes : Scopes α) : Callee :=
  match scopes.locateFn name with
  | some spot => .fn spot
  | none =>
    match Builtin.find? name with
    | some b => .builtin b
    | none => .unknown

def put (index : Nat) (name : String) (info : α) : Scopes α → Scopes α
  | [] => []
  | s :: outer =>
    if outer.length = index then s.setVar name info :: outer else s :: put index name info outer

section

variable {find : Scope α → Option β} {number : Scope α → Nat} {scopes : Scopes α}
  {name : String} {info : α}

theorem locate_of_some {s : Scope α} {item : β} (here : find s = some item) (outer : Scopes α) :
    locate find number (s :: outer) = some ⟨outer.length, number s, item⟩ := by
  rw [locate, here]

theorem locate_of_none {s : Scope α} (here : find s = none) (outer : Scopes α) :
    locate find number (s :: outer) = locate find number outer := by
  rw [locate, here]

theorem locate_cut {spot : Spot β} (found : locate find number scopes = some spot) :
    ∃ s outer, outermost scopes (spot.index + 1) = s :: outer ∧ outer.length = spot.index ∧
      find s = some spot.item ∧ number s = spot.number := by
  induction scopes with
  | nil => cases found
  | cons s outer ih =>
    cases here : find s with
    | some item =>
      rw [locate_of_some here] at found
      cases found
      exact ⟨s, outer, outermost_all (s :: outer), rfl, here, rfl⟩
    | none =>
      rw [locate_of_none here] at found
      obtain ⟨t, rest, cut, count, has, numbered⟩ := ih found
      have fits : spot.index + 1 ≤ outer.length := by
        have tall := congrArg List.length cut
        rw [outermost, List.length_drop, List.length_cons] at tall
        omega
      refine ⟨t, rest, ?_, count, has, numbered⟩
      rw [outermost_of_le s outer _ fits, cut]

theorem index_lt_of_locate {spot : Spot β} (found : locate find number scopes = some spot) :
    spot.index < scopes.length := by
  obtain ⟨s, outer, cut, count, _⟩ := locate_cut found
  have tall := congrArg List.length cut
  rw [outermost, List.length_drop, List.length_cons] at tall
  omega

theorem getElem?_idxOf_of_find? {named : β → String} {xs : List β} {x : β}
    (found : xs.find? (named · = name) = some x) : xs[(xs.map named).idxOf name]? = some x := by
  induction xs with
  | nil => cases found
  | cons y ys ih =>
    rw [List.map_cons, List.idxOf_cons]
    by_cases same : named y = name
    · rw [List.find?_cons_of_pos (by simpa using same)] at found
      simpa [same] using found
    · rw [List.find?_cons_of_neg (by simpa using same)] at found
      have other : (named y == name) = false := by simpa using same
      rw [other]
      exact ih found

/-- The variable that is found is the one of that number in the scope of that index. -/
theorem locateVar_cut {spot : Spot (Binding α)} (found : scopes.locateVar name = some spot) :
    ∃ s outer, outermost scopes (spot.index + 1) = s :: outer ∧ outer.length = spot.index ∧
      s.findVar name = some spot.item ∧ s.vars[spot.number]? = some spot.item := by
  obtain ⟨s, outer, cut, count, has, numbered⟩ := locate_cut found
  refine ⟨s, outer, cut, count, has, ?_⟩
  rw [← numbered]
  exact getElem?_idxOf_of_find? has

theorem locateFn_cut {spot : Spot FnDecl} (found : scopes.locateFn name = some spot) :
    ∃ s outer, outermost scopes (spot.index + 1) = s :: outer ∧ outer.length = spot.index ∧
      s.findFn name = some spot.item ∧ s.fns[spot.number]? = some spot.item := by
  obtain ⟨s, outer, cut, count, has, numbered⟩ := locate_cut found
  refine ⟨s, outer, cut, count, has, ?_⟩
  rw [← numbered]
  rw [Scope.fnNames_eq]
  exact getElem?_idxOf_of_find? (s.findFn_eq name ▸ has)

theorem findVar_eq_locate : findVar name scopes = (scopes.locateVar name).map (·.item) := by
  induction scopes with
  | nil => rfl
  | cons s outer ih =>
    rw [findVar, locateVar, locate]
    cases s.findVar name with
    | some b => rfl
    | none => exact ih

theorem resolveFn_eq_locate :
    resolveFn name scopes = (scopes.locateFn name).map fun spot => (spot.item, spot.index + 1) := by
  induction scopes with
  | nil => rfl
  | cons s outer ih =>
    rw [resolveFn, locateFn, locate]
    cases s.findFn name with
    | some f => rfl
    | none => exact ih

/-- An assignment writes where the lookup of the name ends. -/
theorem assign?_eq_locate :
    assign? name info scopes = (scopes.locateVar name).map fun spot =>
      scopes.put spot.index name info := by
  induction scopes with
  | nil => rfl
  | cons s outer ih =>
    rw [assign?]
    cases here : s.findVar name with
    | some b =>
      have spot : locateVar name (s :: outer) = some ⟨outer.length, s.varNames.idxOf name, b⟩ :=
        locate_of_some here outer
      simp [spot, put]
    | none =>
      have further : locateVar name (s :: outer) = locateVar name outer := locate_of_none here outer
      dsimp only
      rw [ih, further, Option.map_map]
      apply Option.map_congr
      intro spot found
      have below := index_lt_of_locate found
      rw [put, if_neg (Nat.ne_of_gt below)]
      rfl

theorem locate_mapInfo {g : α → α'} {h : β → β'} {find' : Scope α' → Option β'}
    {number' : Scope α' → Nat} (finds : ∀ s, find' (s.mapInfo g) = (find s).map h)
    (numbers : ∀ s, number' (s.mapInfo g) = number s) :
    locate find' number' (mapInfo g scopes) = (locate find number scopes).map (Spot.map h) := by
  induction scopes with
  | nil => rfl
  | cons s outer ih =>
    rw [mapInfo_cons, locate, locate, finds, numbers, length_mapInfo]
    cases find s with
    | some item => rfl
    | none => exact ih

end

section

variable {openers : List Place} {name : String}

theorem locateVar_mapInfo (g : α → β) (scopes : Scopes α) :
    (mapInfo g scopes).locateVar name =
      (scopes.locateVar name).map (Spot.map (Binding.mapInfo g)) :=
  locate_mapInfo (fun s => s.findVar_mapInfo name) fun s => by rw [Scope.varNames_mapInfo]

theorem locateFn_mapInfo (g : α → β) (scopes : Scopes α) :
    (mapInfo g scopes).locateFn name = scopes.locateFn name := by
  have same : (mapInfo g scopes).locateFn name = (scopes.locateFn name).map (Spot.map id) :=
    locate_mapInfo (fun s => (congrFun Option.map_id (s.findFn name)).symm) fun _ => rfl
  rw [same]
  exact congrFun Option.map_id (scopes.locateFn name)

theorem ofVar_mapInfo (g : α → β) (found : Option (Spot (Binding α))) :
    Found.ofVar openers (found.map (Spot.map (Binding.mapInfo g))) = Found.ofVar openers found := by
  cases found <;> rfl

theorem foundVar_of_outline {scopes : Scopes α} {scopes' : Scopes β}
    (same : outline scopes = outline scopes') :
    Found.ofVar openers (scopes.locateVar name) = Found.ofVar openers (scopes'.locateVar name) := by
  rw [← ofVar_mapInfo (fun _ => ()), ← ofVar_mapInfo (fun _ => ()) (scopes'.locateVar name),
    ← locateVar_mapInfo, ← locateVar_mapInfo]
  exact congrArg (fun s => Found.ofVar openers (Scopes.locateVar name s)) same

theorem locateFn_of_outline {scopes : Scopes α} {scopes' : Scopes β}
    (same : outline scopes = outline scopes') : scopes.locateFn name = scopes'.locateFn name := by
  rw [← locateFn_mapInfo (fun _ => ()) scopes, ← locateFn_mapInfo (fun _ => ()) scopes']
  exact congrArg (Scopes.locateFn name) same

theorem callee_of_outline {scopes : Scopes α} {scopes' : Scopes β}
    (same : outline scopes = outline scopes') : scopes.callee name = scopes'.callee name := by
  rw [callee, callee, locateFn_of_outline same]

end

end Scopes
end TypedLet
