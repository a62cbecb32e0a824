import TypedLet.Proofs.Checking.Leaves
import TypedLet.Proofs.Environment.Lookup

/-
What is accepted, form by form. An expression has a type under some scopes when
checking it there gives the type; each law says for one form which types its parts
must have.
-/
namespace TypedLet
namespace Action

theorem pure_ok_iff {a b : α} {scopes after : Scopes ι} :
    (Pure.pure a : Action ι α) scopes = (.ok b, after) ↔ a = b ∧ after = scopes := by
  change (Except.ok a, scopes) = (Except.ok b, after) ↔ _
  simp only [Prod.mk.injEq, Except.ok.injEq]
  exact and_congr_right fun _ => eq_comm

theorem inspect_ok_iff {f : Scopes ι → Except Error α} {a : α} {scopes after : Scopes ι} :
    inspect f scopes = (.ok a, after) ↔ f scopes = .ok a ∧ after = scopes := by
  unfold inspect
  simp only [Prod.mk.injEq]
  exact and_congr_right fun _ => eq_comm

theorem update_ok_iff {f : Scopes ι → Except Error (Scopes ι)} {u : Unit}
    {scopes after : Scopes ι} : update f scopes = (.ok u, after) ↔ f scopes = .ok after := by
  unfold update
  cases f scopes <;> simp

theorem fail_ne_ok {e : Error} {a : α} {scopes after : Scopes ι} :
    (fail e : Action ι α) scopes ≠ (.ok a, after) := by
  intro same
  cases same

theorem leaves_ok {x : Action ι α} (h : Leaves x) {scopes after : Scopes ι} {a : α}
    (run : x scopes = (.ok a, after)) : after = scopes := by
  have same := h scopes
  rw [run] at same
  exact same

theorem ok_of_fst {x : Action ι α} (h : Leaves x) {scopes : Scopes ι} {a : α}
    (run : (x scopes).1 = .ok a) : x scopes = (.ok a, scopes) :=
  Prod.ext run (h scopes)

theorem leaves_bind_ok_iff {x : Action ι α} (h : Leaves x) {f : α → Action ι β}
    {scopes after : Scopes ι} {b : β} :
    (x >>= f) scopes = (.ok b, after) ↔
      ∃ a, x scopes = (.ok a, scopes) ∧ f a scopes = (.ok b, after) := by
  rw [bind_ok_iff]
  constructor
  · rintro ⟨a, middle, first, next⟩
    obtain rfl := leaves_ok h first
    exact ⟨a, first, next⟩
  · rintro ⟨a, first, next⟩
    exact ⟨a, scopes, first, next⟩

end Action

namespace Expr

open TypedLet.Action Scopes

variable {Γ Δ : Scopes Ty} {t : Ty}

def Infers (Γ : Scopes Ty) (e : Expr) (t : Ty) : Prop := e.infer Γ = (.ok t, Γ)

def InfersAll (Γ : Scopes Ty) (es : List Expr) (ts : List Ty) : Prop :=
  inferAll es Γ = (.ok ts, Γ)

/-- The body has the declared result under the declared arguments. -/
def FnChecks (Γ : Scopes Ty) (f : FnDecl) : Prop := ∃ t, checkFn f Γ = (.ok t, Γ)

theorem infers_iff {e : Expr} : Infers Γ e t ↔ (e.infer Γ).1 = .ok t :=
  ⟨fun h => congrArg Prod.fst h, fun h => ok_of_fst (leaves_infer e) h⟩

theorem infer_bind_ok_iff {e : Expr} {f : Ty → Check β} {b : β} :
    (e.infer >>= f) Γ = (.ok b, Δ) ↔ ∃ t, Infers Γ e t ∧ f t Γ = (.ok b, Δ) :=
  leaves_bind_ok_iff (leaves_infer e)

theorem inferAll_bind_ok_iff {es : List Expr} {f : List Ty → Check β} {b : β} :
    (inferAll es >>= f) Γ = (.ok b, Δ) ↔ ∃ ts, InfersAll Γ es ts ∧ f ts Γ = (.ok b, Δ) :=
  leaves_bind_ok_iff (leaves_inferAll es)

theorem reject_ne_ok {cause : TypeError} {span : Option Span} {a : α} :
    (reject cause span : Check α) Γ ≠ (.ok a, Δ) := fail_ne_ok

theorem requireCondition_ok_iff {c : Ty} {span : Option Span} {u : Unit} :
    requireCondition c span Γ = (.ok u, Δ) ↔ c.isCondition = true ∧ Δ = Γ := by
  unfold requireCondition
  split
  · next yes => simp [pure_ok_iff, yes]
  · next no => simp [reject_ne_ok, no]

theorem requireInteger_ok_iff {c : Ty} {span : Option Span} {u : Unit} :
    requireInteger c span Γ = (.ok u, Δ) ↔ c = .integer ∧ Δ = Γ := by
  unfold requireInteger
  split
  · next yes => simp [pure_ok_iff, yes]
  · next no => simp [reject_ne_ok, no]

theorem lookupVar_ok_iff {name : String} {span : Option Span} {b : Binding Ty} :
    lookupVar Γ name span = .ok b ↔ findVar name Γ = some b := by
  unfold lookupVar
  cases findVar name Γ <;> simp

theorem inferAssign_ok_iff {name : String} {nameSpan valueSpan : Option Span} {got : Ty} :
    inferAssign name nameSpan got valueSpan Γ = (.ok t, Δ) ↔
      (∃ b, findVar name Γ = some b ∧ b.info = got) ∧ t = got ∧ Δ = Γ := by
  unfold inferAssign
  rw [leaves_bind_ok_iff (leaves_inspect _)]
  simp only [inspect_ok_iff, lookupVar_ok_iff, and_true]
  constructor
  · rintro ⟨b, found, next⟩
    split at next
    · next same =>
      obtain ⟨rfl, rfl⟩ := pure_ok_iff.mp next
      exact ⟨⟨b, found, same⟩, rfl, rfl⟩
    · exact absurd next reject_ne_ok
  · rintro ⟨⟨b, found, same⟩, rfl, rfl⟩
    exact ⟨b, found, by rw [if_pos same]; rfl⟩

theorem inferBuiltin_ok_iff {b : Builtin} {types : List Ty} {span : Option Span} :
    inferBuiltin b types span Γ = (.ok t, Δ) ↔ b.resultFor types = some t ∧ Δ = Γ := by
  unfold inferBuiltin
  cases b.resultFor types with
  | some result => simp [pure_ok_iff]
  | none => simp [reject_ne_ok]

def CallGives (Γ : Scopes Ty) (name : String) (types : List Ty) (t : Ty) : Prop :=
  match findFn Γ name with
  | some f => f.resultFor types = some t
  | none => ∃ b, Builtin.find? name = some b ∧ b.resultFor types = some t

theorem inferCall_ok_iff {name : String} {types : List Ty} {span : Option Span} :
    inferCall name types span Γ = (.ok t, Δ) ↔ CallGives Γ name types t ∧ Δ = Γ := by
  unfold inferCall CallGives
  rw [leaves_bind_ok_iff (leaves_inspect _)]
  simp only [inspect_ok_iff, Except.ok.injEq, and_true, exists_eq_left']
  cases findFn Γ name with
  | some f =>
    dsimp only
    cases f.resultFor types with
    | some result => simp [pure_ok_iff]
    | none => simp [reject_ne_ok]
  | none =>
    dsimp only
    cases Builtin.find? name with
    | some b => simp [inferBuiltin_ok_iff]
    | none => simp [inspect_ok_iff]

theorem requireItems_ok_iff {element : Ty} {origin : ElementOrigin} {originSpan : Option Span}
    {u : Unit} : ∀ {index : Nat} {es : List Expr} {ts : List Ty}, es.length = ts.length →
      (requireItems element origin originSpan index es ts Γ = (.ok u, Δ) ↔
        (∀ s ∈ ts, s = element) ∧ Δ = Γ) := by
  intro index es
  induction es generalizing index with
  | nil =>
    intro ts same
    obtain rfl := List.length_eq_zero_iff.mp same.symm
    simp [requireItems, pure_ok_iff]
  | cons e es ih =>
    intro ts same
    cases ts with
    | nil => cases same
    | cons s ts =>
      rw [requireItems]
      split
      · next here =>
        rw [ih (Nat.succ.inj same)]
        simp [here]
      · next here => simp [reject_ne_ok, here]

theorem infersAll_nil {ts : List Ty} : InfersAll Γ [] ts ↔ ts = [] := by
  unfold InfersAll
  rw [inferAll, pure_ok_iff]
  simp [eq_comm]

theorem infersAll_cons {e : Expr} {es : List Expr} {ts : List Ty} :
    InfersAll Γ (e :: es) ts ↔ ∃ s rest, ts = s :: rest ∧ Infers Γ e s ∧ InfersAll Γ es rest := by
  unfold InfersAll
  rw [inferAll, infer_bind_ok_iff]
  simp only [inferAll_bind_ok_iff, pure_ok_iff, and_true]
  constructor
  · rintro ⟨s, first, rest, others, rfl⟩
    exact ⟨s, rest, rfl, first, others⟩
  · rintro ⟨s, rest, rfl, first, others⟩
    exact ⟨s, first, rest, others, rfl⟩

theorem length_of_infersAll {es : List Expr} : ∀ {ts : List Ty}, InfersAll Γ es ts →
    es.length = ts.length := by
  induction es with
  | nil => intro ts h; rw [infersAll_nil.mp h]; rfl
  | cons e es ih =>
    intro ts h
    obtain ⟨s, rest, rfl, _, others⟩ := infersAll_cons.mp h
    simp [ih others]

theorem infers_literal {v : Value} {span : Option Span} :
    Infers Γ (literal v span) t ↔ v.type = t := by
  unfold Infers
  rw [infer]
  simp [pure_ok_iff]

theorem infers_var {name : String} {span : Option Span} :
    Infers Γ (var name span) t ↔ ∃ b, findVar name Γ = some b ∧ b.info = t := by
  unfold Infers
  rw [infer, leaves_bind_ok_iff (leaves_inspect _)]
  simp only [inspect_ok_iff, lookupVar_ok_iff, pure_ok_iff, and_true]

theorem infers_group {body : List Expr} {span : Option Span} :
    Infers Γ (group body span) t ↔ ∃ ts, InfersAll Γ body ts ∧ rowType ts = t := by
  unfold Infers
  rw [infer]
  simp only [inferAll_bind_ok_iff, pure_ok_iff, and_true]

theorem infers_assign {name : String} {value : Expr} {nameSpan span : Option Span} :
    Infers Γ (assign name value nameSpan span) t ↔
      Infers Γ value t ∧ ∃ b, findVar name Γ = some b ∧ b.info = t := by
  rw [Infers, infer, infer_bind_ok_iff]
  simp only [inferAssign_ok_iff, and_true]
  constructor
  · rintro ⟨s, first, found, rfl⟩
    exact ⟨first, found⟩
  · rintro ⟨first, found⟩
    exact ⟨t, first, found, rfl⟩

theorem infers_match_var {name : String} {nameSpan : Option Span} {value : Expr}
    {span : Option Span} :
    Infers Γ (matchWith (var name nameSpan) value span) t ↔
      t = .bool ∧ ∃ s, Infers Γ value s ∧ ∃ b, findVar name Γ = some b ∧ b.info = s := by
  rw [Infers, infer, leaves_bind_ok_iff (leaves_inspect _)]
  simp only [inspect_ok_iff, infer_bind_ok_iff, leaves_bind_ok_iff (leaves_inferAssign _ _ _ _),
    inferAssign_ok_iff, pure_ok_iff, requirePattern, forbidden?, and_true, true_and, exists_const]
  constructor
  · rintro ⟨s, first, r, ⟨found, rfl⟩, rfl⟩
    exact ⟨rfl, r, first, found⟩
  · rintro ⟨rfl, s, first, found⟩
    exact ⟨s, first, s, ⟨found, rfl⟩, rfl⟩

theorem infers_match {pattern value : Expr} {span : Option Span}
    (other : ∀ name nameSpan, pattern ≠ var name nameSpan) :
    Infers Γ (matchWith pattern value span) t ↔
      t = .bool ∧ pattern.forbidden? = none ∧ ∃ s, Infers Γ pattern s ∧ Infers Γ value s := by
  rw [Infers, infer_matchWith other, leaves_bind_ok_iff (leaves_inspect _)]
  simp only [inspect_ok_iff, infer_bind_ok_iff, requirePattern, and_true]
  cases pattern.forbidden? with
  | some part => simp
  | none =>
    simp only [true_and, exists_const]
    constructor
    · rintro ⟨s, expected, r, got, next⟩
      split at next
      · next same =>
        obtain ⟨rfl, _⟩ := pure_ok_iff.mp next
        exact ⟨rfl, s, expected, same ▸ got⟩
      · exact absurd next reject_ne_ok
    · rintro ⟨rfl, s, expected, got⟩
      exact ⟨s, expected, s, got, by rw [if_pos rfl]; rfl⟩

theorem infers_matchWith {pattern value : Expr} {span : Option Span} :
    Infers Γ (matchWith pattern value span) t ↔
      t = .bool ∧ pattern.forbidden? = none ∧ ∃ s, Infers Γ pattern s ∧ Infers Γ value s := by
  cases pattern with
  | var name nameSpan =>
    rw [infers_match_var]
    simp only [infers_var, forbidden?, true_and, and_comm]
  | _ => exact infers_match nofun

theorem anyForbidden_cons_iff {p : Expr} {ps : List Expr} :
    anyForbidden? (p :: ps) = none ↔ p.forbidden? = none ∧ anyForbidden? ps = none := by
  rw [anyForbidden?]
  cases p.forbidden? <;> simp

theorem infers_call {name : String} {args : List Expr} {span : Option Span} :
    Infers Γ (call name args span) t ↔ ∃ ts, InfersAll Γ args ts ∧ CallGives Γ name ts t := by
  unfold Infers
  rw [infer]
  simp only [inferAll_bind_ok_iff, inferCall_ok_iff, and_true]

theorem infers_ifElse {cond whenTrue whenFalse : Expr} {span : Option Span} :
    Infers Γ (ifElse cond whenTrue whenFalse span) t ↔
      (∃ c, Infers Γ cond c ∧ c.isCondition = true) ∧ Infers Γ whenTrue t ∧
        Infers Γ whenFalse t := by
  unfold Infers
  rw [infer]
  simp only [infer_bind_ok_iff, leaves_bind_ok_iff (leaves_requireCondition _ _),
    requireCondition_ok_iff, and_true]
  constructor
  · rintro ⟨c, test, _, holds, a, first, b, second, next⟩
    split at next
    · next same =>
      obtain ⟨rfl, _⟩ := pure_ok_iff.mp next
      exact ⟨⟨c, test, holds⟩, first, same ▸ second⟩
    · exact absurd next reject_ne_ok
  · rintro ⟨⟨c, test, holds⟩, first, second⟩
    exact ⟨c, test, (), holds, t, first, t, second, by rw [if_pos rfl]; rfl⟩

theorem infers_whileDo {cond body : Expr} {span : Option Span} :
    Infers Γ (whileDo cond body span) t ↔
      t = .void ∧ (∃ c, Infers Γ cond c ∧ c.isCondition = true) ∧ ∃ s, Infers Γ body s := by
  unfold Infers
  rw [infer]
  simp only [infer_bind_ok_iff, leaves_bind_ok_iff (leaves_requireCondition _ _),
    requireCondition_ok_iff, pure_ok_iff, and_true]
  constructor
  · rintro ⟨c, test, _, holds, s, run, rfl⟩
    exact ⟨rfl, ⟨c, test, holds⟩, s, run⟩
  · rintro ⟨rfl, ⟨c, test, holds⟩, s, run⟩
    exact ⟨c, test, (), holds, s, run, rfl⟩

theorem infers_binary {left right : Expr} {op : BinaryOp} {span : Option Span} :
    Infers Γ (binary left op right span) t ↔
      ∃ a b, Infers Γ left a ∧ Infers Γ right b ∧
        (Builtin.binary op).resultFor [a, b] = some t := by
  unfold Infers
  rw [infer]
  simp only [infer_bind_ok_iff, inferBuiltin_ok_iff, and_true]
  constructor
  · rintro ⟨a, first, b, second, result⟩
    exact ⟨a, b, first, second, result⟩
  · rintro ⟨a, b, first, second, result⟩
    exact ⟨a, first, b, second, result⟩

theorem infers_unary {operand : Expr} {op : UnaryOp} {span : Option Span} :
    Infers Γ (unary op operand span) t ↔
      ∃ a, Infers Γ operand a ∧ (Builtin.unary op).resultFor [a] = some t := by
  unfold Infers
  rw [infer]
  simp only [infer_bind_ok_iff, inferBuiltin_ok_iff, and_true, Infers]

theorem infers_cast {operand : Expr} {target : Ty} {span : Option Span} :
    Infers Γ (cast operand target span) t ↔
      t = target ∧ ∃ s, Infers Γ operand s ∧ s.castsTo target = true := by
  rw [Infers, infer, infer_bind_ok_iff]
  constructor
  · rintro ⟨s, source, next⟩
    split at next
    · next casts =>
      obtain ⟨rfl, _⟩ := pure_ok_iff.mp next
      exact ⟨rfl, s, source, casts⟩
    · exact absurd next reject_ne_ok
  · rintro ⟨rfl, s, source, casts⟩
    exact ⟨s, source, by rw [if_pos casts]; rfl⟩

theorem infers_array_declared {items : List Expr} {element : Ty} {elementSpan span : Option Span} :
    Infers Γ (array items (some element) elementSpan span) t ↔
      t = .array element ∧ ∃ ts, InfersAll Γ items ts ∧ ∀ s ∈ ts, s = element := by
  rw [Infers, infer, inferAll_bind_ok_iff]
  simp only [leaves_bind_ok_iff (leaves_requireItems _ _ _ _ _ _), pure_ok_iff, and_true]
  constructor
  · rintro ⟨ts, types, _, same, rfl⟩
    exact ⟨rfl, ts, types, ((requireItems_ok_iff (length_of_infersAll types)).mp same).1⟩
  · rintro ⟨rfl, ts, types, same⟩
    exact ⟨ts, types, (), (requireItems_ok_iff (length_of_infersAll types)).mpr ⟨same, rfl⟩, rfl⟩

theorem infers_array_first {items : List Expr} {elementSpan span : Option Span} :
    Infers Γ (array items none elementSpan span) t ↔
      ∃ element ts, t = .array element ∧ InfersAll Γ items (element :: ts) ∧
        ∀ s ∈ ts, s = element := by
  rw [Infers, infer, inferAll_bind_ok_iff]
  constructor
  · rintro ⟨ts, types, next⟩
    cases items with
    | nil => rw [infersAll_nil.mp types] at next; exact absurd next reject_ne_ok
    | cons first rest =>
      obtain ⟨element, others, rfl, _, _⟩ := infersAll_cons.mp types
      dsimp only at next
      obtain ⟨_, same, last⟩ := (leaves_bind_ok_iff (leaves_requireItems _ _ _ _ _ _)).mp next
      obtain ⟨rfl, _⟩ := pure_ok_iff.mp last
      have all := ((requireItems_ok_iff (length_of_infersAll types)).mp same).1
      exact ⟨element, others, rfl, types, fun s mem => all s (List.mem_cons_of_mem _ mem)⟩
  · rintro ⟨element, ts, rfl, types, same⟩
    refine ⟨element :: ts, types, ?_⟩
    cases items with
    | nil => cases infersAll_nil.mp types
    | cons first rest =>
      dsimp only
      rw [leaves_bind_ok_iff (leaves_requireItems _ _ _ _ _ _)]
      refine ⟨(), (requireItems_ok_iff (length_of_infersAll types)).mpr ⟨?_, rfl⟩, rfl⟩
      intro s mem
      rcases List.mem_cons.mp mem with rfl | later
      · rfl
      · exact same s later

theorem infers_array {items : List Expr} {declared : Option Ty} {elementSpan span : Option Span} :
    Infers Γ (array items declared elementSpan span) t ↔
      ∃ element ts, t = .array element ∧ (declared = some element ∨ declared = none ∧ items ≠ []) ∧
        InfersAll Γ items ts ∧ ∀ s ∈ ts, s = element := by
  cases declared with
  | some a =>
    rw [infers_array_declared]
    constructor
    · rintro ⟨rfl, ts, types, same⟩
      exact ⟨a, ts, rfl, .inl rfl, types, same⟩
    · rintro ⟨_, ts, rfl, named | ⟨⟨⟩, _⟩, types, same⟩
      cases named
      exact ⟨rfl, ts, types, same⟩
  | none =>
    rw [infers_array_first]
    constructor
    · rintro ⟨a, ts, rfl, types, same⟩
      refine ⟨a, a :: ts, rfl, .inr ⟨rfl, ?_⟩, types, List.forall_mem_cons.mpr ⟨rfl, same⟩⟩
      rintro rfl
      cases infersAll_nil.mp types
    · rintro ⟨a, ts, rfl, ⟨⟨⟩⟩ | ⟨_, nonempty⟩, types, same⟩
      cases items with
      | nil => exact absurd rfl nonempty
      | cons e es =>
        obtain ⟨s, rest, rfl, _, _⟩ := infersAll_cons.mp types
        obtain ⟨rfl, later⟩ := List.forall_mem_cons.mp same
        exact ⟨s, rest, rfl, types, later⟩

theorem infers_tuple {items : List Expr} {span : Option Span} :
    Infers Γ (tuple items span) t ↔ ∃ ts, t = .tuple ts ∧ InfersAll Γ items ts := by
  rw [Infers, infer, inferAll_bind_ok_iff]
  simp only [pure_ok_iff, and_true]
  constructor
  · rintro ⟨ts, types, rfl⟩
    exact ⟨ts, rfl, types⟩
  · rintro ⟨ts, rfl, types⟩
    exact ⟨ts, types, rfl⟩

theorem checkVars_cons_ok_iff {d : VarDecl} {ds : List VarDecl} :
    checkVars (d :: ds) Γ = (.ok (), Δ) ↔
      ∃ s Θ, Infers Γ d.value s ∧ s ≠ .void ∧ declareVar (.var d) s Γ = .ok Θ ∧
        checkVars ds Θ = (.ok (), Δ) := by
  obtain ⟨name, value, span⟩ := d
  rw [checkVars, infer_bind_ok_iff]
  constructor
  · rintro ⟨s, got, next⟩
    split at next
    · exact absurd next reject_ne_ok
    · next holds =>
      obtain ⟨_, Θ, declared, others⟩ := bind_ok_iff.mp next
      exact ⟨s, Θ, got, holds, update_ok_iff.mp declared, others⟩
  · rintro ⟨s, Θ, got, holds, declared, others⟩
    refine ⟨s, got, ?_⟩
    rw [if_neg holds, bind_ok_iff]
    exact ⟨(), Θ, update_ok_iff.mpr declared, others⟩

theorem declareFns_cons_ok_iff {f : FnDecl} {fs : List FnDecl} :
    declareFns (f :: fs) Γ = (.ok (), Δ) ↔
      ∃ Θ, declareFn f Γ = .ok Θ ∧ declareFns fs Θ = (.ok (), Δ) := by
  rw [declareFns, bind_ok_iff]
  simp only [update_ok_iff, exists_const]

theorem fns_of_declareFns {fns : List FnDecl} : ∀ {s : Scope Ty},
    declareFns fns (s :: Γ) = (.ok (), Δ) → Δ = s.withFns fns :: Γ := by
  induction fns with
  | nil =>
    intro s run
    cases (Action.pure_ok_iff.mp run).2
    rw [Scope.withFns_nil]
  | cons f fs ih =>
    intro s run
    obtain ⟨Θ, declared, others⟩ := declareFns_cons_ok_iff.mp run
    obtain ⟨_, rfl⟩ := declareFn_cons_ok_iff.mp declared
    rw [ih others, Scope.withFns_withFns]
    rfl

theorem declareArgs_cons_ok_iff {a : ArgDecl} {as : List ArgDecl} :
    declareArgs (a :: as) Γ = (.ok (), Δ) ↔
      ∃ Θ, declareVar (.arg a) a.type Γ = .ok Θ ∧ declareArgs as Θ = (.ok (), Δ) := by
  rw [declareArgs, bind_ok_iff]
  simp only [update_ok_iff, exists_const]

theorem fns_of_declareArgs {args : List ArgDecl} : ∀ {s : Scope Ty},
    declareArgs args (s :: Γ) = (.ok (), Δ) → ∃ vars, Δ = { s with vars } :: Γ := by
  induction args with
  | nil =>
    intro s run
    cases (Action.pure_ok_iff.mp run).2
    exact ⟨s.vars, rfl⟩
  | cons a as ih =>
    intro s run
    obtain ⟨Θ, declared, others⟩ := declareArgs_cons_ok_iff.mp run
    obtain ⟨_, rfl⟩ := declareVar_cons_ok_iff.mp declared
    obtain ⟨vars, same⟩ := ih others
    exact ⟨vars, same⟩

theorem fnChecks_iff {f : FnDecl} :
    FnChecks Γ f ↔ ∃ g, declareArgs f.args (Scope.empty :: Γ) = (.ok (), g :: Γ) ∧
      Infers (g :: Γ) f.body f.result := by
  obtain ⟨name, args, result, body, span⟩ := f
  have outer := leavesOuter_fnScope name args result body span
  unfold FnChecks
  simp only [checkFn, leaves_bind_ok_iff (leaves_inScope outer), inScope_ok_iff outer,
    pure_ok_iff, true_and, and_true]
  constructor
  · rintro ⟨_, _, ⟨last, run⟩, _⟩
    obtain ⟨_, Θ, declared, next⟩ := bind_ok_iff.mp run
    obtain ⟨g, same⟩ := leavesOuter_declareArgs args Scope.empty Γ
    rw [declared] at same
    subst same
    obtain ⟨got, infers, check⟩ := infer_bind_ok_iff.mp next
    split at check
    · next same => exact ⟨g, declared, same ▸ infers⟩
    · exact absurd check reject_ne_ok
  · rintro ⟨g, declared, infers⟩
    refine ⟨result, (), ⟨g, ?_⟩, rfl⟩
    rw [bind_ok_iff]
    refine ⟨(), g :: Γ, declared, ?_⟩
    rw [infer_bind_ok_iff]
    exact ⟨result, infers, by rw [if_pos rfl]; rfl⟩

theorem checkFns_ok_iff {u : Unit} : ∀ {fns : List FnDecl},
    checkFns fns Γ = (.ok u, Δ) ↔ (∀ f ∈ fns, FnChecks Γ f) ∧ Δ = Γ := by
  intro fns
  induction fns with
  | nil => rw [checkFns, pure_ok_iff]; simp
  | cons f fs ih =>
    rw [checkFns, leaves_bind_ok_iff (leaves_checkFn f)]
    simp only [ih, List.forall_mem_cons, FnChecks]
    constructor
    · rintro ⟨s, first, others, rfl⟩
      exact ⟨⟨⟨s, first⟩, others⟩, rfl⟩
    · rintro ⟨⟨⟨s, first⟩, others⟩, rfl⟩
      exact ⟨s, first, others, rfl⟩

theorem infers_letIn {vars : List VarDecl} {fns : List FnDecl} {body : List Expr}
    {span : Option Span} :
    Infers Γ (letIn vars fns body span) t ↔
      ∃ g h ts, checkVars vars (Scope.empty :: Γ) = (.ok (), g :: Γ) ∧
        declareFns fns (g :: Γ) = (.ok (), h :: Γ) ∧ (∀ f ∈ fns, FnChecks (h :: Γ) f) ∧
          InfersAll (h :: Γ) body ts ∧ rowType ts = t := by
  rw [Infers, infer, inScope_ok_iff (leavesOuter_letScope vars fns body)]
  constructor
  · rintro ⟨_, last, run⟩
    obtain ⟨_, Θ, checked, next⟩ := bind_ok_iff.mp run
    obtain ⟨g, same⟩ := leavesOuter_checkVars vars Scope.empty Γ
    rw [checked] at same
    subst same
    obtain ⟨_, Λ, declared, rest⟩ := bind_ok_iff.mp next
    obtain ⟨h, same⟩ := leavesOuter_declareFns fns g Γ
    rw [declared] at same
    subst same
    obtain ⟨_, fnsChecked, bodies⟩ := (leaves_bind_ok_iff (leaves_checkFns fns)).mp rest
    obtain ⟨ts, types, final⟩ := inferAll_bind_ok_iff.mp bodies
    exact ⟨g, h, ts, checked, declared, (checkFns_ok_iff.mp fnsChecked).1, types,
      (pure_ok_iff.mp final).1⟩
  · rintro ⟨g, h, ts, checked, declared, fnsChecked, types, rfl⟩
    refine ⟨rfl, h, bind_ok_iff.mpr ⟨(), _, checked, bind_ok_iff.mpr ⟨(), _, declared, ?_⟩⟩⟩
    rw [leaves_bind_ok_iff (leaves_checkFns fns)]
    refine ⟨(), checkFns_ok_iff.mpr ⟨fnsChecked, rfl⟩, ?_⟩
    exact inferAll_bind_ok_iff.mpr ⟨ts, types, rfl⟩

theorem infers_forTo {loop : VarDecl} {goal body : Expr} {span : Option Span} :
    Infers Γ (forTo loop goal body span) t ↔
      t = .void ∧ Infers (Scope.empty :: Γ) loop.value .integer ∧
        Infers (Scope.empty :: Γ) goal .integer ∧
          ∃ s, Infers (Scope.ofVar loop .integer :: Γ) body s := by
  obtain ⟨name, start, declSpan⟩ := loop
  have inner := leavesOuter_forScope name start goal body declSpan
  rw [Infers, infer, leaves_bind_ok_iff (leaves_inScope inner)]
  simp only [inScope_ok_iff inner, infer_bind_ok_iff, requireInteger_ok_iff,
    leaves_bind_ok_iff (leaves_requireInteger _ _), and_true, exists_const, pure_ok_iff, true_and]
  constructor
  · rintro ⟨_, ⟨last, s, first, rfl, g, second, rfl, next⟩, rfl⟩
    obtain ⟨_, Θ, declared, run⟩ := bind_ok_iff.mp next
    cases update_ok_iff.mp declared
    obtain ⟨r, infers, _⟩ := infer_bind_ok_iff.mp run
    exact ⟨rfl, first, second, r, infers⟩
  · rintro ⟨rfl, first, second, r, infers⟩
    let inside := Scope.ofVar ⟨name, start, declSpan⟩ Ty.integer
    have declared : Action.update (declareVar (.var ⟨name, start, declSpan⟩) .integer)
        (Scope.empty :: Γ) = (.ok (), inside :: Γ) := rfl
    refine ⟨(), ⟨inside, .integer, first, rfl, .integer, second, rfl, ?_⟩, rfl⟩
    exact bind_ok_iff.mpr ⟨(), inside :: Γ, declared, infer_bind_ok_iff.mpr ⟨r, infers, rfl⟩⟩

end Expr

theorem Tree.check_block_ok_iff {body : List Expr} {t : Ty} :
    (Tree.block body).check = .ok t ↔ ∃ ts, Expr.InfersAll [] body ts ∧ Expr.rowType ts = t := by
  have grouped : (Tree.block body).check = ((Expr.group body none).infer []).1 := by
    rw [Tree.check, Tree.infer, Expr.infer]
  rw [grouped, ← Expr.infers_iff, Expr.infers_group]

end TypedLet
