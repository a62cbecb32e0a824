import TypedLet.Proofs.Typing.Signatures

/-
The typing rules, as a judgement over a lexical context. A context says which type each
visible variable has and which signature each visible function; it is never changed, and
a part of the program that sees more is judged in a larger context. There are no scopes
and there is no order of visits. A let extends the context by one variable after the
other and then by all its functions at once. For each form a law says what its
derivations are made of.
-/
namespace TypedLet

/-- What the names in sight stand for: variables by their types, functions by the types
    of their arguments and of their result. -/
structure Context where
  vars : String → Option Ty
  fns : String → Option (List Ty × Ty)

namespace Context

def empty : Context := ⟨fun _ => none, fun _ => none⟩

def withVar (G : Context) (name : String) (t : Ty) : Context :=
  { G with vars := fun x => if x = name then some t else G.vars x }

def withFn (G : Context) (f : FnDecl) : Context :=
  { G with fns := fun x => if x = f.name then some (f.argTypes, f.result) else G.fns x }

def withArgs (G : Context) : List ArgDecl → Context
  | [] => G
  | a :: as => (G.withVar a.name a.type).withArgs as

def withFns (G : Context) : List FnDecl → Context
  | [] => G
  | f :: fs => (G.withFn f).withFns fs

end Context

namespace Expr

mutual
/-- A pattern for values of the type. Only these four forms are patterns. -/
inductive PatternHasType (G : Context) : Expr → Ty → Prop
  | var {name : String} {span : Option Span} {t : Ty} (bound : G.vars name = some t) :
      PatternHasType G (var name span) t
  | literal {v : Value} {span : Option Span} : PatternHasType G (literal v span) v.type
  | array {items : List Expr} {declared : Option Ty} {elementSpan span : Option Span} {t : Ty}
      (element : declared = some t ∨ declared = none ∧ items ≠ [])
      (each : ∀ p ∈ items, PatternHasType G p t) :
      PatternHasType G (array items declared elementSpan span) (.array t)
  | tuple {items : List Expr} {span : Option Span} {ts : List Ty}
      (each : PatternsHaveTypes G items ts) : PatternHasType G (tuple items span) (.tuple ts)
inductive PatternsHaveTypes (G : Context) : List Expr → List Ty → Prop
  | nil : PatternsHaveTypes G [] []
  | cons {p : Expr} {ps : List Expr} {t : Ty} {ts : List Ty} (first : PatternHasType G p t)
      (others : PatternsHaveTypes G ps ts) : PatternsHaveTypes G (p :: ps) (t :: ts)
end

mutual

inductive HasType : Context → Expr → Ty → Prop
  | literal {G : Context} {v : Value} {span : Option Span} : HasType G (literal v span) v.type
  | var {G : Context} {name : String} {span : Option Span} {t : Ty}
      (bound : G.vars name = some t) : HasType G (var name span) t
  | group {G : Context} {body : List Expr} {span : Option Span} {t : Ty}
      (row : RowHasType G body t) : HasType G (group body span) t
  | letIn {G H : Context} {vars : List VarDecl} {fns : List FnDecl} {body : List Expr}
      {span : Option Span} {t : Ty}
      (varsOnce : (vars.map VarDecl.name).Nodup) (extend : Extends G vars H)
      (fnsOnce : (fns.map FnDecl.name).Nodup)
      (each : ∀ f ∈ fns, FnHasType (H.withFns fns) f)
      (row : RowHasType (H.withFns fns) body t) :
      HasType G (letIn vars fns body span) t
  | assign {G : Context} {name : String} {value : Expr} {nameSpan span : Option Span} {t : Ty}
      (bound : G.vars name = some t) (new : HasType G value t) :
      HasType G (assign name value nameSpan span) t
  | matchWith {G : Context} {pattern value : Expr} {span : Option Span} {t : Ty}
      (shape : PatternHasType G pattern t) (candidate : HasType G value t) :
      HasType G (matchWith pattern value span) .bool
  | callFn {G : Context} {name : String} {args : List Expr} {span : Option Span}
      {ts : List Ty} {t : Ty} (given : HaveTypes G args ts) (declared : G.fns name = some (ts, t)) :
      HasType G (call name args span) t
  | callBuiltin {G : Context} {b : Builtin} {args : List Expr} {span : Option Span}
      {ts : List Ty} {t : Ty} (given : HaveTypes G args ts) (free : G.fns b.name = none)
      (allowed : b.HasType ts t) : HasType G (call b.name args span) t
  | ifElse {G : Context} {cond whenTrue whenFalse : Expr} {span : Option Span} {c t : Ty}
      (test : HasType G cond c) (testable : c.Testable) (first : HasType G whenTrue t)
      (second : HasType G whenFalse t) : HasType G (ifElse cond whenTrue whenFalse span) t
  | whileDo {G : Context} {cond body : Expr} {span : Option Span} {c t : Ty}
      (test : HasType G cond c) (testable : c.Testable) (round : HasType G body t) :
      HasType G (whileDo cond body span) .void
  | forTo {G : Context} {loop : VarDecl} {goal body : Expr} {span : Option Span} {t : Ty}
      (start : HasType G loop.value .integer) (bound : HasType G goal .integer)
      (round : HasType (G.withVar loop.name .integer) body t) :
      HasType G (forTo loop goal body span) .void
  | binary {G : Context} {left right : Expr} {op : BinaryOp} {span : Option Span} {a b t : Ty}
      (first : HasType G left a) (second : HasType G right b) (allowed : op.HasType a b t) :
      HasType G (binary left op right span) t
  | unary {G : Context} {operand : Expr} {op : UnaryOp} {span : Option Span} {a t : Ty}
      (inner : HasType G operand a) (allowed : op.HasType a t) :
      HasType G (unary op operand span) t
  | cast {G : Context} {operand : Expr} {span : Option Span} {s t : Ty}
      (inner : HasType G operand s) (allowed : s.Casts t) : HasType G (cast operand t span) t
  | array {G : Context} {items : List Expr} {declared : Option Ty} {elementSpan span : Option Span}
      {t : Ty} (element : declared = some t ∨ declared = none ∧ items ≠ [])
      (each : ∀ e ∈ items, HasType G e t) :
      HasType G (array items declared elementSpan span) (.array t)
  | tuple {G : Context} {items : List Expr} {span : Option Span} {ts : List Ty}
      (each : HaveTypes G items ts) : HasType G (tuple items span) (.tuple ts)

inductive HaveTypes : Context → List Expr → List Ty → Prop
  | nil {G : Context} : HaveTypes G [] []
  | cons {G : Context} {e : Expr} {es : List Expr} {t : Ty} {ts : List Ty}
      (first : HasType G e t) (others : HaveTypes G es ts) : HaveTypes G (e :: es) (t :: ts)

inductive RowHasType : Context → List Expr → Ty → Prop
  | empty {G : Context} : RowHasType G [] .void
  | last {G : Context} {e : Expr} {t : Ty} (last : HasType G e t) : RowHasType G [e] t
  | cons {G : Context} {e next : Expr} {es : List Expr} {s t : Ty}
      (first : HasType G e s) (others : RowHasType G (next :: es) t) :
      RowHasType G (e :: next :: es) t

inductive Extends : Context → List VarDecl → Context → Prop
  | nil {G : Context} : Extends G [] G
  | cons {G H : Context} {d : VarDecl} {ds : List VarDecl} {t : Ty}
      (value : HasType G d.value t) (held : t ≠ .void)
      (others : Extends (G.withVar d.name t) ds H) :
      Extends G (d :: ds) H

inductive FnHasType : Context → FnDecl → Prop
  | intro {G : Context} {f : FnDecl} (argsOnce : (f.args.map ArgDecl.name).Nodup)
      (body : HasType (G.withArgs f.args) f.body f.result) : FnHasType G f

end

section Inversion

variable {G H : Context} {t : Ty} {span : Option Span}

theorem hasType_literal {v : Value} : HasType G (literal v span) t ↔ v.type = t := by
  constructor
  · rintro ⟨⟩
    rfl
  · rintro rfl
    exact .literal

theorem hasType_var {name : String} : HasType G (var name span) t ↔ G.vars name = some t := by
  constructor
  · intro typed
    cases typed with
    | var bound => exact bound
  · exact .var

theorem hasType_group {body : List Expr} :
    HasType G (group body span) t ↔ RowHasType G body t := by
  constructor
  · intro typed
    cases typed with
    | group row => exact row
  · exact .group

theorem hasType_letIn {vars : List VarDecl} {fns : List FnDecl} {body : List Expr} :
    HasType G (letIn vars fns body span) t ↔
      ∃ H, (vars.map VarDecl.name).Nodup ∧ Extends G vars H ∧ (fns.map FnDecl.name).Nodup ∧
        (∀ f ∈ fns, FnHasType (H.withFns fns) f) ∧ RowHasType (H.withFns fns) body t := by
  constructor
  · intro typed
    cases typed with
    | letIn varsOnce extend fnsOnce each row => exact ⟨_, varsOnce, extend, fnsOnce, each, row⟩
  · rintro ⟨H, varsOnce, extend, fnsOnce, each, row⟩
    exact .letIn varsOnce extend fnsOnce each row

theorem hasType_assign {name : String} {value : Expr} {nameSpan : Option Span} :
    HasType G (assign name value nameSpan span) t ↔ HasType G value t ∧ G.vars name = some t := by
  constructor
  · intro typed
    cases typed with
    | assign bound new => exact ⟨new, bound⟩
  · rintro ⟨new, bound⟩
    exact .assign bound new

theorem hasType_matchWith {pattern value : Expr} :
    HasType G (matchWith pattern value span) t ↔
      t = .bool ∧ ∃ s, PatternHasType G pattern s ∧ HasType G value s := by
  constructor
  · intro typed
    cases typed with
    | matchWith shape candidate => exact ⟨rfl, _, shape, candidate⟩
  · rintro ⟨rfl, s, shape, candidate⟩
    exact .matchWith shape candidate

theorem hasType_call {name : String} {args : List Expr} :
    HasType G (call name args span) t ↔ ∃ ts, HaveTypes G args ts ∧
      (G.fns name = some (ts, t) ∨
        G.fns name = none ∧ ∃ b : Builtin, b.name = name ∧ b.HasType ts t) := by
  constructor
  · intro typed
    cases typed with
    | callFn given declared => exact ⟨_, given, .inl declared⟩
    | callBuiltin given free allowed => exact ⟨_, given, .inr ⟨free, _, rfl, allowed⟩⟩
  · rintro ⟨ts, given, declared | ⟨free, b, rfl, allowed⟩⟩
    · exact .callFn given declared
    · exact .callBuiltin given free allowed

theorem hasType_ifElse {cond whenTrue whenFalse : Expr} :
    HasType G (ifElse cond whenTrue whenFalse span) t ↔
      (∃ c, HasType G cond c ∧ c.Testable) ∧ HasType G whenTrue t ∧ HasType G whenFalse t := by
  constructor
  · intro typed
    cases typed with
    | ifElse test testable first second => exact ⟨⟨_, test, testable⟩, first, second⟩
  · rintro ⟨⟨c, test, testable⟩, first, second⟩
    exact .ifElse test testable first second

theorem hasType_whileDo {cond body : Expr} :
    HasType G (whileDo cond body span) t ↔
      t = .void ∧ (∃ c, HasType G cond c ∧ c.Testable) ∧ ∃ s, HasType G body s := by
  constructor
  · intro typed
    cases typed with
    | whileDo test testable round => exact ⟨rfl, ⟨_, test, testable⟩, _, round⟩
  · rintro ⟨rfl, ⟨c, test, testable⟩, s, round⟩
    exact .whileDo test testable round

theorem hasType_forTo {loop : VarDecl} {goal body : Expr} :
    HasType G (forTo loop goal body span) t ↔
      t = .void ∧ HasType G loop.value .integer ∧ HasType G goal .integer ∧
        ∃ s, HasType (G.withVar loop.name .integer) body s := by
  constructor
  · intro typed
    cases typed with
    | forTo start bound round => exact ⟨rfl, start, bound, _, round⟩
  · rintro ⟨rfl, start, bound, s, round⟩
    exact .forTo start bound round

theorem hasType_binary {left right : Expr} {op : BinaryOp} :
    HasType G (binary left op right span) t ↔
      ∃ a b, HasType G left a ∧ HasType G right b ∧ op.HasType a b t := by
  constructor
  · intro typed
    cases typed with
    | binary first second allowed => exact ⟨_, _, first, second, allowed⟩
  · rintro ⟨a, b, first, second, allowed⟩
    exact .binary first second allowed

theorem hasType_unary {operand : Expr} {op : UnaryOp} :
    HasType G (unary op operand span) t ↔ ∃ a, HasType G operand a ∧ op.HasType a t := by
  constructor
  · intro typed
    cases typed with
    | unary inner allowed => exact ⟨_, inner, allowed⟩
  · rintro ⟨a, inner, allowed⟩
    exact .unary inner allowed

theorem hasType_cast {operand : Expr} {target : Ty} :
    HasType G (cast operand target span) t ↔
      t = target ∧ ∃ s, HasType G operand s ∧ s.Casts target := by
  constructor
  · intro typed
    cases typed with
    | cast inner allowed => exact ⟨rfl, _, inner, allowed⟩
  · rintro ⟨rfl, s, inner, allowed⟩
    exact .cast inner allowed

theorem hasType_array {items : List Expr} {declared : Option Ty} {elementSpan : Option Span} :
    HasType G (array items declared elementSpan span) t ↔
      ∃ element, t = .array element ∧ (declared = some element ∨ declared = none ∧ items ≠ []) ∧
        ∀ e ∈ items, HasType G e element := by
  constructor
  · intro typed
    cases typed with
    | array element each => exact ⟨_, rfl, element, each⟩
  · rintro ⟨a, rfl, element, each⟩
    exact .array element each

theorem hasType_tuple {items : List Expr} :
    HasType G (tuple items span) t ↔ ∃ ts, t = .tuple ts ∧ HaveTypes G items ts := by
  constructor
  · intro typed
    cases typed with
    | tuple each => exact ⟨_, rfl, each⟩
  · rintro ⟨ts, rfl, each⟩
    exact .tuple each

theorem haveTypes_nil {ts : List Ty} : HaveTypes G [] ts ↔ ts = [] := by
  constructor
  · rintro ⟨⟩
    rfl
  · rintro rfl
    exact .nil

theorem haveTypes_cons {e : Expr} {es : List Expr} {ts : List Ty} :
    HaveTypes G (e :: es) ts ↔ ∃ s rest, ts = s :: rest ∧ HasType G e s ∧ HaveTypes G es rest := by
  constructor
  · intro typed
    cases typed with
    | cons first others => exact ⟨_, _, rfl, first, others⟩
  · rintro ⟨s, rest, rfl, first, others⟩
    exact .cons first others

theorem extends_nil : Extends G [] H ↔ H = G := by
  constructor
  · rintro ⟨⟩
    rfl
  · rintro rfl
    exact .nil

theorem extends_cons {d : VarDecl} {ds : List VarDecl} :
    Extends G (d :: ds) H ↔
      ∃ t, HasType G d.value t ∧ t ≠ .void ∧ Extends (G.withVar d.name t) ds H := by
  constructor
  · intro extend
    cases extend with
    | cons value held others => exact ⟨_, value, held, others⟩
  · rintro ⟨t, value, held, others⟩
    exact .cons value held others

theorem fnHasType_iff {f : FnDecl} : FnHasType G f ↔
    (f.args.map ArgDecl.name).Nodup ∧ HasType (G.withArgs f.args) f.body f.result := by
  constructor
  · intro typed
    cases typed with
    | intro argsOnce body => exact ⟨argsOnce, body⟩
  · rintro ⟨argsOnce, body⟩
    exact .intro argsOnce body

end Inversion

end Expr

def Tree.HasType (G : Context) : Tree → Ty → Prop
  | .expr e => Expr.HasType G e
  | .block body => Expr.RowHasType G body

end TypedLet
