import TypedLet.Proofs.Reading.Rule
import TypedLet.Proofs.Reading.Bare

/-
Reading. The reader goes through the tokens from left to right and follows a rule. What it
has read so far may be the left operand of what comes next, unless the rule gives that to
an operator further out that still waits for its right operand. Fuel bounds its depth; what
is read is what comes out with enough of it.
-/
namespace TypedLet

namespace Reading

/-- Where an expression is read: what the operand belongs to that is being read, if it has
    no brackets around it, and whether the next `:=` ends a pattern. -/
structure Place where
  waiting : Option RightOpen
  pattern : Bool

namespace Place

def inside : Place := ⟨none, false⟩

def ofPattern : Place := ⟨none, true⟩

def within (place : Place) (p : RightOpen) : Place := { place with waiting := some p }

def takes (rule : Rule) (place : Place) (o : LeftOpen) : Bool :=
  match place.waiting with
  | some p => rule.takes p o
  | none => true

end Place

open Classical in
/-- The literal that is written as this word, behind a minus or not. -/
noncomputable def valueOf (negative : Bool) (word : List Char) : Option Value :=
  if known : ∃ v : Value, v.Worded ∧ v.negative = negative ∧ v.word = word then
    some known.choose
  else none

theorem valueOf_word {v : Value} (worded : v.Worded) : valueOf v.negative v.word = some v := by
  have known : ∃ w : Value, w.Worded ∧ w.negative = v.negative ∧ w.word = v.word :=
    ⟨v, worded, rfl, rfl⟩
  obtain ⟨worded', sign, word⟩ := known.choose_spec
  rw [valueOf, dif_pos known, Value.word_injective worded' worded word sign]

theorem valueOf_eq_none {negative : Bool} {word : List Char}
    (unknown : ¬ ∃ v : Value, v.Worded ∧ v.negative = negative ∧ v.word = word) :
    valueOf negative word = none := dif_neg unknown

noncomputable def signedLiteral (rule : Rule) : List Token → Option (Value × List Token)
  | .literal word :: ts => if rule.signed then (valueOf true word).map (·, ts) else none
  | _ => none

def expect (t : Token) : List Token → Option (List Token)
  | u :: ts => if u = t then some ts else none
  | [] => none

def leftOpenOf : Token → Option LeftOpen
  | .op op => some (.operator op)
  | .key .as_ => some .cast
  | _ => none

/-- What is read: an expression, or what goes on behind an operand; parts with commas between
    them up to a closing token, the first of them or a later one next; parts in a row that
    start with a keyword; or a declaration or a type. -/
inductive Part where
  | expr (place : Place)
  | more (place : Place) (left : Expr)
  | items (part : Part) (close : Token)
  | moreItems (part : Part) (close : Token)
  | each (word : Key) (part : Part)
  | var
  | fn
  | arg
  | type

@[reducible] def Part.Result : Part → Type
  | expr _ | more _ _ => Expr
  | items part _ | moreItems part _ | each _ part => List part.Result
  | var => VarDecl
  | fn => FnDecl
  | arg => ArgDecl
  | type => Ty

/-- Reads a part from the front of the tokens, and gives the tokens that are left. -/
noncomputable def read (rule : Rule) :
    Nat → (part : Part) → List Token → Option (part.Result × List Token)
  | fuel + 1, .expr place, .text s :: ts => read rule fuel (.more place (.literal (.str s) none)) ts
  | fuel + 1, .expr place, .literal word :: ts => do
    let v ← valueOf false word
    read rule fuel (.more place (.literal v none)) ts
  | fuel + 1, .expr place, .op .sub :: ts =>
    match signedLiteral rule ts with
    | some (v, ts) => read rule fuel (.more place (.literal v none)) ts
    | none => do
      let (e, ts) ← read rule fuel (.expr (place.within (.sign .minus))) ts
      read rule fuel (.more place (.unary .minus e none)) ts
  | fuel + 1, .expr place, .op .add :: ts => do
    let (e, ts) ← read rule fuel (.expr (place.within (.sign .plus))) ts
    read rule fuel (.more place (.unary .plus e none)) ts
  | fuel + 1, .expr place, .name name :: ts =>
    match ts with
    | .openParen :: ts => do
      let (args, ts) ← read rule fuel (.items (.expr .inside) .closeParen) ts
      read rule fuel (.more place (.call name args none)) ts
    | .becomes :: ts =>
      if place.pattern then read rule fuel (.more place (.var name none)) (.becomes :: ts)
      else do
        let (e, ts) ← read rule fuel (.expr (place.within .assigned)) ts
        read rule fuel (.more place (.assign name e none none)) ts
    | ts => read rule fuel (.more place (.var name none)) ts
  | fuel + 1, .expr place, .openParen :: ts => do
    let (body, ts) ← read rule fuel (.items (.expr .inside) .closeParen) ts
    read rule fuel (.more place (.group body none)) ts
  | fuel + 1, .expr place, .openBrace :: ts => do
    let (items, ts) ← read rule fuel (.items (.expr .inside) .closeBrace) ts
    read rule fuel (.more place (.tuple items none)) ts
  | fuel + 1, .expr place, .openBracket :: ts => do
    let (items, ts) ← read rule fuel (.items (.expr .inside) .closeBracket) ts
    read rule fuel (.more place (.array items none none none)) ts
  | fuel + 1, .expr place, .head h :: ts => do
    let (t, ts) ← read rule fuel .type (.head h :: ts)
    let ts ← expect .openBracket ts
    let (items, ts) ← read rule fuel (.items (.expr .inside) .closeBracket) ts
    read rule fuel (.more place (.array items (some t) none none)) ts
  | fuel + 1, .expr place, .key .if_ :: ts => do
    let (cond, ts) ← read rule fuel (.expr .inside) ts
    let ts ← expect (.key .then_) ts
    let (whenTrue, ts) ← read rule fuel (.expr .inside) ts
    let ts ← expect (.key .else_) ts
    let (whenFalse, ts) ← read rule fuel (.expr (place.within .elseArm)) ts
    read rule fuel (.more place (.ifElse cond whenTrue whenFalse none)) ts
  | fuel + 1, .expr place, .key .while_ :: ts => do
    let (cond, ts) ← read rule fuel (.expr .inside) ts
    let ts ← expect (.key .do_) ts
    let (body, ts) ← read rule fuel (.expr (place.within .whileBody)) ts
    read rule fuel (.more place (.whileDo cond body none)) ts
  | fuel + 1, .expr place, .key .for_ :: ts => do
    let (loop, ts) ← read rule fuel .var ts
    let ts ← expect (.key .to_) ts
    let (goal, ts) ← read rule fuel (.expr .inside) ts
    let ts ← expect (.key .do_) ts
    let (body, ts) ← read rule fuel (.expr (place.within .forBody)) ts
    read rule fuel (.more place (.forTo loop goal body none)) ts
  | fuel + 1, .expr place, .key .match_ :: ts => do
    let (pattern, ts) ← read rule fuel (.expr .ofPattern) ts
    let ts ← expect .becomes ts
    let (value, ts) ← read rule fuel (.expr (place.within .matched)) ts
    read rule fuel (.more place (.matchWith pattern value none)) ts
  | fuel + 1, .expr place, .key .let_ :: ts => do
    let (vars, ts) ← read rule fuel (.each .var .var) ts
    let (fns, ts) ← read rule fuel (.each .function .fn) ts
    let ts ← expect (.key .in_) ts
    let (body, ts) ← read rule fuel (.items (.expr .inside) (.key .end_)) ts
    read rule fuel (.more place (.letIn vars fns body none)) ts
  -- What stands behind an operand goes on with it, or is left to what waits further out.
  | _ + 1, .more _ left, [] => some (left, [])
  | fuel + 1, .more place left, t :: ts =>
    match leftOpenOf t with
    | none => some (left, t :: ts)
    | some o =>
      if place.takes rule o then
        match o with
        | .operator op => do
          let (right, ts) ← read rule fuel (.expr (place.within (.operand op))) ts
          read rule fuel (.more place (.binary left op right none)) ts
        | .cast => do
          let (target, ts) ← read rule fuel .type ts
          read rule fuel (.more place (.cast left target none)) ts
      else some (left, t :: ts)
  | fuel + 1, .items part close, t :: ts =>
    if t = close then some ([], ts)
    else do
      let (a, ts) ← read rule fuel part (t :: ts)
      let (as, ts) ← read rule fuel (.moreItems part close) ts
      some (a :: as, ts)
  | fuel + 1, .moreItems part close, t :: ts =>
    if t = close then some ([], ts)
    else if t = .comma then do
      let (a, ts) ← read rule fuel part ts
      let (as, ts) ← read rule fuel (.moreItems part close) ts
      some (a :: as, ts)
    else none
  | fuel + 1, .each word part, t :: ts =>
    if t = .key word then do
      let (a, ts) ← read rule fuel part (t :: ts)
      let (as, ts) ← read rule fuel (.each word part) ts
      some (a :: as, ts)
    else some ([], t :: ts)
  | fuel + 1, .var, .key .var :: .name name :: .becomes :: ts => do
    let (value, ts) ← read rule fuel (.expr .inside) ts
    some (⟨name, value, none⟩, ts)
  | fuel + 1, .fn, .key .function :: .name name :: .openParen :: ts => do
    let (args, ts) ← read rule fuel (.items .arg .closeParen) ts
    let ts ← expect .colon ts
    let (result, ts) ← read rule fuel .type ts
    let ts ← expect .becomes ts
    let (body, ts) ← read rule fuel (.expr .inside) ts
    some (⟨name, args, result, body, none⟩, ts)
  | fuel + 1, .arg, .name name :: .colon :: ts => do
    let (t, ts) ← read rule fuel .type ts
    some (⟨name, t, none⟩, ts)
  | _ + 1, .type, .head .void :: ts => some (Ty.void, ts)
  | _ + 1, .type, .head .integer :: ts => some (Ty.integer, ts)
  | _ + 1, .type, .head .float :: ts => some (Ty.float, ts)
  | _ + 1, .type, .head .bool :: ts => some (Ty.bool, ts)
  | _ + 1, .type, .head .str :: ts => some (Ty.str, ts)
  | fuel + 1, .type, .head .array :: .openParen :: ts => do
    let (t, ts) ← read rule fuel .type ts
    let ts ← expect .closeParen ts
    some (Ty.array t, ts)
  | fuel + 1, .type, .head .tuple :: .openParen :: ts => do
    let (types, ts) ← read rule fuel (.items .type .closeParen) ts
    some (Ty.tuple types, ts)
  | _, _, _ => none

def Settles (f : Nat → Option α) (a : α) : Prop := ∃ n, ∀ fuel, n ≤ fuel → f fuel = some a

section Settles

variable {f : Nat → Option α} {a b : α}

theorem Settles.unique (first : Settles f a) (next : Settles f b) : a = b := by
  obtain ⟨n, here⟩ := first
  obtain ⟨n', there⟩ := next
  have same := (here (max n n') (Nat.le_max_left ..)).symm.trans (there _ (Nat.le_max_right ..))
  exact Option.some.inj same

theorem settles_of_eq {o : Option α} (is : o = some a) : Settles (fun _ => o) a :=
  ⟨0, fun _ _ => is⟩

theorem Settles.bind {g : Nat → α → Option β} {b : β} (first : Settles f a)
    (next : Settles (fun fuel => g fuel a) b) : Settles (fun fuel => f fuel >>= g fuel) b := by
  obtain ⟨n, here⟩ := first
  obtain ⟨n', there⟩ := next
  refine ⟨max n n', fun fuel le => ?_⟩
  simp only [here fuel (by omega), Option.bind_eq_bind, Option.bind_some, there fuel (by omega)]

theorem settles_succ (next : Settles (fun fuel => f (fuel + 1)) a) : Settles f a := by
  obtain ⟨n, here⟩ := next
  refine ⟨n + 1, fun fuel le => ?_⟩
  obtain ⟨k, rfl⟩ := Nat.exists_eq_add_of_le' (Nat.le_trans (Nat.le_add_left 1 n) le)
  exact here k (by omega)

end Settles

abbrev Reads (rule : Rule) (part : Part) (ts : List Token) (r : part.Result × List Token) : Prop :=
  Settles (fun fuel => read rule fuel part ts) r

section Lists

variable {rule : Rule} {part : Part} {tokens : α → List Token} {result : α → part.Result}
  {close t : Token} {rest : List Token}

theorem behind_item (tokens : α → List Token) (as : List α) : ∃ u more,
    as.flatMap (fun a => .comma :: tokens a) ++ close :: rest = u :: more ∧
      (u = .comma ∨ u = close) := by
  cases as with
  | nil => exact ⟨close, rest, rfl, .inr rfl⟩
  | cons a as => exact ⟨.comma, _, rfl, .inl rfl⟩

theorem reads_moreItems {as : List α} (other : close ≠ .comma)
    (each : ∀ a ∈ as, ∀ u more, u = .comma ∨ u = close →
      Reads rule part (tokens a ++ u :: more) (result a, u :: more)) :
    Reads rule (.moreItems part close) (as.flatMap (fun a => .comma :: tokens a) ++ close :: rest)
      (as.map result, rest) := by
  induction as with
  | nil =>
    apply settles_succ
    simp only [List.flatMap_nil, List.nil_append, read, if_true]
    exact settles_of_eq rfl
  | cons a as ih =>
    obtain ⟨first, others⟩ := List.forall_mem_cons.mp each
    obtain ⟨u, more, next, ends⟩ := behind_item tokens as
    have here := first u more ends
    rw [← next] at here
    apply settles_succ
    simp only [List.flatMap_cons, List.cons_append, List.append_assoc, read, if_neg other.symm,
      if_true]
    exact here.bind ((ih others).bind (settles_of_eq rfl))

theorem reads_items {as : List α} (other : close ≠ .comma)
    (starts : ∀ a ∈ as, ∃ u more, tokens a = u :: more ∧ u ≠ close)
    (each : ∀ a ∈ as, ∀ u more, u = .comma ∨ u = close →
      Reads rule part (tokens a ++ u :: more) (result a, u :: more)) :
    Reads rule (.items part close) (separated (as.map tokens) ++ close :: rest)
      (as.map result, rest) := by
  cases as with
  | nil =>
    apply settles_succ
    simp only [List.map_nil, separated, List.nil_append, read, if_true]
    exact settles_of_eq rfl
  | cons a as =>
    obtain ⟨first, others⟩ := List.forall_mem_cons.mp each
    obtain ⟨u, more, next, ends⟩ := behind_item tokens as
    obtain ⟨t, front, is, goes⟩ := starts a (.head _)
    have here := first u more ends
    rw [← next, is, List.cons_append] at here
    apply settles_succ
    simp only [List.map_cons, separated_cons, List.flatMap_map, is, List.cons_append,
      List.append_assoc, read, if_neg goes]
    exact here.bind ((reads_moreItems other others).bind (settles_of_eq rfl))

theorem reads_each {word : Key} {as : List α} (other : t ≠ .key word)
    (starts : ∀ a ∈ as, ∃ more, tokens a = .key word :: more)
    (each : ∀ a ∈ as, ∀ u more, u = .key word ∨ u = t →
      Reads rule part (tokens a ++ u :: more) (result a, u :: more)) :
    Reads rule (.each word part) (as.flatMap tokens ++ t :: rest) (as.map result, t :: rest) := by
  induction as with
  | nil =>
    apply settles_succ
    simp only [List.flatMap_nil, List.nil_append, read, if_neg other]
    exact settles_of_eq rfl
  | cons a as ih =>
    obtain ⟨first, others⟩ := List.forall_mem_cons.mp each
    obtain ⟨⟨front, is⟩, go⟩ := List.forall_mem_cons.mp starts
    obtain ⟨u, more, next, ends⟩ : ∃ u more, as.flatMap tokens ++ t :: rest = u :: more ∧
        (u = .key word ∨ u = t) := by
      cases as with
      | nil => exact ⟨t, rest, rfl, .inr rfl⟩
      | cons b as =>
        obtain ⟨behind, start⟩ := go b (.head _)
        exact ⟨.key word, _, by rw [List.flatMap_cons, start]; rfl, .inl rfl⟩
    have here := first u more ends
    rw [← next, is, List.cons_append] at here
    apply settles_succ
    simp only [List.flatMap_cons, is, List.cons_append, List.append_assoc, read, if_true]
    exact here.bind ((ih go others).bind (settles_of_eq rfl))

end Lists

end Reading

end TypedLet
