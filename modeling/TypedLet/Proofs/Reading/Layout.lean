import TypedLet.Proofs.Reading.Words

/-
The tokens of a tree, in the order in which its text has them.
-/
namespace TypedLet

open Reading Layout

def UnaryOp.sign : UnaryOp → BinaryOp
  | plus => .add
  | minus => .sub

def ArgDecl.tokens (a : ArgDecl) : List Token := .name a.name :: .colon :: a.type.tokens

namespace Expr

section Everywhere

variable (P : Expr → Prop)

mutual
def Everywhere : Expr → Prop
  | literal v span => P (literal v span)
  | var name span => P (var name span)
  | group body span => P (group body span) ∧ EverywhereAll body
  | letIn vars fns body span =>
    P (letIn vars fns body span) ∧ EverywhereVars vars ∧ EverywhereFns fns ∧ EverywhereAll body
  | assign name value nameSpan span => P (assign name value nameSpan span) ∧ Everywhere value
  | matchWith pattern value span =>
    P (matchWith pattern value span) ∧ Everywhere pattern ∧ Everywhere value
  | call name args span => P (call name args span) ∧ EverywhereAll args
  | ifElse cond whenTrue whenFalse span =>
    P (ifElse cond whenTrue whenFalse span) ∧ Everywhere cond ∧ Everywhere whenTrue ∧
      Everywhere whenFalse
  | whileDo cond body span => P (whileDo cond body span) ∧ Everywhere cond ∧ Everywhere body
  | forTo loop goal body span =>
    P (forTo loop goal body span) ∧ EverywhereVar loop ∧ Everywhere goal ∧ Everywhere body
  | binary left op right span => P (binary left op right span) ∧ Everywhere left ∧ Everywhere right
  | unary op operand span => P (unary op operand span) ∧ Everywhere operand
  | cast operand target span => P (cast operand target span) ∧ Everywhere operand
  | array items element elementSpan span =>
    P (array items element elementSpan span) ∧ EverywhereAll items
  | tuple items span => P (tuple items span) ∧ EverywhereAll items
def EverywhereAll : List Expr → Prop
  | [] => True
  | e :: es => Everywhere e ∧ EverywhereAll es
def EverywhereVar : VarDecl → Prop
  | ⟨_, value, _⟩ => Everywhere value
def EverywhereVars : List VarDecl → Prop
  | [] => True
  | d :: ds => EverywhereVar d ∧ EverywhereVars ds
def EverywhereFn : FnDecl → Prop
  | ⟨_, _, _, body, _⟩ => Everywhere body
def EverywhereFns : List FnDecl → Prop
  | [] => True
  | f :: fs => EverywhereFn f ∧ EverywhereFns fs
end

end Everywhere

mutual
def tokens : Expr → List Token
  | literal v _ => v.tokens
  | var name _ => [.name name]
  | group body _ => .openParen :: separated (tokensAll body) ++ [.closeParen]
  | letIn vars fns body _ =>
    .key .let_ :: tokensVars vars ++ tokensFns fns ++ .key .in_ :: separated (tokensAll body)
      ++ [.key .end_]
  | assign name value _ _ => .name name :: .becomes :: tokens value
  | matchWith pattern value _ => .key .match_ :: tokens pattern ++ .becomes :: tokens value
  | call name args _ => .name name :: .openParen :: separated (tokensAll args) ++ [.closeParen]
  | ifElse cond whenTrue whenFalse _ =>
    .key .if_ :: tokens cond ++ .key .then_ :: tokens whenTrue ++ .key .else_ :: tokens whenFalse
  | whileDo cond body _ => .key .while_ :: tokens cond ++ .key .do_ :: tokens body
  | forTo loop goal body _ =>
    .key .for_ :: tokensVar loop ++ .key .to_ :: tokens goal ++ .key .do_ :: tokens body
  | binary left op right _ => tokens left ++ .op op :: tokens right
  | unary op operand _ => .op op.sign :: tokens operand
  | cast operand target _ => tokens operand ++ .key .as_ :: target.tokens
  | array items element _ _ =>
    (element.map Ty.tokens).getD [] ++ .openBracket :: separated (tokensAll items)
      ++ [.closeBracket]
  | tuple items _ => .openBrace :: separated (tokensAll items) ++ [.closeBrace]
def tokensAll : List Expr → List (List Token)
  | [] => []
  | e :: es => tokens e :: tokensAll es
def tokensVar : VarDecl → List Token
  | ⟨name, value, _⟩ => .key .var :: .name name :: .becomes :: tokens value
def tokensVars : List VarDecl → List Token
  | [] => []
  | d :: ds => tokensVar d ++ tokensVars ds
def tokensFn : FnDecl → List Token
  | ⟨name, args, result, body, _⟩ =>
    .key .function :: .name name :: .openParen :: separated (args.map ArgDecl.tokens)
      ++ .closeParen :: .colon :: result.tokens ++ .becomes :: tokens body
def tokensFns : List FnDecl → List Token
  | [] => []
  | f :: fs => tokensFn f ++ tokensFns fs
end

/-- What the text of a literal and the names in it have to be, for tokens to be read from it. -/
def WrittenHere : Expr → Prop
  | literal v _ => v.Plain
  | var name _ | assign name _ _ _ | call name _ _ => Identifier name
  | letIn vars fns _ _ => (∀ d ∈ vars, Identifier d.name) ∧
    ∀ f ∈ fns, Identifier f.name ∧ ∀ a ∈ f.args, Identifier a.name
  | forTo loop _ _ _ => Identifier loop.name
  | _ => True

def Written : Expr → Prop := Everywhere WrittenHere

theorem tokensAll_eq_map (es : List Expr) : tokensAll es = es.map tokens := by
  induction es with
  | nil => rfl
  | cons e es ih => rw [tokensAll, ih, List.map_cons]

theorem layoutAll_eq_map (style : Style) (level : Nat) (es : List Expr) :
    layoutAll style level es = es.map (layout style level) := by
  induction es with
  | nil => rfl
  | cons e es ih => rw [layoutAll, ih, List.map_cons]

theorem layoutVars_eq_map (style : Style) (level : Nat) (ds : List VarDecl) :
    layoutVars style level ds = ds.map (layoutVar style level) := by
  induction ds with
  | nil => rfl
  | cons d ds ih => rw [layoutVars, ih, List.map_cons]

theorem layoutFns_eq_map (style : Style) (level : Nat) (fs : List FnDecl) :
    layoutFns style level fs = fs.map (layoutFn style level) := by
  induction fs with
  | nil => rfl
  | cons f fs ih => rw [layoutFns, ih, List.map_cons]

theorem tokensVars_eq_flatMap (ds : List VarDecl) : tokensVars ds = ds.flatMap tokensVar := by
  induction ds with
  | nil => rfl
  | cons d ds ih => rw [tokensVars, ih, List.flatMap_cons]

theorem tokensFns_eq_flatMap (fs : List FnDecl) : tokensFns fs = fs.flatMap tokensFn := by
  induction fs with
  | nil => rfl
  | cons f fs ih => rw [tokensFns, ih, List.flatMap_cons]

end Expr

namespace Layout

open Reading

theorem closed_indent (style : Style) (level : Nat) : Closed (style.indent level).toList [] := by
  unfold Style.indent
  rw [String.toList_ofList]
  generalize level * _ = n
  have fill : ∀ c : Char, (c = ' ' ∨ c = '\t') → Closed (List.replicate n c) [] := by
    intro c blank
    induction n with
    | zero => exact closed_nil
    | succ n ih => rcases blank with rfl | rfl <;> exact fun rest => ih rest
  apply fill
  cases style.blanks <;> simp

theorem ends_line : Ends "\n".toList := ⟨_, _, rfl, by decide⟩

theorem closed_line : Closed "\n".toList [] := fun _ => rfl

theorem line_sep : ",\n".toList = ',' :: ['\n'] := rfl

theorem closed_block {text : α → String} {tokens : α → List Token} {indent : String}
    (blank : Closed indent.toList []) {items : List α}
    (each : ∀ a ∈ items, Spells (text a).toList (tokens a)) :
    Closed (block indent (items.map text)).toList (separated (items.map tokens)) := by
  have lines : ∀ a ∈ items, Spells (indent ++ text a).toList (tokens a) := by
    intro a member
    rw [String.toList_append]
    exact blank.spelled (each a member)
  have whole := (spells_joined line_sep closed_line lines).ended closed_line ends_line
  rw [block, List.map_map, String.toList_append]
  simpa [Function.comp_def] using whole

theorem closed_declarations {text : α → String} {tokens : α → List Token} {indent : String}
    (blank : Closed indent.toList []) {items : List α}
    (each : ∀ a ∈ items, Spells (text a).toList (tokens a)) :
    Closed (declarations indent (items.map text)).toList (items.flatMap tokens) := by
  induction items with
  | nil => exact closed_nil
  | cons a items ih =>
    obtain ⟨first, others⟩ := List.forall_mem_cons.mp each
    have line := (blank.spelled first).ended closed_line ends_line
    have all := line.append (ih others)
    rw [List.map_cons, declarations_cons]
    simpa using all

end Layout

namespace Expr

theorem closed_becomes : Closed " := ".toList [.becomes] := fun _ => rfl

theorem ends_becomes : Ends " := ".toList := ⟨_, _, rfl, by decide⟩

theorem closed_open : Closed "(".toList [.openParen] := fun _ => rfl

theorem ends_open : Ends "(".toList := ⟨_, _, rfl, by decide⟩

theorem closed_operator (op : BinaryOp) : Closed (" " ++ op.symbol ++ " ").toList [.op op] := by
  cases op <;> exact fun _ => rfl

theorem ends_operator (op : BinaryOp) : Ends (" " ++ op.symbol ++ " ").toList := by
  cases op <;> exact ⟨_, _, rfl, by decide⟩

theorem closed_sign (op : UnaryOp) : Closed op.symbol.toList [.op op.sign] := by
  cases op <;> exact fun _ => rfl

theorem spells_argument {a : ArgDecl} (name : Identifier a.name) :
    Spells (argument a).toList a.tokens := by
  have colon : Closed ": ".toList [.colon] := fun _ => rfl
  have whole := ((spells_name name).ended colon ⟨_, _, rfl, by decide⟩).spelled
    a.type.spells_display
  simpa [argument, ArgDecl.tokens] using whole

theorem spells_signature {name : String} {args : List ArgDecl} (result : Ty)
    (is : Identifier name) (each : ∀ a ∈ args, Identifier a.name) :
    Spells (signature name args result).toList
      (.key .function :: .name name :: .openParen :: separated (args.map ArgDecl.tokens)
        ++ .closeParen :: .colon :: result.tokens) := by
  have function : Closed "function ".toList [.key .function] := fun _ => rfl
  have colon : Closed "): ".toList [.closeParen, .colon] := fun _ => rfl
  have named := (function.spelled (spells_name is)).ended closed_open ends_open
  have items : Spells (Text.joined ", " (args.map argument)).toList _ :=
    spells_joined comma_sep blank_sep fun a member => spells_argument (each a member)
  have listed := (named.spelled items).ended colon ⟨_, _, rfl, by decide⟩
  simpa [signature] using listed.spelled result.spells_display

variable (style : Style)

mutual
/-- The text of an expression has its tokens, wherever it starts. -/
theorem spells_layout : ∀ (e : Expr) (level : Nat), e.Written →
    Spells (e.layout style level).toList e.tokens
  | literal v span, level, written => Value.spells_literal written
  | var name span, level, written => spells_name written
  | group body span, level, ⟨_, written⟩ => by
    have opened : Closed "(\n".toList [.openParen] := fun _ => rfl
    have items := closed_block (closed_indent style (level + 1))
      (spells_layoutAll body (level + 1) written)
    have whole := ((opened.append items).append (closed_indent style level)).append closed_paren
    simpa [layout, tokens, layoutAll_eq_map, tokensAll_eq_map] using whole.spells
  | letIn vars fns body span, level, ⟨⟨varNames, fnNames⟩, varsWritten, fnsWritten, written⟩ => by
    have inner := closed_indent style (level + 1)
    have outer := closed_indent style level
    have opened : Closed "let\n".toList [.key .let_] := fun _ => rfl
    have inside : Closed "in\n".toList [.key .in_] := fun _ => rfl
    have word : IsWord ['e', 'n', 'd'] := isWord_of_all (by decide) (by decide)
    have last : Spells "end".toList [.key .end_] := spells_word word
    have varLines := closed_declarations inner
      (spells_layoutVars vars (level + 1) varNames varsWritten)
    have fnLines := closed_declarations inner
      (spells_layoutFns fns (level + 1) fnNames fnsWritten)
    have items := closed_block inner (spells_layoutAll body (level + 1) written)
    have declared := (opened.append varLines).append fnLines
    have whole := ((((declared.append outer).append inside).append items).append outer).spelled last
    simpa [layout, tokens, layoutAll_eq_map, layoutVars_eq_map, layoutFns_eq_map,
      tokensAll_eq_map, tokensVars_eq_flatMap, tokensFns_eq_flatMap] using whole
  | assign name value nameSpan span, level, ⟨is, written⟩ => by
    have whole := ((spells_name is).ended closed_becomes ends_becomes).spelled
      (spells_layout value level written)
    simpa [layout, tokens] using whole
  | matchWith pattern value span, level, ⟨_, patternWritten, written⟩ => by
    have opened : Closed "match ".toList [.key .match_] := fun _ => rfl
    have shape := (opened.spelled (spells_layout pattern level patternWritten)).ended
      closed_becomes ends_becomes
    simpa [layout, tokens] using shape.spelled (spells_layout value level written)
  | call name args span, level, ⟨is, written⟩ => by
    have items := spells_joined comma_sep blank_sep (spells_layoutAll args level written)
    have whole := (((spells_name is).ended closed_open ends_open).spelled items).ended
      closed_paren ends_paren
    simpa [layout, tokens, layoutAll_eq_map, tokensAll_eq_map] using whole.spells
  | ifElse cond whenTrue whenFalse span, level, ⟨_, condWritten, trueWritten, falseWritten⟩ => by
    have opened : Closed "if ".toList [.key .if_] := fun _ => rfl
    have then_ : Closed " then ".toList [.key .then_] := fun _ => rfl
    have else_ : Closed " else ".toList [.key .else_] := fun _ => rfl
    have test := (opened.spelled (spells_layout cond level condWritten)).ended then_
      ⟨_, _, rfl, by decide⟩
    have first := (test.spelled (spells_layout whenTrue level trueWritten)).ended else_
      ⟨_, _, rfl, by decide⟩
    simpa [layout, tokens] using first.spelled (spells_layout whenFalse level falseWritten)
  | whileDo cond body span, level, ⟨_, condWritten, written⟩ => by
    have opened : Closed "while ".toList [.key .while_] := fun _ => rfl
    have do_ : Closed " do ".toList [.key .do_] := fun _ => rfl
    have test := (opened.spelled (spells_layout cond level condWritten)).ended do_
      ⟨_, _, rfl, by decide⟩
    simpa [layout, tokens] using test.spelled (spells_layout body level written)
  | forTo loop goal body span, level, ⟨is, startWritten, goalWritten, written⟩ => by
    have opened : Closed "for ".toList [.key .for_] := fun _ => rfl
    have limit : Closed " to ".toList [.key .to_] := fun _ => rfl
    have do_ : Closed " do ".toList [.key .do_] := fun _ => rfl
    have start := (opened.spelled (spells_layoutVar loop level is startWritten)).ended limit
      ⟨_, _, rfl, by decide⟩
    have bound := (start.spelled (spells_layout goal level goalWritten)).ended do_
      ⟨_, _, rfl, by decide⟩
    simpa [layout, tokens] using bound.spelled (spells_layout body level written)
  | binary left op right span, level, ⟨_, leftWritten, rightWritten⟩ => by
    have first := (spells_layout left level leftWritten).ended (closed_operator op)
      (ends_operator op)
    simpa [layout, tokens] using first.spelled (spells_layout right level rightWritten)
  | unary op operand span, level, ⟨_, written⟩ => by
    simpa [layout, tokens] using (closed_sign op).spelled (spells_layout operand level written)
  | cast operand target span, level, ⟨_, written⟩ => by
    have casting : Closed " as ".toList [.key .as_] := fun _ => rfl
    have first := (spells_layout operand level written).ended casting ⟨_, _, rfl, by decide⟩
    simpa [layout, tokens] using first.spelled target.spells_display
  | array items element elementSpan span, level, ⟨_, written⟩ => by
    have opened : Closed "[".toList [.openBracket] := fun _ => rfl
    have closed : Closed "]".toList [.closeBracket] := fun _ => rfl
    have inside := spells_joined comma_sep blank_sep (spells_layoutAll items level written)
    have bracketed := (opened.spelled inside).ended closed ⟨_, _, rfl, by decide⟩
    cases element with
    | none =>
      simpa [layout, tokens, layoutAll_eq_map, tokensAll_eq_map] using bracketed.spells
    | some t =>
      have typed := (t.spells_display.ended opened ⟨_, _, rfl, by decide⟩).spelled inside
      have whole := typed.ended closed ⟨_, _, rfl, by decide⟩
      simpa [layout, tokens, layoutAll_eq_map, tokensAll_eq_map] using whole.spells
  | tuple items span, level, ⟨_, written⟩ => by
    have opened : Closed "\x7b".toList [.openBrace] := fun _ => rfl
    have closed : Closed "\x7d".toList [.closeBrace] := fun _ => rfl
    have inside := spells_joined comma_sep blank_sep (spells_layoutAll items level written)
    have whole := (opened.spelled inside).ended closed ⟨_, _, rfl, by decide⟩
    simpa [layout, tokens, layoutAll_eq_map, tokensAll_eq_map] using whole.spells
theorem spells_layoutAll : ∀ (es : List Expr) (level : Nat), EverywhereAll WrittenHere es →
    ∀ e ∈ es, Spells (e.layout style level).toList e.tokens
  | [], _, _ => List.forall_mem_nil _
  | e :: es, level, ⟨first, others⟩ =>
    List.forall_mem_cons.mpr ⟨spells_layout e level first, spells_layoutAll es level others⟩
theorem spells_layoutVar : ∀ (d : VarDecl) (level : Nat), Identifier d.name →
    EverywhereVar WrittenHere d → Spells (layoutVar style level d).toList (tokensVar d)
  | ⟨name, value, span⟩, level, is, written => by
    have opened : Closed "var ".toList [.key .var] := fun _ => rfl
    have named := (opened.spelled (spells_name is)).ended closed_becomes ends_becomes
    simpa [layoutVar, tokensVar] using named.spelled (spells_layout value level written)
theorem spells_layoutVars : ∀ (ds : List VarDecl) (level : Nat), (∀ d ∈ ds, Identifier d.name) →
    EverywhereVars WrittenHere ds → ∀ d ∈ ds, Spells (layoutVar style level d).toList (tokensVar d)
  | [], _, _, _ => List.forall_mem_nil _
  | d :: ds, level, names, ⟨first, others⟩ => by
    obtain ⟨name, rest⟩ := List.forall_mem_cons.mp names
    exact List.forall_mem_cons.mpr
      ⟨spells_layoutVar d level name first, spells_layoutVars ds level rest others⟩
theorem spells_layoutFns : ∀ (fs : List FnDecl) (level : Nat),
    (∀ f ∈ fs, Identifier f.name ∧ ∀ a ∈ f.args, Identifier a.name) →
    EverywhereFns WrittenHere fs → ∀ f ∈ fs, Spells (layoutFn style level f).toList (tokensFn f)
  | [], _, _, _ => List.forall_mem_nil _
  | ⟨name, args, result, body, span⟩ :: fs, level, names, ⟨first, others⟩ => by
    obtain ⟨⟨is, each⟩, rest⟩ := List.forall_mem_cons.mp names
    have head := (spells_signature result is each).ended closed_becomes ends_becomes
    have whole := head.spelled (spells_layout body level first)
    exact List.forall_mem_cons.mpr ⟨by simpa [layoutFn, tokensFn] using whole,
      spells_layoutFns fs level rest others⟩
end

end Expr

end TypedLet
