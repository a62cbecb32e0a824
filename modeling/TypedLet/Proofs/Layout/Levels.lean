import TypedLet.Proofs.Layout.Indentation
import TypedLet.Proofs.Reading.Layout

/-
The text of an expression at a level, and at one that is further in. Names and literals have
no line breaks, so lines begin only where a group or a let begins one, and there the whole
indentation of the level stands. So what is a number of levels further in is the same text,
moved by the indentation of as many levels.
-/
namespace TypedLet

open Layout

namespace Layout

section Literals

def Scalar : Value → Prop
  | .array .. | .tuple .. => False
  | _ => True

theorem proper_of_isWord {text : String} (isWord : Reading.IsWord text.toList) : Proper text := by
  obtain ⟨c, cs, word, first, others⟩ := isWord
  constructor
  · rintro rfl
    exact nomatch word
  · rw [OneLine, word, List.mem_cons, not_or]
    constructor
    · rintro rfl
      exact absurd first (by decide)
    · intro inside
      rcases others '\n' inside with letter | dash
      · exact absurd letter (by decide)
      · exact absurd dash (by decide)

theorem display_negativeZero {x : Float} (zero : x.toBits = Decimal.negativeZero) :
    Decimal.display x = "0." := by
  have sort : Decimal.classify x = .finite true ⟨0, -1074, false⟩ := by
    unfold Decimal.classify
    rw [zero]
    decide +kernel
  unfold Decimal.display Decimal.textWith
  rw [sort]
  decide +kernel

theorem proper_worded {v : Value} (worded : v.Worded) : Proper v.display := by
  have word : Proper (String.ofList v.word) :=
    proper_of_isWord (String.toList_ofList ▸ (Value.isWord_word worded).1)
  have text : v.display = String.ofList (Decimal.minus v.negative) ++ String.ofList v.word := by
    rw [← String.ofList_append, ← Value.toList_display worded, String.ofList_toList]
  rw [text]
  cases v.negative with
  | true => exact ⟨by simp [Decimal.minus], OneLine.append (by decide) word.oneLine⟩
  | false => simpa [Decimal.minus] using word

theorem proper_quoted (s : String) : Proper (Text.quoted s) := by
  have clean : '\n' ∉ Text.Quoted.escapeAll s.toList := by
    intro member
    obtain ⟨c, _, inside⟩ := List.mem_flatMap.mp member
    exact (Text.Quoted.not_mem_escape inside).1 rfl
  constructor
  · simp [Text.quoted, Text.Quoted.encode]
  · rw [OneLine, Text.quoted, String.toList_ofList]
    simpa [Text.Quoted.encode] using clean

theorem proper_literal {v : Value} (scalar : Scalar v) : Proper (literal v) := by
  cases v with
  | str s => exact proper_quoted s
  | void | int | bool => exact proper_worded trivial
  | float x =>
    by_cases zero : x.toBits = Decimal.negativeZero
    · have text : literal (.float x) = "0." := display_negativeZero zero
      rw [text]
      decide
    · exact proper_worded zero
  | array | tuple => cases scalar

end Literals

mutual
theorem oneLine_display : ∀ t : Ty, OneLine t.display
  | .void | .integer | .float | .bool | .str => by decide
  | .array t => by
    rw [Ty.display, oneLine_append, oneLine_append]
    exact ⟨⟨by decide, oneLine_display t⟩, by decide⟩
  | .tuple ts => by
    rw [Ty.display, oneLine_append, oneLine_append]
    exact ⟨⟨by decide, oneLine_joined (by decide) (oneLine_displayAll ts)⟩, by decide⟩
theorem oneLine_displayAll : ∀ ts : List Ty, ∀ text ∈ Ty.displayAll ts, OneLine text
  | [] => List.forall_mem_nil _
  | t :: ts => List.forall_mem_cons.mpr ⟨oneLine_display t, oneLine_displayAll ts⟩
end

theorem oneLine_signature {name : String} {args : List ArgDecl} (result : Ty)
    (named : OneLine name) (each : ∀ a ∈ args, OneLine a.name) :
    OneLine (signature name args result) := by
  have listed : ∀ text ∈ args.map argument, OneLine text := by
    intro text member
    obtain ⟨a, given, rfl⟩ := List.mem_map.mp member
    simp only [argument, oneLine_append]
    exact ⟨⟨each a given, by decide⟩, oneLine_display a.type⟩
  simp only [signature, oneLine_append]
  exact ⟨⟨⟨⟨⟨by decide, named⟩, by decide⟩, oneLine_joined (by decide) listed⟩, by decide⟩,
    oneLine_display result⟩

theorem starts_display (t : Ty) : Starts t.display := by
  cases t <;> simp [Ty.display, Starts]

theorem oneLine_symbol (op : BinaryOp) : OneLine op.symbol := by cases op <;> decide

theorem oneLine_sign (op : UnaryOp) : OneLine op.symbol := by cases op <;> decide

theorem oneLine_element (element : Option Ty) : OneLine ((element.map Ty.display).getD "") := by
  cases element with
  | none => exact List.not_mem_nil
  | some t => exact oneLine_display t

section Indents

variable (style : Style) (j k : Nat)

theorem indent_add : style.indent (k + j) = style.indent k ++ style.indent j := by
  simp only [Style.indent, Nat.add_mul, ← List.replicate_append_replicate, String.ofList_append]

theorem oneLine_indent : OneLine (style.indent j) := by
  rw [OneLine, Style.indent, String.toList_ofList, List.mem_replicate]
  rintro ⟨_, line⟩
  split at line <;> exact absurd line (by decide)

variable {style k}

theorem moves_indented {q : Bool} {text moved : String} (starts : Starts text)
    (inside : Moves (style.indent k) false q text moved) :
    Moves (style.indent k) true q (style.indent j ++ text) (style.indent (k + j) ++ moved) := by
  have front := oneLine_indent style j
  rw [indent_add, String.append_assoc]
  exact ((moves_text _ front).append inside).fresh (starts.behind front)

variable {f g : α → String} {items : List α}

theorem moves_list (each : ∀ i ∈ items, Item (style.indent k) (f i) (g i)) :
    Moves (style.indent k) false false (Text.joined ", " (items.map f))
      (Text.joined ", " (items.map g)) := by
  by_cases some : items = []
  · subst some
    exact moves_empty
  · exact moves_joined (moves_text ", " (by decide)) some fun i member => (each i member).moves

theorem moves_block (each : ∀ i ∈ items, Item (style.indent k) (f i) (g i)) :
    Moves (style.indent k) true true (block (style.indent j) (items.map f))
      (block (style.indent (k + j)) (items.map g)) := by
  rw [block, block, List.map_map, List.map_map]
  by_cases some : items = []
  · subst some
    exact moves_empty.append moves_break
  · have sep : Moves (style.indent k) false true ",\n" ",\n" := fun _ => rfl
    refine (moves_joined sep some fun i member => ?_).append moves_break
    exact moves_indented j (each i member).starts (each i member).moves

theorem moves_declarations (each : ∀ i ∈ items, Item (style.indent k) (f i) (g i)) :
    Moves (style.indent k) true true (declarations (style.indent j) (items.map f))
      (declarations (style.indent (k + j)) (items.map g)) := by
  induction items with
  | nil => exact moves_empty
  | cons i items ih =>
    obtain ⟨⟨starts, inside⟩, others⟩ := List.forall_mem_cons.mp each
    rw [List.map_cons, List.map_cons, declarations_cons, declarations_cons]
    exact ((moves_indented j starts inside).append moves_break).append (ih others)

end Indents

end Layout

namespace Expr

def CleanHere : Expr → Prop
  | literal v _ => Scalar v
  | var name _ | assign name _ _ _ | call name _ _ => Proper name
  | letIn vars fns _ _ => (∀ d ∈ vars, Proper d.name) ∧
    ∀ f ∈ fns, Proper f.name ∧ ∀ a ∈ f.args, Proper a.name
  | forTo loop _ _ _ => Proper loop.name
  | _ => True

def Clean : Expr → Prop := Everywhere CleanHere

def FlatHere : Expr → Prop
  | group .. | letIn .. => False
  | _ => True

def Flat : Expr → Prop := Everywhere FlatHere

theorem starts_layout (style : Style) : ∀ (e : Expr) (level : Nat), e.Clean →
    Starts (e.layout style level)
  | literal v _, level, clean => (proper_literal clean).starts
  | var name _, level, clean => Proper.starts clean
  | assign name value _ _, level, clean => by
    rw [layout]
    exact (clean.1.starts.append _).append _
  | call name args _, level, clean => by
    rw [layout]
    exact ((clean.1.starts.append _).append _).append _
  | binary left op right _, level, clean => by
    rw [layout]
    exact ((((starts_layout style left level clean.2.1).append _).append _).append _).append _
  | cast operand target _, level, clean => by
    rw [layout]
    exact ((starts_layout style operand level clean.2).append _).append _
  | unary op _ _, level, _ => by cases op <;> simp [layout, Starts, UnaryOp.symbol]
  | array _ (some t) _ _, level, _ => by
    rw [layout]
    exact (((starts_display t).append _).append _).append _
  | group .., level, _ | letIn .., level, _ | matchWith .., level, _ | ifElse .., level, _
  | whileDo .., level, _ | forTo .., level, _ | array _ none _ _, level, _
  | tuple .., level, _ => by simp [layout, Starts]

theorem starts_layoutVar (style : Style) (level : Nat) (d : VarDecl) :
    Starts (layoutVar style level d) := by
  cases d
  simp [layoutVar, Starts]

theorem starts_layoutFn (style : Style) (level : Nat) (f : FnDecl) :
    Starts (layoutFn style level f) := by
  cases f
  simp [layoutFn, signature, Starts]

section Further

variable (style : Style) (k : Nat)

mutual
/-- Further in, the text is moved. -/
theorem moves_layout : ∀ (e : Expr) (level : Nat), e.Clean →
    Moves (style.indent k) false false (e.layout style level) (e.layout style (k + level))
  | literal v _, _, clean => moves_text _ (proper_literal clean).oneLine
  | var name _, _, clean => moves_text name (Proper.oneLine clean)
  | group body _, level, ⟨_, clean⟩ => by
    have opened : Moves (style.indent k) false true "(\n" "(\n" := fun _ => rfl
    have items := moves_block (level + 1) (items_layoutAll body (level + 1) clean)
    -- The parenthesis that closes stands on a line of its own, at the level of the group.
    have whole := (opened.append items).append
      (moves_indented level (by simp [Starts]) (moves_text ")" (by decide)))
    simpa [layout, layoutAll_eq_map, String.append_assoc, Nat.add_assoc] using whole
  | letIn vars fns body _, level, ⟨⟨varNames, fnNames⟩, varsClean, fnsClean, clean⟩ => by
    have opened : Moves (style.indent k) false true "let\n" "let\n" := fun _ => rfl
    have inside : Moves (style.indent k) false true "in\n" "in\n" := fun _ => rfl
    have varLines := moves_declarations (level + 1)
      (items_layoutVars vars (level + 1) varNames varsClean)
    have fnLines := moves_declarations (level + 1)
      (items_layoutFns fns (level + 1) fnNames fnsClean)
    have middle := moves_indented level (by simp [Starts]) inside
    have items := moves_block (level + 1) (items_layoutAll body (level + 1) clean)
    have declared := (opened.append varLines).append fnLines
    have whole := ((declared.append middle).append items).append
      (moves_indented level (by simp [Starts]) (moves_text "end" (by decide)))
    simpa [layout, layoutAll_eq_map, layoutVars_eq_map, layoutFns_eq_map, String.append_assoc,
      Nat.add_assoc] using whole
  | assign name value _ _, level, ⟨proper, clean⟩ =>
    ((moves_text name proper.oneLine).text " := " (by decide)).append
      (moves_layout value level clean)
  | matchWith pattern value _, level, ⟨_, patternClean, clean⟩ => by
    have shape := (moves_text "match " (by decide)).append (moves_layout pattern level patternClean)
    exact (shape.text " := " (by decide)).append (moves_layout value level clean)
  | call name args _, level, ⟨proper, clean⟩ => by
    have items := moves_list (items_layoutAll args level clean)
    have whole := (((moves_text name proper.oneLine).text "(" (by decide)).append items).text ")"
      (by decide)
    simpa only [layout, layoutAll_eq_map] using whole
  | ifElse cond whenTrue whenFalse _, level, ⟨_, condClean, trueClean, falseClean⟩ => by
    have test := (moves_text "if " (by decide)).append (moves_layout cond level condClean)
    have first := (test.text " then " (by decide)).append (moves_layout whenTrue level trueClean)
    exact (first.text " else " (by decide)).append (moves_layout whenFalse level falseClean)
  | whileDo cond body _, level, ⟨_, condClean, clean⟩ => by
    have test := (moves_text "while " (by decide)).append (moves_layout cond level condClean)
    exact (test.text " do " (by decide)).append (moves_layout body level clean)
  | forTo loop goal body _, level, ⟨proper, startClean, goalClean, clean⟩ => by
    have start := (moves_text "for " (by decide)).append
      (moves_layoutVar loop level proper startClean)
    have bound := (start.text " to " (by decide)).append (moves_layout goal level goalClean)
    exact (bound.text " do " (by decide)).append (moves_layout body level clean)
  | binary left op right _, level, ⟨_, leftClean, rightClean⟩ => by
    have first := (moves_layout left level leftClean).text " " (by decide)
    have sign := (first.text op.symbol (oneLine_symbol op)).text " " (by decide)
    exact sign.append (moves_layout right level rightClean)
  | unary op operand _, level, ⟨_, clean⟩ =>
    (moves_text op.symbol (oneLine_sign op)).append (moves_layout operand level clean)
  | cast operand target _, level, ⟨_, clean⟩ => by
    have first := (moves_layout operand level clean).text " as " (by decide)
    exact first.text target.display (oneLine_display target)
  | array items element _ _, level, ⟨_, clean⟩ => by
    have inside := moves_list (items_layoutAll items level clean)
    have whole := (((moves_text _ (oneLine_element element)).text "[" (by decide)).append
      inside).text "]" (by decide)
    simpa only [layout, layoutAll_eq_map] using whole
  | tuple items _, level, ⟨_, clean⟩ => by
    have inside := moves_list (items_layoutAll items level clean)
    have whole := ((moves_text "\x7b" (by decide)).append inside).text "\x7d" (by decide)
    simpa only [layout, layoutAll_eq_map] using whole
theorem items_layoutAll : ∀ (es : List Expr) (level : Nat), EverywhereAll CleanHere es →
    ∀ e ∈ es, Item (style.indent k) (e.layout style level) (e.layout style (k + level))
  | [], _, _ => List.forall_mem_nil _
  | e :: es, level, ⟨first, others⟩ => List.forall_mem_cons.mpr
    ⟨⟨starts_layout style e level first, moves_layout e level first⟩,
      items_layoutAll es level others⟩
theorem moves_layoutVar : ∀ (d : VarDecl) (level : Nat), Proper d.name →
    EverywhereVar CleanHere d → Moves (style.indent k) false false (layoutVar style level d)
      (layoutVar style (k + level) d)
  | ⟨name, value, _⟩, level, proper, clean =>
    (((moves_text "var " (by decide)).text name proper.oneLine).text " := " (by decide)).append
      (moves_layout value level clean)
theorem items_layoutVars : ∀ (ds : List VarDecl) (level : Nat),
    (∀ d ∈ ds, Proper d.name) → EverywhereVars CleanHere ds →
    ∀ d ∈ ds, Item (style.indent k) (layoutVar style level d) (layoutVar style (k + level) d)
  | [], _, _, _ => List.forall_mem_nil _
  | d :: ds, level, names, ⟨first, others⟩ => by
    obtain ⟨name, rest⟩ := List.forall_mem_cons.mp names
    exact List.forall_mem_cons.mpr
      ⟨⟨starts_layoutVar style level d, moves_layoutVar d level name first⟩,
        items_layoutVars ds level rest others⟩
theorem items_layoutFns : ∀ (fs : List FnDecl) (level : Nat),
    (∀ f ∈ fs, Proper f.name ∧ ∀ a ∈ f.args, Proper a.name) →
    EverywhereFns CleanHere fs →
    ∀ f ∈ fs, Item (style.indent k) (layoutFn style level f) (layoutFn style (k + level) f)
  | [], _, _, _ => List.forall_mem_nil _
  | ⟨name, args, result, body, span⟩ :: fs, level, names, ⟨first, others⟩ => by
    obtain ⟨⟨proper, each⟩, rest⟩ := List.forall_mem_cons.mp names
    have head := oneLine_signature result proper.oneLine fun a given => (each a given).oneLine
    have whole := ((moves_text _ head).text " := " (by decide)).append
      (moves_layout body level first)
    exact List.forall_mem_cons.mpr
      ⟨⟨starts_layoutFn style level _, whole⟩, items_layoutFns fs level rest others⟩
end

end Further

section Flat

variable (style : Style) (level : Nat)

mutual
/-- Only a group and a let break a line. -/
theorem oneLine_layout : ∀ e : Expr, e.Clean → e.Flat → OneLine (e.layout style level)
  | literal _ _, clean, _ => (proper_literal clean).oneLine
  | var _ _, clean, _ => Proper.oneLine clean
  | group _ _, _, flat => flat.1.elim
  | letIn _ _ _ _, _, flat => flat.1.elim
  | assign _ value _ _, ⟨proper, clean⟩, ⟨_, flat⟩ =>
    (proper.oneLine.append (by decide)).append (oneLine_layout value clean flat)
  | matchWith pattern value _, ⟨_, patternClean, clean⟩, ⟨_, patternFlat, flat⟩ => by
    have shape := oneLine_layout pattern patternClean patternFlat
    exact ((OneLine.append (by decide) shape).append (by decide)).append
      (oneLine_layout value clean flat)
  | call _ args _, ⟨proper, clean⟩, ⟨_, flat⟩ => by
    have items := oneLine_list (oneLine_layoutAll args clean flat)
    exact ((proper.oneLine.append (by decide)).append items).append (by decide)
  | ifElse cond whenTrue whenFalse _, ⟨_, condClean, trueClean, falseClean⟩,
    ⟨_, condFlat, trueFlat, falseFlat⟩ => by
    have test := oneLine_layout cond condClean condFlat
    have first := oneLine_layout whenTrue trueClean trueFlat
    have second := oneLine_layout whenFalse falseClean falseFlat
    exact ((((OneLine.append (by decide) test).append (by decide)).append first).append
      (by decide)).append second
  | whileDo cond body _, ⟨_, condClean, clean⟩, ⟨_, condFlat, flat⟩ => by
    have test := oneLine_layout cond condClean condFlat
    exact ((OneLine.append (by decide) test).append (by decide)).append
      (oneLine_layout body clean flat)
  | forTo loop goal body _, ⟨proper, startClean, goalClean, clean⟩,
    ⟨_, startFlat, goalFlat, flat⟩ => by
    have start := oneLine_layoutVar loop proper startClean startFlat
    have bound := oneLine_layout goal goalClean goalFlat
    exact ((((OneLine.append (by decide) start).append (by decide)).append bound).append
      (by decide)).append (oneLine_layout body clean flat)
  | binary left op right _, ⟨_, leftClean, rightClean⟩, ⟨_, leftFlat, rightFlat⟩ => by
    have first := oneLine_layout left leftClean leftFlat
    exact (((first.append (by decide)).append (oneLine_symbol op)).append (by decide)).append
      (oneLine_layout right rightClean rightFlat)
  | unary op operand _, ⟨_, clean⟩, ⟨_, flat⟩ =>
    (oneLine_sign op).append (oneLine_layout operand clean flat)
  | cast operand target _, ⟨_, clean⟩, ⟨_, flat⟩ =>
    ((oneLine_layout operand clean flat).append (by decide)).append (oneLine_display target)
  | array items element _ _, ⟨_, clean⟩, ⟨_, flat⟩ => by
    have inside := oneLine_list (oneLine_layoutAll items clean flat)
    exact (((oneLine_element element).append (by decide)).append inside).append (by decide)
  | tuple items _, ⟨_, clean⟩, ⟨_, flat⟩ => by
    have inside := oneLine_list (oneLine_layoutAll items clean flat)
    exact (OneLine.append (by decide) inside).append (by decide)
theorem oneLine_layoutAll : ∀ es : List Expr, EverywhereAll CleanHere es →
    EverywhereAll FlatHere es → ∀ text ∈ layoutAll style level es, OneLine text
  | [], _, _ => List.forall_mem_nil _
  | e :: es, ⟨first, others⟩, ⟨firstFlat, othersFlat⟩ => List.forall_mem_cons.mpr
    ⟨oneLine_layout e first firstFlat, oneLine_layoutAll es others othersFlat⟩
theorem oneLine_layoutVar : ∀ d : VarDecl, Proper d.name → EverywhereVar CleanHere d →
    EverywhereVar FlatHere d → OneLine (layoutVar style level d)
  | ⟨_, value, _⟩, proper, clean, flat =>
    ((OneLine.append (by decide) proper.oneLine).append (by decide)).append
      (oneLine_layout value clean flat)
end

end Flat

end Expr

end TypedLet
