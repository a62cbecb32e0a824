import TypedLet.Proofs.Layout.Levels

/-
The writer that keeps the level that it has reached. It goes further in for the declarations
of a let and for every nested block, and reads the level before and after what it writes
there. It is always back where it was when it is done, so what it writes is the text at the
level where it started. Main statement: wherever the writer starts, it writes the text of
level zero with the indentation before all further lines, and it ends where it started.
-/
namespace TypedLet

open Layout

namespace Layout

def indentation (style : Style) : StateM Nat String := do
  return style.indent (← get)

def writeBlock (style : Style) (items : StateM Nat (List String)) : StateM Nat String := do
  modify (· + 1)
  let indent ← indentation style
  let texts ← items
  modify (· - 1)
  return block indent texts

end Layout

namespace Expr

mutual
def write (style : Style) : Expr → StateM Nat String
  | literal v _ => return Layout.literal v
  | var name _ => return name
  | group body _ => do
    let lines ← writeBlock style (writeAll style body)
    return "(\n" ++ lines ++ (← indentation style) ++ ")"
  | letIn vars fns body _ => do
    let outer ← indentation style
    modify (· + 1)
    let varLines ← writeVars style vars
    let fnLines ← writeFns style fns
    modify (· - 1)
    let lines ← writeBlock style (writeAll style body)
    return "let\n" ++ varLines ++ fnLines ++ outer ++ "in\n" ++ lines ++ outer ++ "end"
  | assign name value _ _ => return name ++ " := " ++ (← write style value)
  | matchWith pattern value _ =>
    return "match " ++ (← write style pattern) ++ " := " ++ (← write style value)
  | call name args _ => return name ++ "(" ++ Text.joined ", " (← writeAll style args) ++ ")"
  | ifElse cond whenTrue whenFalse _ =>
    return "if " ++ (← write style cond) ++ " then " ++ (← write style whenTrue)
      ++ " else " ++ (← write style whenFalse)
  | whileDo cond body _ =>
    return "while " ++ (← write style cond) ++ " do " ++ (← write style body)
  | forTo loop goal body _ =>
    return "for " ++ (← writeVar style loop) ++ " to " ++ (← write style goal)
      ++ " do " ++ (← write style body)
  | binary left op right _ =>
    return (← write style left) ++ " " ++ op.symbol ++ " " ++ (← write style right)
  | unary op operand _ => return op.symbol ++ (← write style operand)
  | cast operand target _ => return (← write style operand) ++ " as " ++ target.display
  | array items element _ _ =>
    return (element.map Ty.display).getD "" ++ "[" ++ Text.joined ", " (← writeAll style items)
      ++ "]"
  | tuple items _ => return "\x7b" ++ Text.joined ", " (← writeAll style items) ++ "\x7d"
def writeAll (style : Style) : List Expr → StateM Nat (List String)
  | [] => return []
  | e :: es => return (← write style e) :: (← writeAll style es)
def writeVar (style : Style) : VarDecl → StateM Nat String
  | ⟨name, value, _⟩ => return "var " ++ name ++ " := " ++ (← write style value)
def writeVars (style : Style) : List VarDecl → StateM Nat String
  | [] => return ""
  | d :: ds =>
    return (← indentation style) ++ (← writeVar style d) ++ "\n" ++ (← writeVars style ds)
def writeFn (style : Style) : FnDecl → StateM Nat String
  | ⟨name, args, result, body, _⟩ =>
    return signature name args result ++ " := " ++ (← write style body)
def writeFns (style : Style) : List FnDecl → StateM Nat String
  | [] => return ""
  | f :: fs =>
    return (← indentation style) ++ (← writeFn style f) ++ "\n" ++ (← writeFns style fs)
end

end Expr

namespace Layout

/-- Writes the text of the level, and is at that level again when it is done. -/
def Writes (x : StateM Nat α) (text : Nat → α) : Prop :=
  ∀ level, x.run level = pure (text level, level)

theorem Writes.block {style : Style} {items : StateM Nat (List String)}
    {texts : Nat → List String} (written : Writes items texts) :
    Writes (writeBlock style items) fun level =>
      Layout.block (style.indent (level + 1)) (texts (level + 1)) := by
  intro level
  simp [writeBlock, indentation, written (level + 1)]

end Layout

namespace Expr

variable (style : Style)

mutual
theorem writes_write : ∀ e : Expr, Writes (e.write style) fun level => e.layout style level
  | literal v _ => fun _ => rfl
  | var name _ => fun _ => rfl
  | group body _ => fun level => by
    simp [write, layout, (writes_writeAll body).block level, indentation]
  | letIn vars fns body _ => fun level => by
    simp [write, layout, writes_writeVars vars (level + 1), writes_writeFns fns (level + 1),
      (writes_writeAll body).block level, indentation]
  | assign name value _ _ => fun level => by simp [write, layout, writes_write value level]
  | matchWith pattern value _ => fun level => by
    simp [write, layout, writes_write pattern level, writes_write value level]
  | call name args _ => fun level => by simp [write, layout, writes_writeAll args level]
  | ifElse cond whenTrue whenFalse _ => fun level => by
    simp [write, layout, writes_write cond level, writes_write whenTrue level,
      writes_write whenFalse level]
  | whileDo cond body _ => fun level => by
    simp [write, layout, writes_write cond level, writes_write body level]
  | forTo loop goal body _ => fun level => by
    simp [write, layout, writes_writeVar loop level, writes_write goal level,
      writes_write body level]
  | binary left op right _ => fun level => by
    simp [write, layout, writes_write left level, writes_write right level]
  | unary op operand _ => fun level => by simp [write, layout, writes_write operand level]
  | cast operand target _ => fun level => by simp [write, layout, writes_write operand level]
  | array items element _ _ => fun level => by
    simp [write, layout, writes_writeAll items level]
  | tuple items _ => fun level => by simp [write, layout, writes_writeAll items level]
theorem writes_writeAll : ∀ es : List Expr,
    Writes (writeAll style es) fun level => layoutAll style level es
  | [] => fun _ => rfl
  | e :: es => fun level => by
    simp [writeAll, layoutAll, writes_write e level, writes_writeAll es level]
theorem writes_writeVar : ∀ d : VarDecl,
    Writes (writeVar style d) fun level => layoutVar style level d
  | ⟨name, value, _⟩ => fun level => by simp [writeVar, layoutVar, writes_write value level]
theorem writes_writeVars : ∀ ds : List VarDecl, Writes (writeVars style ds) fun level =>
    declarations (style.indent level) (layoutVars style level ds)
  | [] => fun _ => rfl
  | d :: ds => fun level => by
    simp [writeVars, layoutVars, indentation, writes_writeVar d level, writes_writeVars ds level,
      declarations_cons]
theorem writes_writeFns : ∀ fs : List FnDecl, Writes (writeFns style fs) fun level =>
    declarations (style.indent level) (layoutFns style level fs)
  | [] => fun _ => rfl
  | ⟨name, args, result, body, _⟩ :: fs => fun level => by
    simp [writeFns, layoutFns, writeFn, layoutFn, indentation, writes_write body level,
      writes_writeFns fs level, declarations_cons]
end

theorem lines_layout (k : Nat) {e : Expr} (clean : e.Clean) : lines (e.layout style k) =
    indentOthers (style.indent k).toList (lines (e.layout style 0)) := by
  have moved := moves_layout style k e 0 clean []
  rw [List.append_nil, Nat.add_zero] at moved
  have text : (e.layout style k).toList =
      shift (style.indent k).toList false (e.layout style 0).toList :=
    (List.append_nil _).symm.trans moved.symm
  rw [lines, text]
  exact (splitOn_shift (oneLine_indent style k) _).2

/-- Wherever the writer starts, it writes the text of that level and is at the level again.
    The text is that of level zero with the indentation of the level before every further line
    that is not empty, and there is no further line where there is no group and no let. -/
theorem write_uniform (style : Style) (k : Nat) {e : Expr} (clean : e.Clean) :
    (e.write style).run k = (e.layout style k, k) ∧
      lines (e.layout style k) =
        indentOthers (style.indent k).toList (lines (e.layout style 0)) ∧
      (e.Flat → OneLine (e.layout style k)) :=
  ⟨writes_write style e k, lines_layout style k clean, oneLine_layout style k e clean⟩

/-- The empty line of an empty group stays empty. -/
theorem write_uniform_groups :
    let e : Expr := .group [.var "x" none, .group [] none] none
    e.Clean ∧ (e.write .standard).run 1 = ("(\n    x,\n    (\n\n    )\n  )", 1) ∧
      lines "(\n    x,\n    (\n\n    )\n  )" =
        indentOthers [' ', ' '] (lines "(\n  x,\n  (\n\n  )\n)") := by
  intro e
  have clean : e.Clean := ⟨trivial, (by decide : Proper "x"), ⟨trivial, trivial⟩, trivial⟩
  have inner : e.layout .standard 1 = "(\n    x,\n    (\n\n    )\n  )" := by decide +kernel
  have outer : e.layout .standard 0 = "(\n  x,\n  (\n\n  )\n)" := by decide +kernel
  obtain ⟨written, moved, _⟩ := write_uniform .standard 1 clean
  rw [inner] at written moved
  rw [outer] at moved
  exact ⟨clean, written, moved⟩

end Expr
end TypedLet
