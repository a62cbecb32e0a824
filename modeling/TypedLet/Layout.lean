import TypedLet.Expr
import TypedLet.Text.Quoted

/-
The source text of a tree. The expressions of a let body or of a group stand one
on a line, a level further in; every other form stays on its line. No
parentheses are put in beyond those of groups.
-/
namespace TypedLet

namespace Layout

/-- How a level is indented: by so many blanks, or by a tab. A negative number
    of blanks is none. -/
structure Style where
  width : Int
  blanks : Bool

def Style.standard : Style := ⟨2, true⟩

def Style.indent (style : Style) (level : Nat) : String :=
  let unit := if style.blanks then style.width.toNat else 1
  String.ofList (List.replicate (level * unit) (if style.blanks then ' ' else '\t'))

def argument (a : ArgDecl) : String := a.name ++ ": " ++ a.type.display

def signature (name : String) (args : List ArgDecl) (result : Ty) : String :=
  "function " ++ name ++ "(" ++ Text.joined ", " (args.map argument) ++ "): " ++ result.display

def literal : Value → String
  | .str s => Text.quoted s
  | v => v.display

/-- Lines of a block that belong to what encloses them. -/
def block (indent : String) (items : List String) : String :=
  Text.joined ",\n" (items.map (indent ++ ·)) ++ "\n"

def declarations (indent : String) (items : List String) : String :=
  Text.joined "" (items.map (indent ++ · ++ "\n"))

theorem declarations_cons (indent t : String) (ts : List String) :
    declarations indent (t :: ts) = indent ++ t ++ "\n" ++ declarations indent ts := by
  cases ts <;> simp [declarations, Text.joined]

end Layout

open Layout

namespace Expr

mutual
/-- The text of an expression that starts at the given level. -/
def layout (style : Style) (level : Nat) : Expr → String
  | literal v _ => Layout.literal v
  | var name _ => name
  | group body _ =>
    "(\n" ++ block (style.indent (level + 1)) (layoutAll style (level + 1) body)
      ++ style.indent level ++ ")"
  | letIn vars fns body _ =>
    let inner := style.indent (level + 1)
    "let\n"
      ++ declarations inner (layoutVars style (level + 1) vars)
      ++ declarations inner (layoutFns style (level + 1) fns)
      ++ style.indent level ++ "in\n"
      ++ block inner (layoutAll style (level + 1) body)
      ++ style.indent level ++ "end"
  | assign name value _ _ => name ++ " := " ++ layout style level value
  | matchWith pattern value _ =>
    "match " ++ layout style level pattern ++ " := " ++ layout style level value
  | call name args _ => name ++ "(" ++ Text.joined ", " (layoutAll style level args) ++ ")"
  | ifElse cond whenTrue whenFalse _ =>
    "if " ++ layout style level cond ++ " then " ++ layout style level whenTrue
      ++ " else " ++ layout style level whenFalse
  | whileDo cond body _ =>
    "while " ++ layout style level cond ++ " do " ++ layout style level body
  | forTo loop goal body _ =>
    "for " ++ layoutVar style level loop ++ " to " ++ layout style level goal
      ++ " do " ++ layout style level body
  | binary left op right _ =>
    layout style level left ++ " " ++ op.symbol ++ " " ++ layout style level right
  | unary op operand _ => op.symbol ++ layout style level operand
  | cast operand target _ => layout style level operand ++ " as " ++ target.display
  | array items element _ _ =>
    (element.map Ty.display).getD "" ++ "[" ++ Text.joined ", " (layoutAll style level items) ++ "]"
  | tuple items _ => "\x7b" ++ Text.joined ", " (layoutAll style level items) ++ "\x7d"
def layoutAll (style : Style) (level : Nat) : List Expr → List String
  | [] => []
  | e :: es => layout style level e :: layoutAll style level es
def layoutVar (style : Style) (level : Nat) : VarDecl → String
  | ⟨name, value, _⟩ => "var " ++ name ++ " := " ++ layout style level value
def layoutVars (style : Style) (level : Nat) : List VarDecl → List String
  | [] => []
  | d :: ds => layoutVar style level d :: layoutVars style level ds
def layoutFn (style : Style) (level : Nat) : FnDecl → String
  | ⟨name, args, result, body, _⟩ =>
    signature name args result ++ " := " ++ layout style level body
def layoutFns (style : Style) (level : Nat) : List FnDecl → List String
  | [] => []
  | d :: ds => layoutFn style level d :: layoutFns style level ds
end

end Expr

/-- The text of a whole program. -/
def Tree.layout (style : Style) : Tree → String
  | expr e => e.layout style 0
  | block body => Text.joined ",\n" (Expr.layoutAll style 0 body)

end TypedLet
