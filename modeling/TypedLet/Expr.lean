import TypedLet.Span
import TypedLet.Value.Basic

/-
Expressions and declarations, as a reader of the text hands them over. Every
expression carries the span it was read from, when it has one. Patterns are
written as expressions; which of them may stand as one is decided later.
-/
namespace TypedLet

inductive BinaryOp where
  | add | sub | mul | div | lt | le | gt | ge | eq | ne
deriving DecidableEq, Repr

def BinaryOp.symbol : BinaryOp → String
  | add => "+"
  | sub => "-"
  | mul => "*"
  | div => "/"
  | lt => "<"
  | le => "<="
  | gt => ">"
  | ge => ">="
  | eq => "="
  | ne => "<>"

inductive UnaryOp where
  | plus | minus
deriving DecidableEq, Repr

def UnaryOp.symbol : UnaryOp → String
  | plus => "+"
  | minus => "-"

structure ArgDecl where
  name : String
  type : Ty
  span : Option Span

mutual
inductive Expr where
  | literal (value : Value) (span : Option Span)
  | var (name : String) (span : Option Span)
  | group (body : List Expr) (span : Option Span)
  | letIn (vars : List VarDecl) (fns : List FnDecl) (body : List Expr) (span : Option Span)
  | assign (name : String) (value : Expr) (nameSpan span : Option Span)
  | matchWith (pattern value : Expr) (span : Option Span)
  | call (name : String) (args : List Expr) (span : Option Span)
  | ifElse (cond whenTrue whenFalse : Expr) (span : Option Span)
  | whileDo (cond body : Expr) (span : Option Span)
  | forTo (loop : VarDecl) (goal body : Expr) (span : Option Span)
  | binary (left : Expr) (op : BinaryOp) (right : Expr) (span : Option Span)
  | unary (op : UnaryOp) (operand : Expr) (span : Option Span)
  | cast (operand : Expr) (target : Ty) (span : Option Span)
  | array (items : List Expr) (element : Option Ty) (elementSpan span : Option Span)
  | tuple (items : List Expr) (span : Option Span)

/-- The declaration `var name := value`. -/
structure VarDecl where
  name : String
  value : Expr
  span : Option Span

/-- The declaration `function name(args): result := body`; the span is that of the
    signature. -/
structure FnDecl where
  name : String
  args : List ArgDecl
  result : Ty
  body : Expr
  span : Option Span
end

namespace Expr

def span : Expr → Option Span
  | literal _ s | var _ s | group _ s | letIn _ _ _ s | assign _ _ _ s | matchWith _ _ s
  | call _ _ s | ifElse _ _ _ s | whileDo _ _ s | forTo _ _ _ s | binary _ _ _ s | unary _ _ s
  | cast _ _ s | array _ _ _ s | tuple _ s => s

/-- The form of an expression, as messages name it. -/
def form : Expr → String
  | literal .. => "Literal"
  | var .. => "Variable"
  | group .. => "Grouping"
  | letIn .. => "Let"
  | assign .. => "Assign"
  | matchWith .. => "PatternMatch"
  | call .. => "FunctionCall"
  | ifElse .. => "If"
  | whileDo .. => "While"
  | forTo .. => "For"
  | binary .. => "BinaryOp"
  | unary .. => "UnaryOp"
  | cast .. => "Cast"
  | array .. => "ArrayLiteral"
  | tuple .. => "TupleLiteral"

end Expr

/-- A whole program: one expression, or expressions in a row. -/
inductive Tree where
  | expr (e : Expr)
  | block (body : List Expr)

def FnDecl.argTypes (f : FnDecl) : List Ty := f.args.map (·.type)

/-- The result of a call with arguments of the given types, if they are exactly
    the declared ones. -/
def FnDecl.resultFor (f : FnDecl) (types : List Ty) : Option Ty :=
  if types = f.argTypes then some f.result else none

/-- What a message can point back to. -/
inductive Declaration where
  | var (decl : VarDecl)
  | arg (decl : ArgDecl)
  | fn (decl : FnDecl)

namespace Declaration

def name : Declaration → String
  | var d => d.name
  | arg d => d.name
  | fn d => d.name

def span : Declaration → Option Span
  | var d => d.span
  | arg d => d.span
  | fn d => d.span

end Declaration
end TypedLet
