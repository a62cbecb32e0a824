import TypedLet.Diagnostic.Basic
import TypedLet.Diagnostic.Suggest
import TypedLet.Error

/-
The diagnostic of an error. Each kind of error has its code, a primary label on
its span and, where a declaration or another part of the program is to blame, a
secondary label there. A name that was not found gets names that are close.
-/
namespace TypedLet

/-- The codes, by what they stand for. -/
inductive Code where
  | mismatch | unbound | undefined | signature | conversion | redeclared | voidVariable
  | arms | emptyArray | item | internal
deriving DecidableEq, Repr

namespace Code

def all : List Code :=
  [mismatch, unbound, undefined, signature, conversion, redeclared, voidVariable,
   arms, emptyArray, item, internal]

def text : Code → String
  | mismatch => "E0101"
  | unbound => "E0102"
  | undefined => "E0103"
  | signature => "E0104"
  | conversion => "E0105"
  | redeclared => "E0106"
  | voidVariable => "E0107"
  | arms => "E0108"
  | emptyArray => "E0109"
  | item => "E0110"
  | internal => "E0901"

def description : Code → String
  | mismatch => "mismatched types"
  | unbound => "unbounded variable"
  | undefined => "undefined function"
  | signature => "no such signature"
  | conversion => "unnatural conversion"
  | redeclared => "already declared"
  | voidVariable => "void variable declaration"
  | arms => "incompatible if arms"
  | emptyArray => "untyped empty array"
  | item => "inconsistent array typing"
  | internal => "internal error"

/-- What the code of that text stands for. -/
def describe (text : String) : Option String :=
  (all.find? (·.text = text)).map description

end Code

def quotedName (name : String) : String := "`" ++ name ++ "`"

/-- The help that names what was perhaps meant. -/
def didYouMean (name : String) (visible : List String) : List Diagnostic.Step :=
  match Suggest.similar .standard name visible with
  | [] => []
  | [one] => [.help ("did you mean " ++ quotedName one ++ "?")]
  | several =>
    [.help ("did you mean one of: " ++ Text.joined ", " (several.map quotedName) ++ "?")]

/-- Names given by the caller go before those the error recorded. -/
def preferred (given recorded : List String) : List String :=
  if given.isEmpty then recorded else given

namespace TypeError

def code : TypeError → Code
  | mismatch .. => .mismatch
  | unboundVariable .. => .unbound
  | undefinedFunction .. => .undefined
  | noSuchSignature .. => .signature
  | conversion .. => .conversion
  | alreadyDeclared .. => .redeclared
  | voidVariable .. => .voidVariable
  | armMismatch .. => .arms
  | untypedEmptyArray => .emptyArray
  | itemMismatch .. => .item

def bindingLabel : Option Declaration → List Diagnostic.Step
  | none => []
  | some (.fn f) => [.secondary f.span ("return type `" ++ f.result.display ++ "` declared here")]
  | some decl => [.secondary decl.span "declared here"]

def thisIs (t : Ty) : String := "this is `" ++ t.display ++ "`"

/-- The labels and helps of an error at a span. -/
def steps (given : List String) (span : Option Span) : TypeError → List Diagnostic.Step
  | mismatch expected got binding =>
    .primary span ("expected `" ++ expected.display ++ "`, found `" ++ got.display ++ "`")
      :: bindingLabel binding
  | unboundVariable name visible =>
    .primary span "not found in this scope" :: didYouMean name (preferred given visible)
  | undefinedFunction name visible =>
    .primary span "no function or builtin with this name"
      :: didYouMean name (preferred given visible)
  | noSuchSignature .. => [.primary span "no signature accepts these arguments"]
  | conversion source _ => [.primary span (thisIs source)]
  | alreadyDeclared _ first =>
    [.primary span "declared again here", .secondary first.span "first declared here"]
  | voidVariable _ => [.primary span "this expression has type `Void`"]
  | armMismatch whenTrue whenFalse trueSpan =>
    [.primary span (thisIs whenFalse), .secondary trueSpan (thisIs whenTrue)]
  | untypedEmptyArray =>
    [.primary span "", .help "give the element type explicitly, e.g. `Integer[]`"]
  | itemMismatch expected got _ origin originSpan =>
    [.primary span (thisIs got),
     .secondary originSpan ("`" ++ expected.display ++ "` " ++ match origin with
       | .declared => "declared here"
       | .firstItem => "inferred from the first element")]

def diagnostic (given : List String) (cause : TypeError) (span : Option Span) : Diagnostic :=
  Diagnostic.build cause.code.text .error cause.message none (cause.steps given span)

end TypeError

/-- The diagnostic of an error; names in `given` are suggested in place of the
    visible ones. -/
def Error.diagnostic (given : List String) : Error → Diagnostic
  | typing cause span => cause.diagnostic given span
  | internal cause span =>
    Diagnostic.build Code.internal.text .error cause.message span
      [.note "this is a bug in the caller or in letlang, not in the program"]
  | e => Diagnostic.build Code.internal.text .error e.message e.span []

end TypedLet
