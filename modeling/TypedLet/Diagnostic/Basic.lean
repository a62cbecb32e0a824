import TypedLet.Span

/-
Diagnostics: a code, a message, labels on spans, notes and helps. A diagnostic
is built up in steps. A primary step puts its label first and drops the one
before it, even if it has no span to put there; a secondary step adds its label
at the end, if it has a span.
-/
namespace TypedLet

inductive Severity where
  | error | warning | note | help
deriving DecidableEq, Repr

structure Label where
  span : Span
  message : String
  isPrimary : Bool
deriving DecidableEq, Repr

structure Diagnostic where
  code : String
  severity : Severity
  message : String
  labels : List Label
  notes : List String
  helps : List String
deriving DecidableEq, Repr

namespace Diagnostic

inductive Step where
  | primary (span : Option Span) (message : String)
  | secondary (span : Option Span) (message : String)
  | note (text : String)
  | help (text : String)

def labelAt (span : Option Span) (message : String) (isPrimary : Bool) : List Label :=
  match span with
  | some s => [⟨s, message, isPrimary⟩]
  | none => []

def take (d : Diagnostic) : Step → Diagnostic
  | .primary span message =>
    { d with labels := labelAt span message true ++ d.labels.filter (!·.isPrimary) }
  | .secondary span message => { d with labels := d.labels ++ labelAt span message false }
  | .note text => { d with notes := d.notes ++ [text] }
  | .help text => { d with helps := d.helps ++ [text] }

/-- The diagnostic before any step. -/
def start (code : String) (severity : Severity) (message : String) (span : Option Span) :
    Diagnostic :=
  ⟨code, severity, message, labelAt span "" true, [], []⟩

def build (code : String) (severity : Severity) (message : String) (span : Option Span)
    (steps : List Step) : Diagnostic :=
  steps.foldl take (start code severity message span)

def primary? (d : Diagnostic) : Option Label := d.labels.find? (·.isPrimary)

def secondary (d : Diagnostic) : List Label := d.labels.filter (!·.isPrimary)

/-- The diagnostic on one line. -/
def brief (d : Diagnostic) : String := "[" ++ d.code ++ "] " ++ d.message

end Diagnostic
end TypedLet
