import TypedLet.Checking.Diagnose
import TypedLet.Editor.Position

/-
Reports for an editor. A report stands on the range of the primary label, or at
the start of the text; its message carries the notes and helps on lines of their
own; and in a document with an address the secondary labels become related
places.
-/
namespace TypedLet.Editor

structure Related where
  uri : String
  range : Range
  message : String

structure Report where
  range : Range
  message : String
  severity : Nat
  source : String
  code : String
  related : Option (List Related)

def level : Severity → Nat
  | .error => 1
  | .warning => 2
  | .note => 3
  | .help => 4

def message (d : Diagnostic) : String :=
  Text.joined "\n" (d.message :: d.notes.map ("note: " ++ ·) ++ d.helps.map ("help: " ++ ·))

def related (source : String) (labels : List Label) (uri : String) : List Related :=
  labels.map fun label => ⟨uri, Editor.range source label.span, label.message⟩

def report (source : String) (uri : Option String) (d : Diagnostic) : Report where
  range :=
    match d.primary? with
    | some label => Editor.range source label.span
    | none => ⟨⟨0, 0⟩, ⟨0, 0⟩⟩
  message := message d
  severity := level d.severity
  source := "letlang"
  code := d.code
  related := if d.secondary.isEmpty then none else uri.map (related source d.secondary)

/-- The reports on a program: none, or one on its first type error. -/
def reports (source : String) (uri : Option String) (tree : Tree) : Except Error (List Report) :=
  tree.diagnose.map fun d => (d.map (report source uri)).toList

end TypedLet.Editor
