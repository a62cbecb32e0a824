import TypedLet.Checking.Infer
import TypedLet.Evaluation.Machine
import TypedLet.Evaluation.Run
import TypedLet.Layout
import TypedLet.Diagnostic.Basic
import TypedLet.Diagnostic.OfError
import TypedLet.Editor.Position
import TypedLet.Editor.Report
import TypedLet.Session
import TypedLet.Workspace.Basic
import TypedLet.Workspace.Command
import TypedLet.Workspace.Pass
import TypedLet.Proofs.Checking.Exits
import TypedLet.Proofs.Checking.Spans
import TypedLet.Proofs.Evaluation.Exits
import TypedLet.Proofs.Typing.Builtins
import TypedLet.Proofs.Typing.Environments
import TypedLet.Proofs.Typing.Unfolding
import TypedLet.Proofs.Typing.Decision
import TypedLet.Proofs.Typing.Soundness
import TypedLet.Proofs.Resolution.Agreement
import TypedLet.Proofs.Scoping.Weakening
import TypedLet.Proofs.Matching.Faults
import TypedLet.Proofs.Hosting.Session
import TypedLet.Proofs.Iteration.Rounds
import TypedLet.Proofs.Reading.Grouping
import TypedLet.Proofs.Conversion.Refusal
import TypedLet.Proofs.Sharing.Frames
import TypedLet.Proofs.Sharing.Snapshots
import TypedLet.Proofs.Typing.Casts
import TypedLet.Proofs.Arithmetic.TwosComplement
import TypedLet.Proofs.Comparison.Inequality
import TypedLet.Proofs.Reordering.Functions
import TypedLet.Proofs.Scoping.Nesting
import TypedLet.Proofs.Diagnostic.Suggestions
import TypedLet.Proofs.Checking.Stopping
import TypedLet.Proofs.Editor.Positions
import TypedLet.Proofs.Layout.Writer
import TypedLet.Proofs.Typing.Display
import TypedLet.Proofs.Text.Unquoted
import TypedLet.Proofs.Diagnostic.Building
import TypedLet.Proofs.Workspace.Refusals
