import TypedLet.Diagnostic.OfError

/-
The labels of a diagnostic of a type error, and its code. There are at most two labels: one
where the error is, and one where the error points back to. Each of them is there if its span
is known; the first one is the primary one.
-/
namespace TypedLet

def TypeError.back : TypeError → Option Span
  | mismatch _ _ (some decl) => decl.span
  | alreadyDeclared _ first => first.span
  | armMismatch _ _ trueSpan => trueSpan
  | itemMismatch _ _ _ _ originSpan => originSpan
  | _ => none

namespace Diagnostic

theorem labels_foldl_help (d : Diagnostic) {steps : List Step}
    (helps : ∀ s ∈ steps, ∃ text, s = .help text) : (steps.foldl take d).labels = d.labels := by
  induction steps generalizing d with
  | nil => rfl
  | cons s steps ih =>
    obtain ⟨⟨text, rfl⟩, others⟩ := List.forall_mem_cons.mp helps
    exact ih _ others

theorem labels_build (code : String) (severity : Severity) (message : String)
    (span back : Option Span) (here there : String) :
    (build code severity message none [.primary span here, .secondary back there]).labels =
      labelAt span here true ++ labelAt back there false := by
  change (labelAt span here true ++ []) ++ labelAt back there false = _
  rw [List.append_nil]

end Diagnostic

namespace TypeError

open Diagnostic

theorem didYouMean_helps (name : String) (visible : List String) :
    ∀ s ∈ didYouMean name visible, ∃ text, s = .help text := by
  unfold didYouMean
  split
  · exact List.forall_mem_nil _
  · exact List.forall_mem_singleton.mpr ⟨_, rfl⟩
  · exact List.forall_mem_singleton.mpr ⟨_, rfl⟩

theorem labels_diagnostic (given : List String) (cause : TypeError) (span : Option Span) :
    ∃ here there, (cause.diagnostic given span).labels =
      labelAt span here true ++ labelAt cause.back there false := by
  cases cause with
  | mismatch expected got binding =>
    cases binding with
    | none => exact ⟨_, "", rfl⟩
    | some decl => cases decl <;> exact ⟨_, _, labels_build _ _ _ _ _ _ _⟩
  | unboundVariable name visible =>
    exact ⟨"not found in this scope", "", labels_foldl_help _ (didYouMean_helps _ _)⟩
  | undefinedFunction name visible =>
    exact ⟨"no function or builtin with this name", "",
      labels_foldl_help _ (didYouMean_helps _ _)⟩
  | alreadyDeclared | armMismatch | itemMismatch => exact ⟨_, _, labels_build _ _ _ _ _ _ _⟩
  | noSuchSignature | conversion | voidVariable | untypedEmptyArray => exact ⟨_, "", rfl⟩

theorem code_ne_internal (cause : TypeError) : cause.code ≠ .internal := by
  cases cause <;> nofun

end TypeError

theorem Code.text_mem {code : Code} (own : code ≠ .internal) :
    code.text ∈ ["E0101", "E0102", "E0103", "E0104", "E0105", "E0106", "E0107", "E0108",
      "E0109", "E0110"] := by
  cases code with
  | internal => exact absurd rfl own
  | _ => decide

namespace Diagnostic

theorem code_foldl (steps : List Step) (d : Diagnostic) : (steps.foldl take d).code = d.code := by
  induction steps generalizing d with
  | nil => rfl
  | cons s steps ih =>
    rw [List.foldl_cons, ih]
    cases s <;> rfl

theorem mem_labelAt {span : Option Span} {message : String} {isPrimary : Bool} {l : Label}
    (member : l ∈ labelAt span message isPrimary) :
    span = some l.span ∧ l.isPrimary = isPrimary := by
  cases span with
  | none => cases member
  | some s =>
    cases List.mem_singleton.mp member
    exact ⟨rfl, rfl⟩

end Diagnostic

end TypedLet
