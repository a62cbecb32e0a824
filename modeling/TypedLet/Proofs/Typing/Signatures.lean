import TypedLet.Proofs.Typing.Builtins

/-
The casts and the signatures of the builtins as rules. A cast is read off the shape of
its two types. A comparison takes two operands of one type that is a scalar other than
Void under any number of arrays. What the tables of patterns answer is exactly what the
rules derive.
-/
namespace TypedLet

namespace Ty

inductive Testable : Ty → Prop
  | integer : Testable integer
  | float : Testable float
  | bool : Testable bool
  | array {t : Ty} : Testable (array t)

inductive Comparable : Ty → Prop
  | integer : Comparable integer
  | float : Comparable float
  | bool : Comparable bool
  | str : Comparable str
  | array {t : Ty} (item : Comparable t) : Comparable (array t)

mutual
inductive Casts : Ty → Ty → Prop
  | discard {s : Ty} : Casts s void
  | number {s d : Ty} (source : s ∈ [integer, float]) (target : d ∈ [integer, float, bool, str]) :
      Casts s d
  | bool {d : Ty} (target : d ∈ [bool, str]) : Casts bool d
  | str : Casts str str
  | array {s d : Ty} (item : Casts s d) : Casts (array s) (array d)
  | spread {ss : List Ty} {d : Ty} (items : ∀ s ∈ ss, Casts s d) : Casts (tuple ss) (array d)
  | tuple {ss ds : List Ty} (items : CastsEach ss ds) : Casts (tuple ss) (tuple ds)
inductive CastsEach : List Ty → List Ty → Prop
  | nil : CastsEach [] []
  | cons {s d : Ty} {ss ds : List Ty} (first : Casts s d) (others : CastsEach ss ds) :
      CastsEach (s :: ss) (d :: ds)
end

theorem isCondition_iff {t : Ty} : t.isCondition = true ↔ Testable t := by
  constructor
  · intro condition
    cases t with
    | integer => exact .integer
    | float => exact .float
    | bool => exact .bool
    | array t => exact .array
    | void | str | tuple _ => cases condition
  · intro testable
    cases testable <;> rfl

theorem castsTo_number {s d : Ty} (source : s ∈ [integer, float]) :
    s.castsTo d = true ↔ Casts s d := by
  have targets : s.castsTo d = true ↔ d = void ∨ d ∈ [integer, float, bool, str] := by
    simp only [List.mem_cons, List.not_mem_nil, or_false] at source
    rcases source with rfl | rfl <;> cases d <;> simp [castsTo]
  rw [targets]
  constructor
  · rintro (rfl | target)
    · exact .discard
    · exact .number source target
  · intro casts
    cases casts with
    | discard => exact .inl rfl
    | number _ target => exact .inr target
    | bool | str | array | spread | tuple => simp at source

theorem castsTo_bool {d : Ty} : bool.castsTo d = true ↔ Casts bool d := by
  have targets : bool.castsTo d = true ↔ d = void ∨ d ∈ [bool, str] := by
    cases d <;> simp [castsTo]
  rw [targets]
  constructor
  · rintro (rfl | target)
    · exact .discard
    · exact .bool target
  · intro casts
    cases casts with
    | discard => exact .inl rfl
    | bool target => exact .inr target
    | number source => simp at source

theorem castsTo_str {d : Ty} : str.castsTo d = true ↔ Casts str d := by
  have targets : str.castsTo d = true ↔ d = void ∨ d = str := by
    cases d <;> simp [castsTo]
  rw [targets]
  constructor
  · rintro (rfl | rfl)
    · exact .discard
    · exact .str
  · intro casts
    cases casts with
    | discard => exact .inl rfl
    | str => exact .inr rfl
    | number source => simp at source

theorem not_casts_scalar {s d : Ty} (source : s ∉ [integer, float, bool, str])
    (target : d ∈ [integer, float, bool, str]) : ¬ Casts s d := by
  intro casts
  cases casts with
  | discard | array | spread | tuple => simp at target
  | bool | str => simp at source
  | number here =>
    simp only [List.mem_cons, List.not_mem_nil, or_false] at here
    rcases here with rfl | rfl <;> simp at source

mutual
theorem castsTo_iff : ∀ s d : Ty, s.castsTo d = true ↔ Casts s d
  | integer, d | float, d => castsTo_number (by simp)
  | bool, d => castsTo_bool
  | str, d => castsTo_str
  | void, d => by
    cases d with
    | void => exact iff_of_true rfl .discard
    | array d | tuple ds =>
      refine iff_of_false (by simp [castsTo]) fun casts => ?_
      cases casts with
      | number source => simp at source
    | integer | float | bool | str =>
      exact iff_of_false (by simp [castsTo]) (not_casts_scalar (by simp) (by simp))
  | array s, d => by
    cases d with
    | void => exact iff_of_true rfl .discard
    | array d =>
      rw [castsTo, castsTo_iff s d]
      refine ⟨.array, fun casts => ?_⟩
      cases casts with
      | array item => exact item
      | number source => simp at source
    | tuple ds =>
      refine iff_of_false (by simp [castsTo]) fun casts => ?_
      cases casts with
      | number source => simp at source
    | integer | float | bool | str =>
      exact iff_of_false (by simp [castsTo]) (not_casts_scalar (by simp) (by simp))
  | tuple ss, d => by
    cases d with
    | void => exact iff_of_true rfl .discard
    | array d =>
      rw [castsTo, allCasts_iff ss d]
      refine ⟨.spread, fun casts => ?_⟩
      cases casts with
      | spread items => exact items
      | number source => simp at source
    | tuple ds =>
      rw [castsTo, eachCastsTo_iff ss ds]
      refine ⟨.tuple, fun casts => ?_⟩
      cases casts with
      | tuple items => exact items
      | number source => simp at source
    | integer | float | bool | str =>
      exact iff_of_false (by simp [castsTo]) (not_casts_scalar (by simp) (by simp))
theorem allCasts_iff : ∀ (ss : List Ty) (d : Ty),
    allCastTo ss d = true ↔ ∀ s ∈ ss, Casts s d
  | [], d => by simp [allCastTo]
  | s :: ss, d => by
    rw [allCastTo, Bool.and_eq_true, castsTo_iff s d, allCasts_iff ss d, List.forall_mem_cons]
theorem eachCastsTo_iff : ∀ ss ds : List Ty, eachCastsTo ss ds = true ↔ CastsEach ss ds
  | [], ds => by
    cases ds with
    | nil => exact iff_of_true rfl .nil
    | cons d ds => exact iff_of_false nofun nofun
  | s :: ss, ds => by
    cases ds with
    | nil => exact iff_of_false nofun nofun
    | cons d ds =>
      rw [eachCastsTo, Bool.and_eq_true, castsTo_iff s d, eachCastsTo_iff ss ds]
      constructor
      · rintro ⟨first, others⟩
        exact .cons first others
      · intro casts
        cases casts with
        | cons first others => exact ⟨first, others⟩
end

theorem fits_any (table : TypePattern.Table) (t : Ty) : t.fits table .any = true := by
  cases t <;> simp [fits, TypePattern.heads, TypePattern.headsWith]

theorem heads_comparable : (TypePattern.named "Comparable").heads TypePattern.standardTable =
    [.exactly .integer, .exactly .float, .exactly .bool, .exactly .str,
      .arrayOf (.named "Comparable")] := rfl

theorem fits_comparable : ∀ t : Ty,
    t.fits TypePattern.standardTable (.named "Comparable") = true ↔ Comparable t
  | void | tuple _ => iff_of_false (by simp [fits, heads_comparable]) nofun
  | integer => iff_of_true rfl .integer
  | float => iff_of_true rfl .float
  | bool => iff_of_true rfl .bool
  | str => iff_of_true rfl .str
  | array t => by
    rw [fits, heads_comparable]
    have item := fits_comparable t
    constructor
    · intro fit
      have fit : t.fits TypePattern.standardTable (.named "Comparable") = true := by
        simpa using fit
      exact .array (item.mp fit)
    · intro comparable
      cases comparable with
      | array here => simpa using item.mpr here

end Ty

inductive BinaryOp.HasType : BinaryOp → Ty → Ty → Ty → Prop
  | arithmetic {op : BinaryOp} {t : Ty} (op_mem : op ∈ [add, sub, mul, div])
      (number : t ∈ [Ty.integer, .float]) : HasType op t t t
  | concat : HasType add .str .str .str
  | comparison {op : BinaryOp} {t : Ty} (op_mem : op ∈ [lt, le, gt, ge, eq, ne])
      (comparable : t.Comparable) : HasType op t t .bool

inductive UnaryOp.HasType : UnaryOp → Ty → Ty → Prop
  | number {op : UnaryOp} {t : Ty} (number : t ∈ [Ty.integer, .float]) : HasType op t t

namespace Builtin

inductive HasType : Builtin → List Ty → Ty → Prop
  | binary {op : BinaryOp} {a b t : Ty} (operator : op.HasType a b t) :
      HasType (binary op) [a, b] t
  | unary {op : UnaryOp} {a t : Ty} (operator : op.HasType a t) : HasType (unary op) [a] t
  | print {a : Ty} : HasType print [a] .void
  | println {a : Ty} : HasType println [a] .void

theorem hasType_binary {op : BinaryOp} {a b t : Ty} :
    (binary op).HasType [a, b] t ↔ op.HasType a b t := by
  constructor
  · intro typed
    cases typed with
    | binary operator => exact operator
  · exact .binary

theorem hasType_unary {op : UnaryOp} {a t : Ty} : (unary op).HasType [a] t ↔ op.HasType a t := by
  constructor
  · intro typed
    cases typed with
    | unary operator => exact operator
  · exact .unary

theorem comparison_iff {op : BinaryOp} (compares : op ∈ [.lt, .le, .gt, .ge, .eq, .ne])
    {types : List Ty} {t : Ty} :
    (binary op).resultFor types = some t ↔
      t = .bool ∧ ∃ a, types = [a, a] ∧ a.Comparable := by
  have signature : (binary op).signatures =
      [⟨[.named "Comparable", .named "Comparable"], .bool⟩] := by
    simp only [List.mem_cons, List.not_mem_nil, or_false] at compares
    rcases compares with rfl | rfl | rfl | rfl | rfl | rfl <;> rfl
  have strict : (binary op).sameTypes = true := by
    simp only [List.mem_cons, List.not_mem_nil, or_false] at compares
    rcases compares with rfl | rfl | rfl | rfl | rfl | rfl <;> rfl
  constructor
  · intro result
    refine ⟨comparison_of_resultFor signature result, ?_⟩
    obtain ⟨a, b, rfl⟩ := binary_arity result
    obtain ⟨s, member, accepts, _⟩ := accepts_of_resultFor result
    rw [signature, List.mem_singleton] at member
    subst member
    obtain ⟨_, _, same, first, _⟩ := accepts_two accepts
    obtain ⟨rfl, _⟩ := List.cons.inj same
    unfold resultFor at result
    rw [strict] at result
    split at result
    · cases result
    · next agree =>
      have equal : b = a := by simpa [allEqual] using agree
      subst equal
      exact ⟨b, rfl, (Ty.fits_comparable b).mp first⟩
  · rintro ⟨rfl, a, rfl, comparable⟩
    have fit := (Ty.fits_comparable a).mpr comparable
    simp [resultFor, strict, signature, allEqual, Signature.accepts, Ty.eachFits, fit]

theorem resultFor_iff {b : Builtin} {types : List Ty} {t : Ty} :
    b.resultFor types = some t ↔ b.HasType types t := by
  constructor
  · intro result
    cases b with
    | binary op =>
      cases op with
      | add =>
        obtain ⟨listed, rfl⟩ := closed_of_resultFor [.integer, .float, .str] rfl result
        simp only [List.mem_cons, List.not_mem_nil, or_false] at listed
        rcases listed with rfl | rfl | rfl
        · exact .binary (.arithmetic (by simp) (by simp))
        · exact .binary (.arithmetic (by simp) (by simp))
        · exact .binary .concat
      | sub | mul | div =>
        obtain ⟨listed, rfl⟩ := closed_of_resultFor [.integer, .float] rfl result
        exact .binary (.arithmetic (by simp) listed)
      | lt | le | gt | ge | eq | ne =>
        obtain ⟨rfl, a, rfl, comparable⟩ := (comparison_iff (by simp)).mp result
        exact .binary (.comparison (by simp) comparable)
    | unary op =>
      obtain ⟨number, rfl⟩ := unary_of_resultFor result
      exact .unary (.number (by simpa using number))
    | print =>
      obtain ⟨rfl, a, rfl⟩ := printer_of_resultFor rfl result
      exact .print
    | println =>
      obtain ⟨rfl, a, rfl⟩ := printer_of_resultFor rfl result
      exact .println
  · intro typed
    cases typed with
    | binary operator =>
      cases operator with
      | arithmetic op_mem number =>
        simp only [List.mem_cons, List.not_mem_nil, or_false] at op_mem number
        rcases op_mem with rfl | rfl | rfl | rfl <;> rcases number with rfl | rfl <;> rfl
      | concat => rfl
      | comparison op_mem comparable =>
        exact (comparison_iff op_mem).mpr ⟨rfl, _, rfl, comparable⟩
    | unary operator =>
      cases operator with
      | number number =>
        simp only [List.mem_cons, List.not_mem_nil, or_false] at number
        rcases number with rfl | rfl <;> rfl
    | print | println =>
      simp [resultFor, sameTypes, signatures, Signature.accepts, Ty.eachFits, Ty.fits_any]

theorem find?_iff {name : String} {b : Builtin} : find? name = some b ↔ b.name = name := by
  constructor
  · intro found
    simpa using List.find?_some found
  · rintro rfl
    cases b with
    | binary op => cases op <;> rfl
    | unary op => cases op <;> rfl
    | print => rfl
    | println => rfl

end Builtin
end TypedLet
