import TypedLet.Proofs.Reading.Reader

/-
What has been laid out is read back. Where an expression stands there is an operator before
it that waits for it, or a bracket or a keyword, and something behind it; if the tree
follows the rule, none of these takes a part of the expression away or adds to it. So
trees that follow one rule and have the same text differ in their spans only.
-/
namespace TypedLet

namespace Reading

open TypedLet.Expr

section ReadBack

variable {rule : Rule} {place : Place} {e : Expr} {t : Token} {rest : List Token}

/-- What comes next does not belong to the operand that is being read. -/
def Stops (rule : Rule) (place : Place) (rest : List Token) : Prop :=
  ∀ t ∈ rest.head?, ∀ o, leftOpenOf t = some o → place.takes rule o = false

def Follow (pattern : Bool) (rest : List Token) : Prop :=
  ∀ t ∈ rest.head?, t ≠ .openParen ∧ (t = .becomes → pattern = true)

/-- The expression can be read at this place: nothing in it is taken away from it, and
    nothing behind it is added to it. -/
structure Fits (rule : Rule) (place : Place) (e : Expr) (rest : List Token) : Prop where
  taken : ∀ o ∈ e.leftOpen, place.takes rule o = true
  stops : ∀ p ∈ e.rightOpen, Stops rule (place.within p) rest
  shape : place.pattern = true → e.openAssign = false
  follow : Follow place.pattern rest

def Delimits (t : Token) : Prop := leftOpenOf t = none ∧ t ≠ .openParen ∧ t ≠ .becomes

theorem settles_expect {g : Nat → List Token → Option α} {a : α}
    (next : Settles (fun fuel => g fuel rest) a) :
    Settles (fun fuel => expect t (t :: rest) >>= g fuel) a :=
  (settles_of_eq (if_pos rfl)).bind next

theorem reads_more_of_stops (stops : Stops rule place rest) (e : Expr) :
    Reads rule (.more place e) rest (e, rest) := by
  apply settles_succ
  cases rest with
  | nil => exact settles_of_eq rfl
  | cons t ts =>
    simp only [read]
    cases opens : leftOpenOf t with
    | none => exact settles_of_eq rfl
    | some o =>
      simp only [stops t rfl o opens, Bool.false_eq_true, if_false]
      exact settles_of_eq rfl

theorem stops_of_delimits (delimits : Delimits t) (place : Place) :
    Stops rule place (t :: rest) := by
  rintro _ ⟨⟩ o opens
  exact nomatch delimits.1.symm.trans opens

theorem fits_inside (e : Expr) (delimits : Delimits t) : Fits rule .inside e (t :: rest) where
  taken _ _ := rfl
  stops _ _ := stops_of_delimits delimits _
  shape := nofun
  follow := by
    rintro _ ⟨⟩
    exact ⟨delimits.2.1, fun becomes => absurd becomes delimits.2.2⟩

theorem fits_pattern (closed : e.openAssign = false) :
    Fits rule .ofPattern e (.becomes :: rest) where
  taken _ _ := rfl
  stops := by
    rintro _ _ _ ⟨⟩ o ⟨⟩
  shape _ := closed
  follow := by
    rintro _ ⟨⟩
    exact ⟨nofun, fun _ => rfl⟩

theorem Fits.tail (fits : Fits rule place e rest) {r : Expr} {p : RightOpen}
    (ends : e.rightOpen = p :: r.rightOpen) (shape : e.openAssign = false → r.openAssign = false)
    (taken : ∀ o ∈ r.leftOpen, rule.takes p o = true) :
    Fits rule (place.within p) r rest ∧ Stops rule (place.within p) rest := by
  have stops := fits.stops
  rw [ends] at stops
  obtain ⟨first, others⟩ := List.forall_mem_cons.mp stops
  exact ⟨⟨taken, others, fun pattern => shape (fits.shape pattern), fits.follow⟩, first⟩

theorem Fits.lead (fits : Fits rule place e rest) {l : Expr} {o : LeftOpen} (behind : List Token)
    (opens : leftOpenOf t = some o) (starts : e.leftOpen = o :: l.leftOpen)
    (shape : e.openAssign = false → l.openAssign = false)
    (kept : ∀ p ∈ l.rightOpen, rule.takes p o = false) :
    Fits rule place l (t :: behind) ∧ place.takes rule o = true := by
  have taken := fits.taken
  rw [starts] at taken
  obtain ⟨first, others⟩ := List.forall_mem_cons.mp taken
  refine ⟨⟨others, ?_, fun pattern => shape (fits.shape pattern), ?_⟩, first⟩
  · rintro p member _ ⟨⟩ o' opens'
    obtain rfl := Option.some.inj (opens.symm.trans opens')
    exact kept p member
  · rintro _ ⟨⟩
    constructor
    · rintro rfl
      cases opens
    · rintro rfl
      cases opens

/-- What is read wherever it fits is read whole before a token that ends it. -/
theorem reads_delimited (delimits : Delimits t)
    (reads : ∀ {r}, Fits rule .inside e (t :: rest) →
      Reads rule (.more .inside e.bare) (t :: rest) r →
        Reads rule (.expr .inside) (e.tokens ++ t :: rest) r) :
    Reads rule (.expr .inside) (e.tokens ++ t :: rest) (e.bare, t :: rest) :=
  reads (fits_inside e delimits) (reads_more_of_stops (stops_of_delimits delimits _) _)

theorem starts_type (t : Ty) : ∃ h more, t.tokens = .head h :: more := by
  cases t <;> exact ⟨_, _, by rw [Ty.tokens] <;> rfl⟩

mutual
theorem reads_type : ∀ (t : Ty) (rest : List Token),
    Reads rule .type (t.tokens ++ rest) (t, rest)
  | .void, rest | .integer, rest | .float, rest | .bool, rest | .str, rest => by
    apply settles_succ
    simp only [Ty.tokens, List.cons_append, List.nil_append, read]
    exact settles_of_eq rfl
  | .array t, rest => by
    apply settles_succ
    simp only [Ty.tokens, List.cons_append, List.append_assoc, List.nil_append, read]
    exact (reads_type t _).bind (settles_expect (settles_of_eq rfl))
  | .tuple ts, rest => by
    have starts : ∀ t ∈ ts, ∃ u more, t.tokens = u :: more ∧ u ≠ .closeParen := by
      intro t _
      obtain ⟨h, more, is⟩ := starts_type t
      exact ⟨.head h, more, is, nofun⟩
    have listed : Reads rule (.items .type .closeParen)
        (separated (ts.map Ty.tokens) ++ .closeParen :: rest) (ts.map id, rest) :=
      reads_items nofun starts fun t member u more _ => reads_types ts t member _
    rw [List.map_id] at listed
    apply settles_succ
    simp only [Ty.tokens, Ty.tokensAll_eq_map, List.cons_append, List.append_assoc,
      List.nil_append, read]
    exact listed.bind (settles_of_eq rfl)
theorem reads_types : ∀ ts : List Ty, ∀ t ∈ ts, ∀ rest : List Token,
    Reads rule .type (t.tokens ++ rest) (t, rest)
  | [] => nofun
  | t :: ts => List.forall_mem_cons.mpr ⟨reads_type t, reads_types ts⟩
end

theorem reads_arg (a : ArgDecl) (rest : List Token) :
    Reads rule .arg (a.tokens ++ rest) (a.bare, rest) := by
  apply settles_succ
  simp only [ArgDecl.tokens, List.cons_append, read]
  exact (reads_type a.type rest).bind (settles_of_eq rfl)

theorem reads_args (args : List ArgDecl) (rest : List Token) :
    Reads rule (.items .arg .closeParen)
      (separated (args.map ArgDecl.tokens) ++ .closeParen :: rest) (args.map ArgDecl.bare, rest) :=
  reads_items nofun (fun _ _ => ⟨_, _, rfl, nofun⟩) fun a _ _ _ _ => reads_arg a _

def closers : List Token := [.closeParen, .closeBracket, .closeBrace, .key .end_]

theorem delimits_of_closers (closes : t ∈ closers) : Delimits t := by
  have all : ∀ u ∈ closers, leftOpenOf u = none ∧ u ≠ .openParen ∧ u ≠ .becomes := by decide
  exact all t closes

theorem starts_open : ∀ e : Expr, ∃ t more, e.tokens = t :: more ∧ t ∉ closers
  | .literal v span => by
    cases v with
    | str s => exact ⟨_, _, rfl, by simp [closers]⟩
    | void | int | float | bool | array | tuple =>
      simp only [tokens, Value.tokens]
      split <;> exact ⟨_, _, rfl, by simp [closers]⟩
  | .binary left op right span => by
    obtain ⟨t, more, starts, opens⟩ := starts_open left
    exact ⟨t, _, by rw [tokens, starts]; rfl, opens⟩
  | .cast operand target span => by
    obtain ⟨t, more, starts, opens⟩ := starts_open operand
    exact ⟨t, _, by rw [tokens, starts]; rfl, opens⟩
  | .array items element elementSpan span => by
    cases element with
    | none => exact ⟨_, _, rfl, by decide⟩
    | some t =>
      obtain ⟨h, more, starts⟩ := starts_type t
      refine ⟨.head h, more ++ .openBracket :: separated (tokensAll items) ++ [.closeBracket], ?_,
        by simp [closers]⟩
      rw [tokens, Option.map_some, Option.getD_some, starts]
      rfl
  | .var .. | .assign .. | .call .. | .unary .. => ⟨_, _, rfl, by simp [closers]⟩
  | .group .. | .letIn .. | .matchWith .. | .ifElse .. | .whileDo .. | .forTo .. | .tuple .. =>
    ⟨_, _, rfl, by decide⟩

section Rows

variable {close : Token}

theorem reads_row {es : List Expr} (closes : close ∈ closers)
    (each : ∀ e ∈ es, ∀ u more, Delimits u →
      Reads rule (.expr .inside) (e.tokens ++ u :: more) (e.bare, u :: more)) :
    Reads rule (.items (.expr .inside) close) (separated (tokensAll es) ++ close :: rest)
      (bareAll es, rest) := by
  have other : close ≠ .comma := by
    rintro rfl
    exact absurd closes (by decide)
  have starts : ∀ e ∈ es, ∃ u more, e.tokens = u :: more ∧ u ≠ close := by
    intro e _
    obtain ⟨t, more, is, opens⟩ := starts_open e
    exact ⟨t, more, is, fun same => opens (same ▸ closes)⟩
  rw [tokensAll_eq_map, bareAll_eq_map]
  apply reads_items other starts
  rintro e member u more (rfl | rfl)
  · exact each e member _ more ⟨rfl, nofun, nofun⟩
  · exact each e member _ more (delimits_of_closers closes)

theorem reads_declarations {word : Key} {part : Part} {tokens : α → List Token}
    {result : α → part.Result} {as : List α}
    (starts : ∀ a ∈ as, ∃ more, tokens a = .key word :: more)
    (again : Delimits (.key word)) (delimits : Delimits t) (other : t ≠ .key word)
    (each : ∀ a ∈ as, ∀ u more, Delimits u →
      Reads rule part (tokens a ++ u :: more) (result a, u :: more)) :
    Reads rule (.each word part) (as.flatMap tokens ++ t :: rest) (as.map result, t :: rest) := by
  apply reads_each other starts
  rintro a member u more (rfl | rfl)
  · exact each a member _ more again
  · exact each a member _ more delimits

theorem reads_vars {ds : List VarDecl} (delimits : Delimits t) (other : t ≠ .key .var)
    (each : ∀ d ∈ ds, ∀ u more, Delimits u →
      Reads rule .var (tokensVar d ++ u :: more) (bareVar d, u :: more)) :
    Reads rule (.each .var .var) (tokensVars ds ++ t :: rest) (bareVars ds, t :: rest) := by
  rw [tokensVars_eq_flatMap, bareVars_eq_map]
  exact reads_declarations (fun ⟨_, _, _⟩ _ => ⟨_, rfl⟩) ⟨rfl, nofun, nofun⟩ delimits other each

theorem reads_fns {fs : List FnDecl} (delimits : Delimits t) (other : t ≠ .key .function)
    (each : ∀ f ∈ fs, ∀ u more, Delimits u →
      Reads rule .fn (tokensFn f ++ u :: more) (bareFn f, u :: more)) :
    Reads rule (.each .function .fn) (tokensFns fs ++ t :: rest) (bareFns fs, t :: rest) := by
  rw [tokensFns_eq_flatMap, bareFns_eq_map]
  exact reads_declarations (fun ⟨_, _, _, _, _⟩ _ => ⟨_, rfl⟩) ⟨rfl, nofun, nofun⟩ delimits other
    each

theorem starts_fns (fs : List FnDecl) (delimits : Delimits t) (other : t ≠ .key .var)
    (rest : List Token) :
    ∃ u more, tokensFns fs ++ t :: rest = u :: more ∧ Delimits u ∧ u ≠ .key .var := by
  cases fs with
  | nil => exact ⟨t, rest, rfl, delimits, other⟩
  | cons f fs =>
    cases f
    exact ⟨_, _, rfl, ⟨rfl, nofun, nofun⟩, nofun⟩

end Rows

section Operands

variable {r : Expr × List Token}

theorem reads_name {name : String} (follow : Follow place.pattern rest)
    (more : Reads rule (.more place (.var name none)) rest r) :
    Reads rule (.expr place) (.name name :: rest) r := by
  apply settles_succ
  cases rest with
  | nil => exact more
  | cons t ts =>
    cases t with
    | openParen => exact absurd rfl (follow _ rfl).1
    | becomes =>
      simp only [read, (follow _ rfl).2 rfl, if_true]
      exact more
    | _ => exact more

theorem reads_literal {v : Value} (plain : v.Plain)
    (obeys : v.negative = true → rule.signed = true)
    (more : Reads rule (.more place (.literal v none)) rest r) :
    Reads rule (.expr place) (v.tokens ++ rest) r := by
  apply settles_succ
  by_cases worded : v.Worded
  · have known := valueOf_word worded
    rw [Value.tokens_worded worded]
    cases sign : v.negative with
    | true =>
      rw [sign] at known
      simp only [if_true, List.cons_append, List.nil_append, read, signedLiteral, obeys sign, known,
        Option.map_some]
      exact more
    | false =>
      rw [sign] at known
      simp only [Bool.false_eq_true, if_false, List.cons_append, List.nil_append, read]
      exact (settles_of_eq known).bind more
  · cases v with
    | str s =>
      simp only [Value.tokens, List.cons_append, List.nil_append, read]
      exact more
    | void | int | float | bool => exact absurd plain worded
    | array | tuple => cases plain

theorem reads_minus (sign : rule.signed = true → ¬ e.StartsUnsigned)
    (inside : Reads rule (.expr (place.within (.sign .minus))) (e.tokens ++ rest) (e.bare, rest))
    (more : Reads rule (.more place (.unary .minus e.bare none)) rest r) :
    Reads rule (.expr place) (.op .sub :: (e.tokens ++ rest)) r := by
  have unsigned : signedLiteral rule (e.tokens ++ rest) = none := by
    obtain ⟨t, behind, starts, _⟩ := starts_open e
    rw [starts, List.cons_append]
    cases t with
    | literal word =>
      rw [signedLiteral]
      split
      · rename_i signed
        rw [valueOf_eq_none]
        · rfl
        · rintro ⟨v, worded, negative, rfl⟩
          exact sign signed ⟨v, worded, negative, behind, starts⟩
      · rfl
    | _ => rfl
  apply settles_succ
  simp only [read, unsigned]
  exact inside.bind more

end Operands

mutual
theorem reads_expr : ∀ (e : Expr), e.Written → e.GroupedBy rule →
    ∀ {place : Place} {rest : List Token} {r : Expr × List Token}, Fits rule place e rest →
      Reads rule (.more place e.bare) rest r → Reads rule (.expr place) (e.tokens ++ rest) r
  | .literal v span, plain, obeys, place, rest, r, fits, more => reads_literal plain obeys more
  | .var name span, _, _, place, rest, r, fits, more => reads_name fits.follow more
  | .group body span, ⟨_, written⟩, ⟨_, follows⟩, place, rest, r, fits, more => by
    apply settles_succ
    simp only [tokens, List.cons_append, List.append_assoc, List.nil_append, read]
    exact (reads_row (by decide) (reads_inside body written follows)).bind more
  | .letIn vars fns body span, ⟨_, varsWritten, fnsWritten, written⟩,
      ⟨_, varsFollow, fnsFollow, follows⟩, place, rest, r, fits, more => by
    have ends : Delimits (.key .in_) := ⟨rfl, nofun, nofun⟩
    obtain ⟨u, behind, starts, delimits, other⟩ := starts_fns fns ends nofun
      (separated (tokensAll body) ++ .key .end_ :: rest)
    have declared : Reads rule (.each .var .var) (tokensVars vars ++ u :: behind)
        (bareVars vars, u :: behind) :=
      reads_vars delimits other (reads_eachVar vars varsWritten varsFollow)
    rw [← starts] at declared
    apply settles_succ
    simp only [tokens, List.cons_append, List.append_assoc, List.nil_append, read]
    exact declared.bind
      ((reads_fns ends nofun (reads_eachFn fns fnsWritten fnsFollow)).bind
        (settles_expect
          ((reads_row (by decide) (reads_inside body written follows)).bind more)))
  | .assign name value nameSpan span, ⟨_, written⟩, ⟨obeys, follows⟩, place, rest, r, fits,
      more => by
    have free : place.pattern = false := by
      cases pattern : place.pattern with
      | true => exact nomatch fits.shape pattern
      | false => rfl
    obtain ⟨inside, stops⟩ := fits.tail (r := value) rfl nofun obeys
    apply settles_succ
    simp only [tokens, List.cons_append, read, free, Bool.false_eq_true, if_false]
    exact (reads_expr value written follows inside (reads_more_of_stops stops _)).bind more
  | .matchWith pattern value span, ⟨_, patternWritten, written⟩,
      ⟨⟨closed, obeys⟩, patternFollows, follows⟩, place, rest, r, fits, more => by
    obtain ⟨inside, stops⟩ := fits.tail (r := value) rfl id obeys
    have ends : Stops rule .ofPattern (.becomes :: (value.tokens ++ rest)) := by
      rintro _ ⟨⟩ o ⟨⟩
    have first := reads_expr pattern patternWritten patternFollows (fits_pattern closed)
      (reads_more_of_stops ends _)
    have last := reads_expr value written follows inside (reads_more_of_stops stops _)
    apply settles_succ
    simp only [tokens, List.cons_append, List.append_assoc, read]
    exact first.bind (settles_expect (last.bind more))
  | .call name args span, ⟨_, written⟩, ⟨_, follows⟩, place, rest, r, fits, more => by
    apply settles_succ
    simp only [tokens, List.cons_append, List.append_assoc, List.nil_append, read]
    exact (reads_row (by decide) (reads_inside args written follows)).bind more
  | .ifElse cond whenTrue whenFalse span, ⟨_, condWritten, trueWritten, falseWritten⟩,
      ⟨obeys, condFollows, trueFollows, falseFollows⟩, place, rest, r, fits, more => by
    have thenEnds : Delimits (.key .then_) := ⟨rfl, nofun, nofun⟩
    have elseEnds : Delimits (.key .else_) := ⟨rfl, nofun, nofun⟩
    obtain ⟨inside, stops⟩ := fits.tail (r := whenFalse) rfl id obeys
    have last := reads_expr whenFalse falseWritten falseFollows inside
      (reads_more_of_stops stops _)
    apply settles_succ
    simp only [tokens, List.cons_append, List.append_assoc, read]
    exact (reads_delimited thenEnds (reads_expr cond condWritten condFollows)).bind
      (settles_expect
        ((reads_delimited elseEnds (reads_expr whenTrue trueWritten trueFollows)).bind
          (settles_expect (last.bind more))))
  | .whileDo cond body span, ⟨_, condWritten, written⟩, ⟨obeys, condFollows, follows⟩, place,
      rest, r, fits, more => by
    have doEnds : Delimits (.key .do_) := ⟨rfl, nofun, nofun⟩
    obtain ⟨inside, stops⟩ := fits.tail (r := body) rfl id obeys
    have last := reads_expr body written follows inside (reads_more_of_stops stops _)
    apply settles_succ
    simp only [tokens, List.cons_append, List.append_assoc, read]
    exact (reads_delimited doEnds (reads_expr cond condWritten condFollows)).bind
      (settles_expect (last.bind more))
  | .forTo loop goal body span, ⟨_, startWritten, goalWritten, written⟩,
      ⟨obeys, startFollows, goalFollows, follows⟩, place, rest, r, fits, more => by
    have toEnds : Delimits (.key .to_) := ⟨rfl, nofun, nofun⟩
    have doEnds : Delimits (.key .do_) := ⟨rfl, nofun, nofun⟩
    obtain ⟨inside, stops⟩ := fits.tail (r := body) rfl id obeys
    have last := reads_expr body written follows inside (reads_more_of_stops stops _)
    apply settles_succ
    simp only [tokens, List.cons_append, List.append_assoc, read]
    exact (reads_var loop startWritten startFollows _ _ toEnds).bind
      (settles_expect
        ((reads_delimited doEnds (reads_expr goal goalWritten goalFollows)).bind
          (settles_expect (last.bind more))))
  | .binary left op right span, ⟨_, leftWritten, rightWritten⟩,
      ⟨⟨kept, taken⟩, leftFollows, rightFollows⟩, place, rest, r, fits, more => by
    obtain ⟨first, takes⟩ := fits.lead (t := .op op) (l := left)
      (right.tokens ++ rest) rfl rfl (fun open_ => (Bool.or_eq_false_iff.mp open_).1) kept
    obtain ⟨inside, stops⟩ := fits.tail (r := right) rfl
      (fun open_ => (Bool.or_eq_false_iff.mp open_).2) taken
    -- The left operand is read first; the operator behind it then goes on with it.
    simp only [tokens, List.cons_append, List.append_assoc]
    apply reads_expr left leftWritten leftFollows first
    apply settles_succ
    simp only [read, leftOpenOf, takes, if_true]
    exact (reads_expr right rightWritten rightFollows inside
      (reads_more_of_stops stops _)).bind more
  | .unary op operand span, ⟨_, written⟩, ⟨⟨taken, sign⟩, follows⟩, place, rest, r, fits,
      more => by
    obtain ⟨inside, stops⟩ := fits.tail (r := operand) rfl id taken
    have first := reads_expr operand written follows inside (reads_more_of_stops stops _)
    cases op with
    | plus =>
      apply settles_succ
      simp only [tokens, UnaryOp.sign, List.cons_append, read]
      exact first.bind more
    | minus =>
      simp only [tokens, UnaryOp.sign, List.cons_append]
      exact reads_minus (sign rfl) first more
  | .cast operand target span, ⟨_, written⟩, ⟨kept, follows⟩, place, rest, r, fits, more => by
    obtain ⟨first, takes⟩ := fits.lead (t := .key .as_) (l := operand)
      (target.tokens ++ rest) rfl rfl id kept
    simp only [tokens, List.cons_append, List.append_assoc]
    apply reads_expr operand written follows first
    apply settles_succ
    simp only [read, leftOpenOf, takes, if_true]
    exact (reads_type target rest).bind more
  | .array items element elementSpan span, ⟨_, written⟩, ⟨_, follows⟩, place, rest, r, fits,
      more => by
    apply settles_succ
    cases element with
    | none =>
      simp only [tokens, Option.map_none, Option.getD_none, List.cons_append,
        List.append_assoc, List.nil_append, read]
      exact (reads_row (by decide) (reads_inside items written follows)).bind more
    | some t =>
      obtain ⟨h, behind, starts⟩ := starts_type t
      have typed : ∀ ts, Reads rule .type (t.tokens ++ ts) (t, ts) := reads_type t
      rw [starts] at typed
      simp only [tokens, Option.map_some, Option.getD_some, starts, List.cons_append,
        List.append_assoc, List.nil_append, read]
      exact (typed _).bind (settles_expect
        ((reads_row (by decide) (reads_inside items written follows)).bind more))
  | .tuple items span, ⟨_, written⟩, ⟨_, follows⟩, place, rest, r, fits, more => by
    apply settles_succ
    simp only [tokens, List.cons_append, List.append_assoc, List.nil_append, read]
    exact (reads_row (by decide) (reads_inside items written follows)).bind more
theorem reads_inside : ∀ (es : List Expr), EverywhereAll WrittenHere es →
    EverywhereAll (Obeys rule) es → ∀ e ∈ es, ∀ u more, Delimits u →
      Reads rule (.expr .inside) (e.tokens ++ u :: more) (e.bare, u :: more)
  | [], _, _ => nofun
  | e :: es, ⟨written, othersWritten⟩, ⟨follows, othersFollow⟩ => by
    apply List.forall_mem_cons.mpr ⟨_, reads_inside es othersWritten othersFollow⟩
    intro u more delimits
    exact reads_delimited delimits (reads_expr e written follows)
theorem reads_var : ∀ (d : VarDecl), EverywhereVar WrittenHere d →
    EverywhereVar (Obeys rule) d → ∀ u more, Delimits u →
      Reads rule .var (tokensVar d ++ u :: more) (bareVar d, u :: more)
  | ⟨name, value, span⟩, written, follows, u, more, delimits => by
    apply settles_succ
    simp only [tokensVar, List.cons_append, read]
    exact (reads_delimited delimits (reads_expr value written follows)).bind (settles_of_eq rfl)
theorem reads_eachVar : ∀ (ds : List VarDecl), EverywhereVars WrittenHere ds →
    EverywhereVars (Obeys rule) ds → ∀ d ∈ ds, ∀ u more, Delimits u →
      Reads rule .var (tokensVar d ++ u :: more) (bareVar d, u :: more)
  | [], _, _ => nofun
  | d :: ds, ⟨written, othersWritten⟩, ⟨follows, othersFollow⟩ =>
    List.forall_mem_cons.mpr
      ⟨reads_var d written follows, reads_eachVar ds othersWritten othersFollow⟩
theorem reads_fn : ∀ (f : FnDecl), EverywhereFn WrittenHere f →
    EverywhereFn (Obeys rule) f → ∀ u more, Delimits u →
      Reads rule .fn (tokensFn f ++ u :: more) (bareFn f, u :: more)
  | ⟨name, args, result, body, span⟩, written, follows, u, more, delimits => by
    apply settles_succ
    simp only [tokensFn, List.cons_append, List.append_assoc, read]
    exact (reads_args args _).bind (settles_expect
      ((reads_type result _).bind (settles_expect
        ((reads_delimited delimits (reads_expr body written follows)).bind (settles_of_eq rfl)))))
theorem reads_eachFn : ∀ (fs : List FnDecl), EverywhereFns WrittenHere fs →
    EverywhereFns (Obeys rule) fs → ∀ f ∈ fs, ∀ u more, Delimits u →
      Reads rule .fn (tokensFn f ++ u :: more) (bareFn f, u :: more)
  | [], _, _ => nofun
  | f :: fs, ⟨written, othersWritten⟩, ⟨follows, othersFollow⟩ =>
    List.forall_mem_cons.mpr
      ⟨reads_fn f written follows, reads_eachFn fs othersWritten othersFollow⟩
end

end ReadBack

end Reading

namespace Tree

open Reading Layout TypedLet.Expr

def Written (tree : Tree) : Prop := EverywhereAll WrittenHere tree.parts

def GroupedBy (rule : Rule) (tree : Tree) : Prop := EverywhereAll (Obeys rule) tree.parts

variable {rule : Rule} {tree tree' : Tree} {style style' : Style}

theorem lex_layout (written : tree.Written) :
    lex (tree.layout style).toList = separated (tokensAll tree.parts) := by
  have spells : Spells (tree.layout style).toList (separated (tree.parts.map Expr.tokens)) := by
    cases tree with
    | expr e => exact spells_layout style e 0 written.1
    | block body =>
      rw [Tree.layout, layoutAll_eq_map]
      exact spells_joined line_sep closed_line (spells_layoutAll style body 0 written)
  have whole := spells [] nofun
  rw [List.append_nil] at whole
  rw [whole, tokensAll_eq_map]
  exact List.append_nil _

/-- The text of a program that follows the rule is read as this program, but for its spans. -/
theorem reads_layout (style : Style) (written : tree.Written) (grouped : tree.GroupedBy rule) :
    Reads rule (.items (.expr .inside) .closeParen)
      (lex (tree.layout style).toList ++ [.closeParen]) (tree.bare, []) := by
  rw [lex_layout written]
  exact reads_row (by decide) (reads_inside tree.parts written grouped)

/-- A text determines the program that follows the rule. -/
theorem bare_of_layout (written : tree.Written) (written' : tree'.Written)
    (grouped : tree.GroupedBy rule) (grouped' : tree'.GroupedBy rule)
    (same : tree.layout style = tree'.layout style') : tree.bare = tree'.bare := by
  have back := reads_layout style written grouped
  rw [same] at back
  exact congrArg Prod.fst (back.unique (reads_layout style' written' grouped'))

end Tree
end TypedLet
