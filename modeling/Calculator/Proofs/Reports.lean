/-
  What is reported about a line, and what never is.

  1. `Expression.Fault` — the errors that an expression can have (`fault_of_result_eq_error`).  The
     evaluation has three more, for tokens that are no postorder: a parenthesis among them, no value
     at the end, more than one.  The checks on the text let no such tokens come up.
  2. The one warning that there is goes with more than one value at the end (`result_of_warn`), so it
     does not come up either.
  3. The texts that are quoted in the log have the shape of an expression, so they stand between the
     quotes as they are (`Session.quoted_of_mem_events`).
  4. `Session.Reported` — the errors that a line can get, each with the part of the line that it is
     about (`Path.reported`).
  5. `Session.report_of_mem_steps` says what follows for the reports of a whole session.
-/
import Calculator.Proofs.Step
import Calculator.Proofs.Rejection
import Calculator.Proofs.ExpressionLine
import Calculator.Proofs.Normalization

namespace Calculator

namespace Expression

open Text

/-! ## The errors of expressions -/

/-- The errors that an expression with this stripped text can have: those of its writing, and those of
    what its operands and operators mean. -/
inductive Fault (t : Text) : Error → Prop
  | malformed : Fault t (.malformed t)
  | unmatchedClosing : Fault t .unmatchedClosing
  | unmatchedOpening : Fault t .unmatchedOpening
  | missingOperand {op : Operator} : Fault t (.missingOperand op)
  | computational {e : Error} (h : e.Computational) : Fault t e

/-- A detached sign lacks an operand, unless the term behind it fails first. -/
theorem fault_detachedError {t : Text} (op : Operator) (y : Tree) (store : Store) :
    Fault t (detachedError op (y.value store)) := by
  cases hy : y.value store with
  | error e => exact .computational (Tree.computational_of_value_eq_error hy)
  | ok n => exact .missingOperand

theorem fault_of_result_eq_error {store : Store} {line : Text} {e : Error}
    (h : result store line = .error e) : Fault line.strip e := by
  cases hr : rejection? store line.strip with
  | none =>
    obtain ⟨x, hx⟩ := exists_spelling_of_rejection_eq_none hr
    rw [hx.result_eq] at h
    exact .computational (Tree.computational_of_value_eq_error h)
  | some e' =>
    have houtcome := outcome_rejection? store line.strip
    rw [result_of_rejection_eq_some hr] at h
    cases h
    rw [hr] at houtcome
    cases houtcome with
    | malformed => exact .malformed
    | overclosed => exact .unmatchedClosing
    | unclosed => exact .unmatchedOpening
    | detached hshape hbalanced hdetached =>
      obtain ⟨y, -, hterm, -⟩ := exists_postorder_of_isDetached hshape hbalanced hdetached
      rw [evaluate_of_postorder hterm]
      exact fault_detachedError _ y store

/-! ## The warning -/

theorem value_of_surplus_ne_nil {store : Store} {tokens : List Token}
    (h : surplus store tokens ≠ []) : value store tokens = .error .missingOperator := by
  rw [surplus] at h
  rw [value]
  rcases hvalues : values store tokens with e | _ | ⟨n, _ | ⟨m, below⟩⟩
  · rw [hvalues] at h
    exact absurd rfl h
  · rw [hvalues] at h
    exact absurd rfl h
  · rw [hvalues] at h
    exact absurd rfl h
  · rfl

/-- There is a warning only where the conversion succeeds and the evaluation leaves values over. -/
theorem result_of_warn {store : Store} {line : Text} {ev : Event} (h : ev ∈ resultNotes store line)
    (hwarn : ev.level = .warn) : result store line = .error .missingOperator := by
  obtain ⟨hshape, rfl | ⟨tokens, hpost, rfl | ⟨hsurplus, -⟩⟩⟩ := mem_resultNotes h
  · cases hwarn
  · cases hwarn
  · rw [result, if_pos hshape, evaluate, hpost]
    exact value_of_surplus_ne_nil hsurplus

/-- No expression is warned of. -/
theorem level_ne_warn_of_mem_resultNotes {store : Store} {line : Text} {ev : Event}
    (h : ev ∈ resultNotes store line) : ev.level ≠ .warn := by
  intro hwarn
  have hfault := fault_of_result_eq_error (result_of_warn h hwarn)
  cases hfault with
  | computational h => cases h

/-! ## Quotes -/

/-- Besides the characters of words, only operators and parentheses have a place in an expression. -/
theorem Place.mem_symbols_of_next {place q : Place} {c : Char} (h : place.next c = some q)
    (hword : isWordChar c = false) : c ∈ ['+', '-', '*', '/', '^', '(', ')'] := by
  by_contra hmem
  simp only [List.mem_cons, List.not_mem_nil, or_false, not_or] at hmem
  obtain ⟨hplus, hminus, htimes, hslash, hcaret, hopening, hclosing⟩ := hmem
  cases place <;>
    simp [next, afterOperand, isSign, isSingle, hword, hplus, hminus, htimes, hslash, hcaret,
      hopening, hclosing] at h

theorem Place.escape_of_next {place q : Place} {c : Char} (h : place.next c = some q) :
    escape c = [c] := by
  cases hword : isWordChar c with
  | true =>
    obtain ⟨hlow, hhigh⟩ := toNat_of_isWordChar hword
    refine escape_eq_self (by omega) (by omega) ?_ ?_
    · rintro rfl
      cases hword
    · rintro rfl
      cases hword
  | false =>
    have hmem := mem_symbols_of_next h hword
    simp only [List.mem_cons, List.not_mem_nil, or_false] at hmem
    rcases hmem with rfl | rfl | rfl | rfl | rfl | rfl | rfl <;> rfl

/-- Nothing has to be escaped in an expression. -/
theorem quoted_of_isWellShaped {t : Text} (h : isWellShaped t) : quoted t = '"' :: t ++ ['"'] := by
  obtain ⟨q, hrun, -⟩ := isWellShaped_iff.1 h
  refine quoted_eq_self fun c hc => ?_
  by_contra hescape
  refine Place.notMem_of_foldlM_next (fun place => ?_) hrun hc
  cases hnext : place.next c with
  | none => rfl
  | some p => exact absurd (Place.escape_of_next hnext) hescape

/-! ## What the errors say -/

/-- The errors of the writing repeat the text, or speak of a parenthesis or of an operand. -/
theorem Fault.detail_cases {t : Text} {e : Error} (h : Fault t e) (hkind : e.kind = .invalidExpression) :
    e.detail = some t ∨ ∃ p ∈ ["unmatched ".toList, "missing operand ".toList],
      ∃ d, e.detail = some d ∧ p <+: d := by
  cases h with
  | malformed => exact Or.inl rfl
  | unmatchedClosing | unmatchedOpening => exact Or.inr ⟨_, .head _, _, rfl, by decide⟩
  | missingOperand =>
    have hwords : "missing operand for ".toList = "missing operand ".toList ++ "for ".toList := by
      decide
    refine Or.inr ⟨"missing operand ".toList, .tail _ (.head _), _, rfl, ?_⟩
    rw [hwords, List.append_assoc]
    exact List.prefix_append _ _
  | computational h => exact absurd hkind h.kind_ne.1

/-- They say nothing of operators that are missing, of expressions without a value or of tokens that
    are not expected; a text without blanks says none of this either. -/
theorem Fault.not_prefix_detail {t : Text} {e : Error} (h : Fault t e) (hblank : ' ' ∉ t)
    (hkind : e.kind = .invalidExpression) {q : Text}
    (hq : q ∈ ["missing operator ".toList, "expression ".toList, "unexpected ".toList]) {d : Text}
    (hd : e.detail = some d) : ¬ q <+: d := by
  have hmem : ∀ q ∈ ["missing operator ".toList, "expression ".toList, "unexpected ".toList],
    ' ' ∈ q := by decide
  have hapart : ∀ p ∈ ["unmatched ".toList, "missing operand ".toList],
    ∀ q ∈ ["missing operator ".toList, "expression ".toList, "unexpected ".toList],
      ¬ p <+: q ∧ ¬ q <+: p := by decide
  intro hbegins
  rcases h.detail_cases hkind with htext | ⟨p, hp, d', hd', hbegins'⟩
  · rw [htext] at hd
    cases hd
    exact hblank (hbegins.subset (hmem q hq))
  · rw [hd'] at hd
    cases hd
    rcases List.prefix_or_prefix_of_prefix hbegins' hbegins with hpq | hqp
    · exact (hapart p hp q hq).1 hpq
    · exact (hapart p hp q hq).2 hqp

end Expression

namespace Session

open Expression Decimal Line

/-! ## The errors of lines -/

/-- The errors that a line can get, each with the part of the line that it is about. -/
inductive Reported (t : Text) : Error → Prop
  | command : Reported t (.unknownCommand t.trim)
  | misnamed {name value : Text} (h : Declares t name value) : Reported t (.invalidName name.strip)
  | unbound {name value : Text} (h : Declares t name value) :
      Reported t (.unknownVariable value.strip)
  | refused {name value : Text} (h : Declares t name value)
      (hliteral : ∀ n, ¬ Literal value.strip n) (hname : value.strip.isName = false) :
      Reported t (.invalidAssignment value.strip)
  | expression {e : Error} (h : Fault t.strip e) : Reported t e

theorem Path.reported {store : Store} {t : Text} {done : Step} (h : Path store t done) {e : Error}
    (he : done.result = .error e) : Reported t e := by
  cases h with
  | blank | command | defined => cases he
  | unknownCommand => cases he; exact .command
  | misnamed h => cases he; exact .misnamed h
  | refused h hname hvalue =>
    cases he
    cases hvalue with
    | unbound => exact .unbound h
    | other hliteral hname => exact .refused h hliteral hname
  | expression => exact .expression (fault_of_result_eq_error (Result.map_eq_error_iff.1 he))

theorem Path.level_ne_warn {store : Store} {t : Text} {done : Step} (h : Path store t done) {ev : Event}
    (hev : ev ∈ done.events) : ev.level ≠ .warn := by
  rcases h.mem_events hev with rfl | rfl | rfl | ⟨x, n, rfl⟩ | hnotes
  · exact nofun
  · exact nofun
  · exact nofun
  · exact nofun
  · exact level_ne_warn_of_mem_resultNotes hnotes

/-- **What the log quotes** is the stripped text of an expression and its normalized form.  In neither is
    anything escaped. -/
theorem quoted_of_mem_events {store : Store} {t before after : Text}
    (h : .normalized before after ∈ (step store t).events) :
    Text.quoted before = '"' :: before ++ ['"'] ∧ Text.quoted after = '"' :: after ++ ['"'] := by
  have hnotes : .normalized before after ∈ resultNotes store t := by
    rcases (path_step store t).mem_events h with heq | heq | heq | ⟨x, n, heq⟩ | hnotes
    · cases heq
    · cases heq
    · cases heq
    · cases heq
    · exact hnotes
  obtain ⟨hshape, heq | ⟨tokens, -, heq | ⟨-, heq⟩⟩⟩ := mem_resultNotes hnotes
  · cases heq
    have hnormalized : isWellShaped t.strip.normalize := by
      rwa [isWellShaped_normalize, Text.strip_strip]
    exact ⟨quoted_of_isWellShaped hshape, quoted_of_isWellShaped hnormalized⟩
  · cases heq
  · cases heq

/-- Errors about expressions come from expressions. -/
theorem Reported.fault {t : Text} {e : Error} (h : Reported t e)
    (hkind : e.kind = .invalidExpression) : Fault t.strip e := by
  cases h with
  | command | misnamed | unbound | refused => cases hkind
  | expression h => exact h

/-- Errors about assignments repeat a right side that is neither an integer nor a name. -/
theorem Reported.refused_of_kind {t : Text} {e : Error} (h : Reported t e)
    (hkind : e.kind = .invalidAssignment) :
    ∃ name value, Declares t name value ∧ e = .invalidAssignment value.strip ∧
      (∀ n, ¬ Literal value.strip n) ∧ value.strip.isName = false := by
  cases h with
  | command | misnamed | unbound => cases hkind
  | refused h hliteral hname => exact ⟨_, _, h, rfl, hliteral, hname⟩
  | expression h =>
    cases h with
    | malformed | unmatchedClosing | unmatchedOpening | missingOperand => cases hkind
    | computational h => exact absurd hkind h.kind_ne.2

/-- **What a session reports.**  No line of a run is told of a missing operator, of a missing value or
    of unexpected tokens, and no line is warned of.  An assignment is refused with the text right of
    the first equals sign, blanks removed, and that text is no integer: those are all assigned. -/
theorem report_of_mem_steps {store : Store} {ts : List Text} {t : Text} {done : Step}
    (h : (t, done) ∈ ts.zip (steps store ts)) :
    (∀ e, done.result = .error e → e.kind = .invalidExpression →
      e.detail ≠ some "missing operator between operands".toList ∧
      e.detail ≠ some "expression has no value".toList ∧
      ∀ u, e.detail ≠ some ("unexpected ".toList ++ u ++ " in postfix sequence".toList)) ∧
    (∀ ev ∈ done.events, ev.level ≠ .warn) ∧
    (∀ e, done.result = .error e → e.kind = .invalidAssignment →
      ∃ name value : Text, t = name ++ '=' :: value ∧ '=' ∉ name ∧ e.detail = some value.strip ∧
        ∀ n, ¬ Literal value.strip n) ∧
    (∀ name value n, Declares t name value → name.strip.isName → Literal value.strip n →
      done.result = .ok .silent) := by
  obtain ⟨before, -, -, rfl⟩ := exists_of_mem_zip_steps h
  have hpath := path_step (run store before) t
  refine ⟨?_, fun ev hev => hpath.level_ne_warn hev, ?_, ?_⟩
  · intro e he hkind
    have hfault : Fault t.strip e := (hpath.reported he).fault hkind
    have hblank : ' ' ∉ t.strip := fun hmem => by
      have : Text.isBlank ' ' = false := (Text.mem_strip.1 hmem).2
      exact absurd this (by decide)
    refine ⟨fun hd => ?_, fun hd => ?_, fun u hd => ?_⟩
    · exact hfault.not_prefix_detail hblank hkind (.head _) hd (by decide)
    · exact hfault.not_prefix_detail hblank hkind (.tail _ (.head _)) hd (by decide)
    · refine hfault.not_prefix_detail hblank hkind (.tail _ (.tail _ (.head _))) hd ?_
      rw [List.append_assoc]
      exact List.prefix_append _ _
  · intro e he hkind
    obtain ⟨name, value, hdeclares, rfl, hliteral, -⟩ := (hpath.reported he).refused_of_kind hkind
    exact ⟨name, value, hdeclares.eq_append, hdeclares.equals_notMem, rfl, hliteral⟩
  · intro name value n hdeclares hname hn
    rw [step_of_assigned hdeclares hname (.literal hn)]

/-- In a session of three lines, `(2)(3)` is not told of the missing operator, nothing is warned of at
    `-(4)`, and `b = a + 1` is refused for `a+1`. -/
theorem report_of_mem_steps_refused :
    let ts := ["(2)(3)".toList, "-(4)".toList, "b = a + 1".toList]
    let store := run ∅ (ts.take 2)
    (∀ e, (step ∅ "(2)(3)".toList).result = .error e →
      e.detail ≠ some "missing operator between operands".toList) ∧
    (∀ ev ∈ (step ∅ "-(4)".toList).events, ev.level ≠ .warn) ∧
    ∃ e, (step store "b = a + 1".toList).result = .error e ∧
      e.detail = some (Text.strip " a + 1".toList) := by
  intro ts store
  have hfirst : ("(2)(3)".toList, step ∅ "(2)(3)".toList) ∈ ts.zip (steps ∅ ts) := .head _
  have hsecond : ("-(4)".toList, step ∅ "-(4)".toList) ∈ ts.zip (steps ∅ ts) := .tail _ (.head _)
  have hthird : ("b = a + 1".toList, step store "b = a + 1".toList) ∈ ts.zip (steps ∅ ts) :=
    .tail _ (.tail _ (.head _))
  have herror : (step store "b = a + 1".toList).result =
      .error (.invalidAssignment "a+1".toList) := by decide
  refine ⟨?_, (report_of_mem_steps hsecond).2.1, _, herror, ?_⟩
  · intro e he
    have hmalformed : (step ∅ "(2)(3)".toList).result = .error (.malformed "(2)(3)".toList) := by decide
    rw [hmalformed] at he
    cases he
    exact ((report_of_mem_steps hfirst).1 _ hmalformed rfl).1
  · obtain ⟨name, value, heq, hequals, hdetail, -⟩ :=
      (report_of_mem_steps hthird).2.2.1 _ herror rfl
    have hline : Declares "b = a + 1".toList "b ".toList " a + 1".toList :=
      ⟨rfl, by decide, by decide⟩
    obtain ⟨rfl, rfl⟩ := hline.unique ⟨heq, hequals, hline.head?_ne⟩
    exact hdetail

end Session

end Calculator
