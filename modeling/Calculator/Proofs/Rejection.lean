/-
  Which lines are refused for the way they are written, and with which error.

  1. `rejection?` — the checks in their order: the shape, a closing parenthesis too many, an opening
     one left open, and signs in front that belong to no number.  The last one alone looks at the
     store, because the leading term is evaluated before its sign is found to lack an operand.
  2. `Outcome` — what each outcome of the checks tells about the text, so that the errors of the
     conversion and of the evaluation can be matched with them (`result_of_rejection_eq_some`).
  3. A text that passes all of them spells a tree (`exists_spelling_of_rejection_eq_none`), and then
     no error is about the way it is written.
  4. `Session.step_rejection` says that a line gets the first of these errors that applies.
-/
import Calculator.Proofs.Parsing
import Calculator.Proofs.LeadingTerm
import Mathlib.Data.List.Infix

namespace Calculator

namespace Expression

open Text

/-! ## The checks, in order -/

instance (t : Text) : Decidable (IsDetached t) :=
  decidable_of_iff (leadingSigns t ≠ [] ∧ (unsigned t).head?.all fun c => !c.isDigit) <| by
    rw [IsDetached]
    cases (unsigned t).head? <;> simp

/-- The operator that the signs at the beginning of a text stand for. -/
def leadingOperator (t : Text) : Operator := .ofRun (leadingSigns t)

/-- The term that stands behind the signs at the beginning of a text. -/
def leadingTerm (t : Text) : Text := upToSign 0 (unsigned t)

/-- What is wrong with the way in which a stripped text is written; of several faults, the first. -/
def rejection? (store : Store) (t : Text) : Option Error :=
  if isWellShaped t = false then some (.malformed t)
  else if ∃ p ∈ t.inits, p.count '(' < p.count ')' then some .unmatchedClosing
  else if t.count ')' < t.count '(' then some .unmatchedOpening
  else if IsDetached t then
    some (detachedError (leadingOperator t) (evaluate store (leadingTerm t)))
  else none

/-! ## Parentheses -/

theorem overclosed_iff_inits (t : Text) :
    Overclosed 0 t.parens ↔ ∃ p ∈ t.inits, p.count '(' < p.count ')' := by
  rw [overclosed_parens_iff]
  simp only [List.mem_inits]

theorem result_of_overclosed {t : Text} (hshape : isWellShaped t.strip)
    (h : Overclosed 0 t.strip.parens) (store : Store) :
    result store t = .error .unmatchedClosing := by
  rw [result_of_isWellShaped hshape, evaluate, postorder,
    toPostorder_of_overclosed (by rwa [parens_ofText])]
  rfl

theorem result_of_unclosed {t : Text} (hshape : isWellShaped t.strip)
    (h : ¬ Overclosed 0 t.strip.parens) (hlt : t.strip.count ')' < t.strip.count '(')
    (store : Store) : result store t = .error .unmatchedOpening := by
  have hunbalanced : ¬ Balanced t.strip := fun hb => (balanced_iff h).1 hb hlt
  have herror : postorder t = .error .unmatchedOpening := by
    have hparens := parens_ofText t
    rcases toPostorder_of_not_overclosed (hparens ▸ h) with ⟨-, herror⟩ | ⟨heq, -⟩
    · exact herror
    · exact absurd ⟨h, hparens ▸ heq⟩ hunbalanced
  rw [result_of_isWellShaped hshape, evaluate, herror]
  rfl

/-! ## Detached signs -/

/-- An expression with detached signs in front has a postorder that begins with that of its leading
    term and then the sign. -/
theorem exists_postorder_of_isDetached {line : Text} (hshape : isWellShaped line.strip)
    (h : Balanced line.strip) (hdetached : IsDetached line.strip) :
    ∃ (y : Tree) (rest : List Token), postorder (leadingTerm line.strip) = .ok y.postorder ∧
      postorder line = .ok (y.postorder ++ [.operator (leadingOperator line.strip)] ++ rest) := by
  obtain ⟨hsigns, hdigit⟩ := hdetached
  obtain ⟨x, hx⟩ := exists_spelling_unsigned hshape h
  obtain ⟨u, v, y, huv, hu, hv⟩ := hx.exists_leading_term rfl
  have hterm : leadingTerm line.strip = u := by
    rw [leadingTerm, huv, hu.upToSign_append rfl (Or.inr (by decide)), upToSign_of_head? hv,
      List.append_nil]
  have hline : line.strip = leadingSigns line.strip ++ (u ++ v) := by
    rw [← huv, leadingSigns_append_unsigned]
  -- the term has no blanks, because the line has none left
  have hstrip : u.strip = u := by
    refine Text.strip_eq_self fun c hc => ?_
    have : c ∈ line.strip := by
      rw [hline]
      exact List.mem_append_right _ (List.mem_append_left _ hc)
    exact (Text.mem_strip.1 this).2
  have hu' : ∀ c ∈ u.head?, c.isDigit = false := by
    rwa [huv, List.head?_append_of_ne_nil _ hu.ne_nil] at hdigit
  obtain ⟨rest, hrest⟩ := exists_postorder_detached hline
    ⟨hsigns, isSign_of_mem_leadingSigns⟩ hu hu' hv h
  refine ⟨y, rest, ?_, hrest⟩
  rw [hterm]
  refine Spelling.postorder_eq (t := u) ?_
  rw [hstrip]
  exact .term hu.atStart

/-- The error of a detached sign comes out whatever stands behind it in the postorder. -/
theorem value_of_isDetached {line : Text} {y : Tree}
    (h : postorder (leadingTerm line.strip) = .ok y.postorder) (store : Store) (rest : List Token) :
    value store (y.postorder ++ [.operator (leadingOperator line.strip)] ++ rest) =
      .error (detachedError (leadingOperator line.strip)
        (evaluate store (leadingTerm line.strip))) := by
  rw [evaluate_of_postorder h, value_detached]

theorem result_of_isDetached {line : Text} (hshape : isWellShaped line.strip)
    (h : Balanced line.strip) (hdetached : IsDetached line.strip) (store : Store) :
    result store line = .error (detachedError (leadingOperator line.strip)
      (evaluate store (leadingTerm line.strip))) := by
  obtain ⟨y, rest, hterm, hline⟩ := exists_postorder_of_isDetached hshape h hdetached
  rw [result_of_isWellShaped hshape, evaluate, hline]
  exact value_of_isDetached hterm store rest

/-! ## All checks -/

/-- The outcomes of the checks, each with what it tells about the text. -/
inductive Outcome (store : Store) (t : Text) : Option Error → Prop
  | malformed (shape : isWellShaped t = false) : Outcome store t (some (.malformed t))
  | overclosed (shape : isWellShaped t) (excess : Overclosed 0 t.parens) :
      Outcome store t (some .unmatchedClosing)
  | unclosed (shape : isWellShaped t) (noExcess : ¬ Overclosed 0 t.parens)
      (lt : t.count ')' < t.count '(') : Outcome store t (some .unmatchedOpening)
  | detached (shape : isWellShaped t) (balanced : Balanced t) (detached : IsDetached t) :
      Outcome store t (some (detachedError (leadingOperator t) (evaluate store (leadingTerm t))))
  | accepted (shape : isWellShaped t) (balanced : Balanced t) (attached : ¬ IsDetached t) :
      Outcome store t none

theorem outcome_rejection? (store : Store) (t : Text) : Outcome store t (rejection? store t) := by
  have hinits := overclosed_iff_inits t
  rw [rejection?]
  split
  · exact .malformed ‹_›
  · rename_i hshape
    have hshape : isWellShaped t := by simpa using hshape
    split
    · exact .overclosed hshape (hinits.2 ‹_›)
    · rename_i hover
      have hover : ¬ Overclosed 0 t.parens := mt hinits.1 hover
      split
      · exact .unclosed hshape hover ‹_›
      · have hbalanced : Balanced t := (balanced_iff hover).2 ‹_›
        split
        · exact .detached hshape hbalanced ‹_›
        · exact .accepted hshape hbalanced ‹_›

theorem result_of_rejection_eq_some {store : Store} {line : Text} {e : Error}
    (h : rejection? store line.strip = some e) : result store line = .error e := by
  have houtcome := outcome_rejection? store line.strip
  rw [h] at houtcome
  cases houtcome with
  | malformed shape => exact result_of_not_isWellShaped shape store
  | overclosed shape excess => exact result_of_overclosed shape excess store
  | unclosed shape noExcess lt => exact result_of_unclosed shape noExcess lt store
  | detached shape balanced detached => exact result_of_isDetached shape balanced detached store

/-- What passes all checks spells a tree. -/
theorem exists_spelling_of_rejection_eq_none {store : Store} {t : Text}
    (h : rejection? store t = none) : ∃ x, Spelling true .expression t x := by
  have houtcome := outcome_rejection? store t
  rw [h] at houtcome
  cases houtcome with
  | accepted shape balanced attached =>
    exact exists_spelling_of_not_isDetached shape balanced attached

end Expression

namespace Session

open Expression

/-- **Exact rejection.**  An expression line gets the first error of its writing that applies, and if
    none does, no error about its writing.  When signs in front belong to no number, nothing behind
    the leading term is evaluated: the postorder begins with that of the term and then the sign, and
    has the same error with any other continuation. -/
theorem step_rejection {line : Text} (h : Line.IsExpression line) (store : Store) :
    (∀ e, rejection? store line.strip = some e → (step store line).result = .error e) ∧
    (rejection? store line.strip = none →
      ∀ e, (step store line).result = .error e → e.kind ≠ .invalidExpression) ∧
    (isWellShaped line.strip → Balanced line.strip → IsDetached line.strip →
      ∃ post rest, postorder (leadingTerm line.strip) = .ok post ∧
        postorder line = .ok (post ++ [.operator (leadingOperator line.strip)] ++ rest) ∧
        ∀ rest', (value store (post ++ [.operator (leadingOperator line.strip)] ++ rest')).map
          Reply.value = (step store line).result) := by
  rw [result_step_of_isExpression h]
  refine ⟨?_, ?_, ?_⟩
  · intro e he
    rw [result_of_rejection_eq_some he]
    rfl
  · intro hnone e he
    obtain ⟨x, hx⟩ := exists_spelling_of_rejection_eq_none hnone
    rw [hx.result_eq] at he
    -- trees fail for other reasons than the way they are written
    exact Tree.kind_of_value_eq_error (Result.map_eq_error_iff.1 he)
  · intro hshape hbalanced hdetached
    obtain ⟨y, rest, hterm, hline⟩ := exists_postorder_of_isDetached hshape hbalanced hdetached
    refine ⟨y.postorder, rest, hterm, hline, fun rest' => ?_⟩
    rw [value_of_isDetached hterm, result_of_isDetached hshape hbalanced hdetached]

/-- The sign in front of `(4)*(1-2)` lacks an operand, and the division by zero behind it goes
    unnoticed.  Without the sign nothing is wrong with the writing, and the division fails. -/
theorem step_rejection_of_sign :
    Line.IsExpression "-(4)*(1-2) + 1/0".toList ∧
    (step ∅ "-(4)*(1-2) + 1/0".toList).result = .error (.missingOperand .sub) ∧
    (∃ post rest, postorder "-(4)*(1-2) + 1/0".toList = .ok (post ++ [.operator .sub] ++ rest)) ∧
    (step ∅ "(4)*(1-2) + 1/0".toList).result = .error .divisionByZero ∧
    Error.divisionByZero.kind ≠ .invalidExpression := by
  have hsigned : Line.IsExpression "-(4)*(1-2) + 1/0".toList := ⟨by decide, by decide, by decide⟩
  have hplain : Line.IsExpression "(4)*(1-2) + 1/0".toList := ⟨by decide, by decide, by decide⟩
  obtain ⟨hfault, -, hterm⟩ := step_rejection hsigned ∅
  obtain ⟨-, hnone, -⟩ := step_rejection hplain ∅
  have hbalanced : Balanced (Text.strip "-(4)*(1-2) + 1/0".toList) := by
    refine (balanced_iff ?_).2 (by decide)
    rw [overclosed_iff_inits]
    decide
  obtain ⟨post, rest, -, hline, -⟩ := hterm (by decide) hbalanced (by decide)
  exact ⟨hsigned, hfault _ (by decide), ⟨post, rest, hline⟩, by decide,
    hnone (by decide) _ (by decide)⟩

end Session

end Calculator
