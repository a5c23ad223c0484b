/-
  The shape of an expression is the same before and after its runs of signs are collapsed.

  1. Wherever a run of signs stands, legal or not, the first sign of it decides: it leads to the place
     `signs`, where every further sign stays, or to no place at all (`next_of_isSign`).  So two signs
     lead where the one leads that they merge to (`next_merge`).
  2. Therefore a text and the collapsed text are read alike from every place (`foldlM_next_collapse`),
     and have the shape of an expression together or not at all (`isWellShaped_normalize`).
  3. Past the check of the shape only the normalized text matters (`evaluate_congr`).
-/
import Calculator.Proofs.Line
import Calculator.Proofs.Sign

namespace Calculator

namespace Text

theorem normalize_strip (t : Text) : normalize (strip t) = normalize t := by
  rw [Text.normalize, strip_strip]
  rfl

theorem normalize_eq_nil_iff {t : Text} : normalize t = [] ↔ strip t = [] := by
  constructor
  · intro h
    by_cases hs : strip t = []
    · exact hs
    · exact absurd h (collapse_ne_nil hs)
  · intro h
    rw [Text.normalize, h]
    rfl

end Text

namespace Expression

open Text

/-! ## Reading signs -/

namespace Place

/-- Behind an opening parenthesis or a single operator no sign may stand; elsewhere signs lead to
    signs. -/
theorem next_of_isSign {c : Char} (h : isSign c) (place : Place) :
    next place c = if place = openings then none else some signs := by
  rcases isSign_iff.1 h with rfl | rfl <;> cases place <;> rfl

/-- Two signs lead where any one sign leads. -/
theorem next_merge {c d : Char} (hc : isSign c) (hd : isSign d) (place : Place) :
    next place (merge c d) = (next place c).bind fun q => next q d := by
  rw [next_of_isSign (isSign_merge c d), next_of_isSign hc]
  split
  · rfl
  · show some signs = next signs d
    rw [next_of_isSign hd]
    rfl

theorem foldlM_next_attach (c : Char) (t : Text) (place : Place) :
    (attach c t).foldlM next place = (c :: t).foldlM next place := by
  cases t with
  | nil => rfl
  | cons d t =>
    by_cases h : isSign c && isSign d
    · have hsigns := h
      rw [Bool.and_eq_true] at hsigns
      rw [attach, if_pos h, List.foldlM_cons, List.foldlM_cons, next_merge hsigns.1 hsigns.2]
      show ((next place c).bind fun q => next q d).bind _ = (next place c).bind _
      rw [Option.bind_assoc]
      rfl
    · rw [attach, if_neg h]

/-- A text and the collapsed text lead from every place to the same. -/
theorem foldlM_next_collapse (t : Text) (place : Place) :
    (collapse t).foldlM next place = t.foldlM next place := by
  induction t generalizing place with
  | nil => rfl
  | cons c t ih =>
    rw [collapse_cons, foldlM_next_attach, List.foldlM_cons, List.foldlM_cons]
    congr 1
    funext q
    exact ih q

end Place

/-! ## What does not change -/

theorem isWellShaped_normalize (t : Text) : isWellShaped t.normalize = isWellShaped t.strip := by
  rw [isWellShaped, Text.normalize, Place.foldlM_next_collapse]
  rfl

/-- Without a look at the shape, the value depends on the normalized text alone. -/
theorem evaluate_congr {s t : Text} (h : s.normalize = t.normalize) (store : Store) :
    evaluate store s = evaluate store t := by
  rw [evaluate, evaluate, postorder, postorder, ofText, ofText, h]

theorem result_of_isWellShaped {t : Text} (h : isWellShaped t.strip) (store : Store) :
    result store t = evaluate store t := by
  rw [result, if_pos h]
  exact evaluate_congr (normalize_strip t) store

theorem result_of_not_isWellShaped {t : Text} (h : isWellShaped t.strip = false) (store : Store) :
    result store t = .error (.malformed t.strip) := by
  rw [result, h]
  rfl

end Expression

namespace Session

open Expression

/-- **Signs count by what they collapse to.**  A text has the shape of an expression when the
    normalized text has it.  So two lines that are no commands, hold no equals sign and agree when
    normalized are both refused for their shape, each with its own text, or get the same result. -/
theorem normalize_decides :
    (∀ t : Text, isWellShaped t.strip = isWellShaped t.normalize) ∧
    ∀ (store : Store) (s t : Text), s.normalize = t.normalize →
      s.strip.head? ≠ some '/' → t.strip.head? ≠ some '/' → '=' ∉ s → '=' ∉ t →
      (isWellShaped s.normalize = false ∧
        (step store s).result = .error (.malformed s.strip) ∧
        (step store t).result = .error (.malformed t.strip)) ∨
      (step store s).result = (step store t).result := by
  refine ⟨fun t => (isWellShaped_normalize t).symm, ?_⟩
  intro store s t h hs ht hs' ht'
  rcases Line.blank_or_isExpression hs hs' with hblank | hexp
  · -- both lines are blank
    have hblank' : t.strip = [] := by
      rwa [← Text.normalize_eq_nil_iff, ← h, Text.normalize_eq_nil_iff]
    refine Or.inr ?_
    rw [result_step_of_strip_eq_nil hblank, result_step_of_strip_eq_nil hblank']
  · have hexp' : Line.IsExpression t := by
      refine (Line.blank_or_isExpression ht ht').resolve_left fun hblank => hexp.trim_ne_nil ?_
      rwa [Text.trim_eq_nil_iff, ← Text.normalize_eq_nil_iff, h, Text.normalize_eq_nil_iff]
    rw [result_step_of_isExpression hexp, result_step_of_isExpression hexp']
    cases hw : isWellShaped s.normalize with
    | false =>
      refine Or.inl ⟨rfl, ?_, ?_⟩
      · rw [result_of_not_isWellShaped (isWellShaped_normalize s ▸ hw)]; rfl
      · rw [result_of_not_isWellShaped (isWellShaped_normalize t ▸ h ▸ hw)]; rfl
    | true =>
      refine Or.inr ?_
      rw [result_of_isWellShaped (isWellShaped_normalize s ▸ hw),
        result_of_isWellShaped (isWellShaped_normalize t ▸ h ▸ hw), evaluate_congr h]

/-- `4 --- x` and `4 +-+ x` are one expression. -/
theorem normalize_decides_of_runs :
    (step ∅ "4 --- x".toList).result = (step ∅ "4 +-+ x".toList).result :=
  (normalize_decides.2 ∅ _ _ (by decide) (by decide) (by decide) (by decide) (by decide)).resolve_left
    fun h => absurd h.1 (by decide)

end Session

end Calculator
