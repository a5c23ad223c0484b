/-
  A line that the grammar spells, from its text to its reply.

  1. Whatever has the shape of an expression is neither blank nor a command nor a declaration
     (`isExpression_of_isWellShaped`).
  2. The reply to such a line is the value of its tree, evaluated from left to right, with every word
     at its leaves taken for what it stands for (`Session.step_of_spelling`).
-/
import Calculator.Proofs.Spelling
import Calculator.Proofs.Words
import Calculator.Proofs.Forest

namespace Calculator

open Expression

/-! ## The kind of the line -/

/-- A character that leads nowhere is not in a text that leads somewhere. -/
theorem Expression.Place.notMem_of_foldlM_next {c : Char} (hc : ∀ place, Place.next place c = none)
    {t : Text} {place q : Place} (h : t.foldlM Place.next place = some q) : c ∉ t := by
  induction t generalizing place with
  | nil => exact List.not_mem_nil
  | cons d t ih =>
    rw [List.foldlM_cons] at h
    obtain ⟨p, hp, hrun⟩ := Option.bind_eq_some_iff.1 h
    intro hmem
    rcases List.mem_cons.1 hmem with rfl | hmem
    · rw [hc place] at hp
      cases hp
    · exact ih hrun hmem

/-- Neither a slash in front nor an equals sign has a place in the shape of an expression. -/
theorem Line.isExpression_of_isWellShaped {t : Text} (h : isWellShaped t.strip) :
    IsExpression t := by
  obtain ⟨q, hq, hfinal⟩ := isWellShaped_iff.1 h
  rw [isExpression_iff]
  refine ⟨?_, ?_, ?_⟩
  · intro hnil
    rw [hnil] at hq
    cases hq
    cases hfinal
  · intro hslash
    obtain ⟨u, hu⟩ := List.head?_eq_some_iff.1 hslash
    rw [hu, List.foldlM_cons] at hq
    cases hq
  · exact Place.notMem_of_foldlM_next (fun place => by cases place <;> rfl) hq

/-! ## The reply -/

namespace Session

/-- **Correctness of expressions.**  A line that the grammar spells gets the value of its tree or the
    first error of it, and puts out the value in decimal notation.  The words at the leaves are
    integers, variables or neither. -/
theorem step_of_spelling {line : Text} {x : Tree} (h : Spelling true .expression line.strip x)
    (store : Store) :
    (step store line).result = (x.value store).map .value ∧
    (step store line).result.map Reply.output? =
      (x.value store).map (fun n => some (Decimal.text n)) ∧
    ∀ w r, WordValue store w r ↔ (Tree.leaf (Token.operandOfText w)).value store = r := by
  have hresult : (step store line).result = (x.value store).map .value := by
    rw [result_step_of_isExpression (Line.isExpression_of_isWellShaped h.isWellShaped), h.result_eq]
  refine ⟨hresult, ?_, fun w r => wordValue_iff⟩
  rw [hresult]
  cases x.value store <;> rfl

/-- `--2 * (7 -+ x) ^ 2`, where a run is part of the first word and another is an operator. -/
theorem step_of_spelling_signed :
    ∃ x, Spelling true .expression (Text.strip "--2 * (7 -+ x) ^ 2".toList) x ∧
      (step ((∅ : Store).define "x".toList 4) "--2 * (7 -+ x) ^ 2".toList).result =
        .ok (.value 18) := by
  have hseven : Spelling false .expression ['7'] _ :=
    .term (.power (.atom (.word (Text.isWord_singleton rfl))))
  have hx : Spelling false .term ['x'] _ := .power (.atom (.word (Text.isWord_singleton rfl)))
  have hgroup : Spelling false .atom "(7-+x)".toList _ :=
    .group (.sum hseven (r := ['-', '+']) ⟨by decide, by simp [Text.isSign]⟩ hx)
  have hpower : Spelling false .power "(7-+x)^2".toList _ :=
    .pow (.atom hgroup) (.word (w := ['2']) (Text.isWord_singleton rfl))
  have htwo : Spelling true .term "--2".toList _ :=
    .power (.atom (.signed (r := ['-', '-']) (d := '2') (w := []) ⟨by decide, by simp [Text.isSign]⟩
      rfl (by simp)))
  have hline : Spelling true .expression (Text.strip "--2 * (7 -+ x) ^ 2".toList) _ :=
    .term (.product (Or.inl rfl : Operator.mul = .mul ∨ _) htwo hpower)
  refine ⟨_, hline, ?_⟩
  rw [(step_of_spelling hline _).1]
  rfl

end Session

end Calculator
