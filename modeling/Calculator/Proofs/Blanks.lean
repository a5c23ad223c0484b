/-
  Blanks count in commands only.

  1. A line stays what it is when its blanks are dropped.  A declaration is parted at the same equals
     sign as before (`Line.Declares.strip`), and an expression stays an expression
     (`Line.IsExpression.strip`).
  2. **One line** — both sides of a declaration and every expression are stripped before anything is
     made of them, so the stripped line does what the line does (`step_strip`).
  3. `Line.DifferInBlanks t u` — two lines, commands apart, that are the same text when their blanks are
     dropped.  The blanks may be any that Unicode knows and may stand anywhere, within words, numbers
     and runs of signs too.
  4. **Runs** — line by line such lines can stand for each other (`run_of_forall₂`), and for a whole
     session this is `Session.blanks_interchangeable`.
-/
import Calculator.Proofs.Step

namespace Calculator

namespace Line

open Text

/-! ## Kinds of lines -/

theorem Declares.strip {t name value : Text} (h : Declares t name value) :
    Declares t.strip name.strip value.strip where
  eq_append := h.strip_eq
  equals_notMem hmem := h.equals_notMem (mem_strip.1 hmem).1
  head?_ne := by
    rw [strip_strip]
    exact h.head?_ne

theorem IsExpression.strip {t : Text} (h : IsExpression t) : IsExpression t.strip := by
  rw [isExpression_iff, strip_strip]
  exact isExpression_iff.1 h

/-- The lines have the same characters in the same order, blanks left aside, and are no commands. -/
structure DifferInBlanks (t u : Text) : Prop where
  strip_eq : t.strip = u.strip
  head?_ne : t.strip.head? ≠ some '/'

end Line

namespace Session

open Text Line

/-! ## One line -/

/-- The stripped line does what the line does. -/
theorem step_strip {t : Text} (h : t.strip.head? ≠ some '/') (store : Store) :
    (step store t.strip).result = (step store t).result ∧
      (step store t.strip).store = (step store t).store := by
  rcases kind_cases t with hblank | hslash | ⟨name, value, hdeclares⟩ | hexpression
  · have hblank' : t.strip.strip = [] := by rw [strip_strip, hblank]
    rw [step_of_strip_eq_nil hblank', step_of_strip_eq_nil hblank]
    exact ⟨rfl, rfl⟩
  · exact absurd hslash h
  · rw [step_of_declares hdeclares.strip, step_of_declares hdeclares, declare, strip_strip, strip_strip]
    exact ⟨rfl, rfl⟩
  · rw [step_of_isExpression hexpression.strip, step_of_isExpression hexpression,
      Expression.result_congr (strip_strip t)]
    exact ⟨rfl, rfl⟩

/-- Lines that differ in their blanks do the same, because they are one line when stripped. -/
theorem step_of_differInBlanks {t u : Text} (h : DifferInBlanks t u) (store : Store) :
    (step store t).result = (step store u).result ∧ (step store t).store = (step store u).store := by
  obtain ⟨hresult, hstore⟩ := step_strip h.head?_ne store
  have hu : u.strip.head? ≠ some '/' := by
    rw [← h.strip_eq]
    exact h.head?_ne
  obtain ⟨hresult', hstore'⟩ := step_strip hu store
  rw [← hresult, ← hstore, h.strip_eq]
  exact ⟨hresult', hstore'⟩

/-! ## Many lines -/

/-- By induction, each line finds the store that the other line finds. -/
theorem run_of_forall₂ {ts us : List Text}
    (h : List.Forall₂ (fun t u => t = u ∨ DifferInBlanks t u) ts us) (store : Store) :
    results store ts = results store us ∧ run store ts = run store us := by
  induction h generalizing store with
  | nil => exact ⟨rfl, rfl⟩
  | @cons t u ts us hline hrest ih =>
    have hstep : (step store t).result = (step store u).result ∧
        (step store t).store = (step store u).store := by
      rcases hline with rfl | hline
      · exact ⟨rfl, rfl⟩
      · exact step_of_differInBlanks hline store
    obtain ⟨hresults, hrun⟩ := ih (step store u).store
    rw [results_cons, results_cons, run_cons, run_cons, hstep.1, hstep.2]
    exact ⟨by rw [hresults], hrun⟩

/-- **Blanks.**  A line that no slash begins gets the result that it gets without its blanks, and leads
    to the same store.  So in any number of lines such lines can be replaced by others that differ from
    them in their blanks only: all results and the store at the end stay the same. -/
theorem blanks_interchangeable :
    (∀ t : Text, t.strip.head? ≠ some '/' → ∀ store,
      (step store t).result = (step store t.strip).result ∧
        (step store t).store = (step store t.strip).store) ∧
    ∀ ts us : List Text, List.Forall₂ (fun t u => t = u ∨ DifferInBlanks t u) ts us → ∀ store,
      results store ts = results store us ∧ run store ts = run store us := by
  refine ⟨fun t h store => ?_, fun ts us h store => run_of_forall₂ h store⟩
  obtain ⟨hresult, hstore⟩ := step_strip h store
  exact ⟨hresult.symm, hstore.symm⟩

/-- A line feed within a number, an em space before the equals sign and a wide space within a word. -/
theorem blanks_interchangeable_within_words :
    let ts := ["x\u2003= 1\n2".toList, "( x + y\u3000z ) -\t- 3".toList, "/help ".toList]
    let us := ["x=12".toList, "(x+yz)--3".toList, "/help ".toList]
    (step ∅ "x\u2003= 1\n2".toList).store = (step ∅ "x=12".toList).store ∧
      results ∅ ts = results ∅ us ∧ run ∅ ts = run ∅ us := by
  intro ts us
  obtain ⟨hline, hlines⟩ := blanks_interchangeable
  refine ⟨(hline "x\u2003= 1\n2".toList (by decide) ∅).2, hlines ts us ?_ ∅⟩
  exact .cons (Or.inr ⟨by decide, by decide⟩)
    (.cons (Or.inr ⟨by decide, by decide⟩) (.cons (Or.inl rfl) .nil))

end Session

end Calculator
