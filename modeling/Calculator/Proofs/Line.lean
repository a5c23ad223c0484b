/-
  What the blanks of a line do, and which lines are expressions.

  1. Trimming drops blanks and nothing else, so a line and its trimmed text leave the same when they
     are stripped (`strip_trim`), and both begin alike (`head?_trim`).
  2. `Line.IsExpression` — the lines that are neither blank nor a command nor a declaration.  Each of
     the three conditions can be read off the stripped text (`isExpression_iff`).
  3. The step of such a line is the value of an expression (`result_step_of_isExpression`), and a line
     that no command and no declaration is, is blank or an expression (`blank_or_isExpression`).
-/
import Calculator.Session
import Mathlib.Data.List.TakeWhile

namespace Calculator

namespace Text

/-! ## Trimming and stripping -/

theorem strip_cons_of_isBlank {c : Char} (h : isBlank c) (t : Text) : strip (c :: t) = strip t := by
  simp [strip, h]

theorem strip_cons_of_not_isBlank {c : Char} (h : isBlank c = false) (t : Text) :
    strip (c :: t) = c :: strip t := by
  simp [strip, h]

theorem mem_strip {c : Char} {t : Text} : c ∈ strip t ↔ c ∈ t ∧ isBlank c = false := by
  simp [strip, List.mem_filter]

theorem strip_dropWhile (t : Text) : strip (t.dropWhile isBlank) = strip t := by
  induction t with
  | nil => rfl
  | cons c t ih =>
    by_cases h : isBlank c
    · rw [List.dropWhile_cons_of_pos h, ih, strip_cons_of_isBlank h]
    · rw [List.dropWhile_cons_of_neg h]

theorem strip_reverse (t : Text) : strip t.reverse = (strip t).reverse := by
  simp [strip]

theorem strip_trimEnd (t : Text) : strip (trimEnd t) = strip t := by
  rw [trimEnd, strip_reverse, strip_dropWhile, strip_reverse, List.reverse_reverse]

/-- Trimming drops nothing that stripping would keep. -/
@[simp] theorem strip_trim (t : Text) : strip (trim t) = strip t := by
  rw [trim, strip_trimEnd, strip_dropWhile]

/-- Nothing is trimmed from the end beyond a character that is not blank. -/
theorem trimEnd_cons_of_not_isBlank {c : Char} (h : isBlank c = false) (t : Text) :
    trimEnd (c :: t) = c :: trimEnd t := by
  have hc : ¬ isBlank c = true := by simp [h]
  rw [trimEnd, List.reverse_cons, List.dropWhile_append]
  split
  · rename_i hnil
    have : t.reverse.dropWhile isBlank = [] := List.isEmpty_iff.1 hnil
    simp [trimEnd, this, hc]
  · simp [trimEnd]

/-- A trimmed text begins with the first character that is not blank. -/
theorem head?_trim (t : Text) : (trim t).head? = (strip t).head? := by
  induction t with
  | nil => rfl
  | cons c t ih =>
    by_cases h : isBlank c
    · rw [trim, List.dropWhile_cons_of_pos h, strip_cons_of_isBlank h]
      exact ih
    · have h' : isBlank c = false := by simpa using h
      rw [trim, List.dropWhile_cons_of_neg h, trimEnd_cons_of_not_isBlank h',
        strip_cons_of_not_isBlank h', List.head?_cons, List.head?_cons]

theorem trim_eq_nil_iff (t : Text) : trim t = [] ↔ strip t = [] := by
  rw [← List.head?_eq_none_iff, head?_trim, List.head?_eq_none_iff]

theorem mem_trim_iff {c : Char} (h : isBlank c = false) (t : Text) : c ∈ trim t ↔ c ∈ t := by
  constructor
  · intro hc
    have : c ∈ strip (trim t) := mem_strip.2 ⟨hc, h⟩
    rw [strip_trim] at this
    exact (mem_strip.1 this).1
  · intro hc
    have : c ∈ strip t := mem_strip.2 ⟨hc, h⟩
    rw [← strip_trim] at this
    exact (mem_strip.1 this).1

end Text

namespace Line

open Text

/-! ## Expression lines -/

/-- A line is an expression when its trimmed text is not empty, does not begin with a slash and holds
    no equals sign. -/
structure IsExpression (t : Text) : Prop where
  trim_ne_nil : t.trim ≠ []
  head?_ne : t.trim.head? ≠ some '/'
  equals_notMem : '=' ∉ t.trim

/-- The conditions on the trimmed text are conditions on the stripped one. -/
theorem isExpression_iff {t : Text} :
    IsExpression t ↔ t.strip ≠ [] ∧ t.strip.head? ≠ some '/' ∧ '=' ∉ t.strip := by
  have heq : '=' ∈ t.strip ↔ '=' ∈ t.trim := by
    rw [mem_strip, mem_trim_iff (by decide)]
    exact and_iff_left (by decide)
  constructor
  · intro h
    refine ⟨?_, ?_, ?_⟩
    · rw [Ne, ← trim_eq_nil_iff]
      exact h.trim_ne_nil
    · rw [← head?_trim]
      exact h.head?_ne
    · rw [heq]
      exact h.equals_notMem
  · rintro ⟨hne, hslash, hequals⟩
    refine ⟨?_, ?_, ?_⟩
    · rwa [Ne, trim_eq_nil_iff]
    · rwa [head?_trim]
    · rwa [← heq]

theorem ofText_of_isExpression {t : Text} (h : IsExpression t) : ofText t = .expression t.trim := by
  obtain ⟨hne, hslash, hequals⟩ := h
  have hdrop : t.trim.dropWhile (· != '=') = [] := by
    rw [List.dropWhile_eq_nil_iff]
    intro c hc
    have : c ≠ '=' := fun heq => hequals (heq ▸ hc)
    simpa using this
  rw [ofText]
  generalize t.trim = u at *
  unfold ofTrimmed
  split
  · exact absurd rfl hne
  · exact absurd rfl hslash
  · rw [hdrop]

/-- Without a slash in front and an equals sign within, a line is blank or an expression. -/
theorem blank_or_isExpression {t : Text} (hslash : t.strip.head? ≠ some '/') (hequals : '=' ∉ t) :
    t.strip = [] ∨ IsExpression t := by
  by_cases h : t.strip = []
  · exact Or.inl h
  · exact Or.inr (isExpression_iff.2 ⟨h, hslash, fun hmem => hequals (mem_strip.1 hmem).1⟩)

theorem ofText_of_strip_eq_nil {t : Text} (h : t.strip = []) : ofText t = .blank := by
  rw [ofText, (trim_eq_nil_iff t).2 h]
  rfl

end Line

namespace Expression

/-- Blanks do not count in an expression. -/
theorem result_congr {s t : Text} (h : s.strip = t.strip) (store : Store) :
    result store s = result store t := by
  simp only [result, h]

end Expression

namespace Session

/-! ## Their steps -/

theorem result_step (store : Store) (t : Text) :
    (step store t).result = (perform store (Line.ofText t)).result := rfl

theorem result_step_of_isExpression {t : Text} (h : Line.IsExpression t) (store : Store) :
    (step store t).result = (Expression.result store t).map .value := by
  rw [result_step, Line.ofText_of_isExpression h]
  show (Expression.result store t.trim).map Reply.value = _
  rw [Expression.result_congr (Text.strip_trim t)]

theorem result_step_of_strip_eq_nil {t : Text} (h : t.strip = []) (store : Store) :
    (step store t).result = .ok .silent := by
  rw [result_step, Line.ofText_of_strip_eq_nil h]
  rfl

end Session

end Calculator
