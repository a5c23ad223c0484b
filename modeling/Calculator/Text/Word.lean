/-
  Words: the runs of characters that stand for numbers and variables.

  1. `isWordChar` — an ASCII letter, an ASCII digit or an underscore.
  2. `isName` — the texts that may name a variable: one or more ASCII letters and nothing else.
     Case matters, and no name is reserved.
-/
import Calculator.Text

namespace Calculator.Text

/-- The characters that words are made of: ASCII letters, ASCII digits and the underscore. -/
def isWordChar (c : Char) : Bool := c.isAlphanum || c == '_'

/-- A variable's name is a non-empty word of ASCII letters. -/
def isName (t : Text) : Bool := !t.isEmpty && t.all Char.isAlpha

theorem isName_iff {t : Text} : isName t ↔ t ≠ [] ∧ ∀ c ∈ t, c.isAlpha := by
  simp [isName, List.all_eq_true]

/-- A name is a word. -/
theorem isWordChar_of_isName {t : Text} (h : isName t) {c : Char} (hc : c ∈ t) : isWordChar c := by
  simp [isWordChar, Char.isAlphanum, (isName_iff.1 h).2 c hc]

end Calculator.Text
