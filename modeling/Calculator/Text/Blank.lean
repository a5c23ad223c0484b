/-
  Blanks: the characters of a text that count for nothing.

  1. `isBlank` — the Unicode property `White_Space`, given by its ten ranges (25 characters).
  2. `strip` drops every blank; `trim` drops those at the two ends only.  A stripped text has no
     blank left (`isBlank_of_mem_strip`), so stripping again changes nothing (`strip_strip`).
-/
import Calculator.Text

namespace Calculator.Text

/-! ## The blanks -/

/-- The code points with the property `White_Space`, as inclusive ranges in increasing order. -/
def blankRanges : List (Nat × Nat) :=
  [(0x09, 0x0D), (0x20, 0x20), (0x85, 0x85), (0xA0, 0xA0), (0x1680, 0x1680),
   (0x2000, 0x200A), (0x2028, 0x2029), (0x202F, 0x202F), (0x205F, 0x205F), (0x3000, 0x3000)]

/-- A character is blank when its code point lies in one of the `blankRanges`. -/
def isBlank (c : Char) : Bool :=
  blankRanges.any fun (low, high) => low ≤ c.toNat && c.toNat ≤ high

/-- The ranges hold 25 characters. -/
example : (blankRanges.map fun (low, high) => high + 1 - low).sum = 25 := by decide

/-! ## Dropping blanks -/

/-- The text without its blanks. -/
def strip (t : Text) : Text := t.filter fun c => !isBlank c

/-- The text without the blanks at its end. -/
def trimEnd (t : Text) : Text := (t.reverse.dropWhile isBlank).reverse

/-- The text without the blanks at its two ends. -/
def trim (t : Text) : Text := trimEnd (t.dropWhile isBlank)

theorem isBlank_of_mem_strip {c : Char} {t : Text} (h : c ∈ strip t) : isBlank c = false := by
  simpa using (List.mem_filter.1 h).2

@[simp] theorem strip_append (s t : Text) : strip (s ++ t) = strip s ++ strip t :=
  List.filter_append ..

/-- A text without blanks is what stripping leaves of it. -/
theorem strip_eq_self {t : Text} (h : ∀ c ∈ t, isBlank c = false) : strip t = t :=
  List.filter_eq_self.2 fun c hc => by simp [h c hc]

@[simp] theorem strip_strip (t : Text) : strip (strip t) = strip t :=
  strip_eq_self fun _ => isBlank_of_mem_strip

end Calculator.Text
