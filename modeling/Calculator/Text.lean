/-
  Text: what the calculator reads and writes.

  1. `Text` — a list of characters, so that reading and writing are functions on lists.
  2. `onLine` — a text and the end of its line.
  3. `takeBytes` — the part of a text that lies before a position counted in UTF-8 bytes.  At a boundary
     between characters it is all that stands before the boundary (`takeBytes_append`).
-/

namespace Calculator

/-- Text is a list of characters. -/
abbrev Text := List Char

namespace Text

/-- A text and the end of its line. -/
def onLine (t : Text) : Text := t ++ ['\n']

/-- The number of bytes that a text takes in UTF-8. -/
def utf8Size : Text → Nat
  | [] => 0
  | c :: t => c.utf8Size + utf8Size t

/-- The characters of a text that lie wholly before a byte position. -/
def takeBytes : Nat → Text → Text
  | _, [] => []
  | n, c :: t => if c.utf8Size ≤ n then c :: takeBytes (n - c.utf8Size) t else []

/-- What lies before a boundary between characters is the text up to there. -/
theorem takeBytes_append (t u : Text) : takeBytes (utf8Size t) (t ++ u) = t := by
  induction t with
  | nil =>
    cases u with
    | nil => rfl
    | cons c u => simp [takeBytes, utf8Size, Nat.not_le.2 c.utf8Size_pos]
  | cons c t ih =>
    rw [List.cons_append, takeBytes, if_pos (by simp [utf8Size])]
    have : utf8Size (c :: t) - c.utf8Size = utf8Size t := by simp [utf8Size]
    rw [this, ih]

end Text

end Calculator
