/-
  Entries as lines of a file.

  1. An entry may hold line feeds, a line of a file may not.  `escape` writes a line feed as a backslash
     and an `n`, and a backslash as two.
  2. `unescape?` reads that back, and refuses a backslash with anything else, or nothing, after it.
  3. `unescape` takes such a text as it stands.
  4. What was escaped is read again as it was (`unescape_escape`), and holds no line feed
     (`newline_notMem_escape`).

  The escapes are those of the line editor that keeps the history.
-/
import Calculator.Text

namespace Calculator.History

/-- An entry as it is written on one line. -/
def escape : Text → Text
  | [] => []
  | '\n' :: t => '\\' :: 'n' :: escape t
  | '\\' :: t => '\\' :: '\\' :: escape t
  | c :: t => c :: escape t

/-- The entry that a line stands for, if every backslash on it begins one of the two escapes. -/
def unescape? : Text → Option Text
  | [] => some []
  | '\\' :: 'n' :: t => (unescape? t).map ('\n' :: ·)
  | '\\' :: '\\' :: t => (unescape? t).map ('\\' :: ·)
  | '\\' :: _ => none
  | c :: t => (unescape? t).map (c :: ·)

/-- The entry that a line stands for; one with any other escape stands for itself. -/
def unescape (line : Text) : Text := (unescape? line).getD line

theorem escape_cons_of_ne {c : Char} (t : Text) (hn : c ≠ '\n') (hb : c ≠ '\\') :
    escape (c :: t) = c :: escape t := by
  rw [escape]
  · exact hn
  · exact hb

theorem unescape?_cons_of_ne {c : Char} (t : Text) (hb : c ≠ '\\') :
    unescape? (c :: t) = (unescape? t).map (c :: ·) := by
  simp [unescape?, hb]

theorem unescape?_escape (t : Text) : unescape? (escape t) = some t := by
  induction t with
  | nil => rfl
  | cons c t ih =>
    by_cases hn : c = '\n'
    · subst hn; simp [escape, unescape?, ih]
    · by_cases hb : c = '\\'
      · subst hb; simp [escape, unescape?, ih]
      · rw [escape_cons_of_ne t hn hb, unescape?_cons_of_ne _ hb, ih]; rfl

@[simp] theorem unescape_escape (t : Text) : unescape (escape t) = t := by
  simp [unescape, unescape?_escape]

theorem newline_notMem_escape (t : Text) : '\n' ∉ escape t := by
  induction t with
  | nil => simp [escape]
  | cons c t ih =>
    by_cases hn : c = '\n'
    · subst hn; simp [escape, ih]
    · by_cases hb : c = '\\'
      · subst hb; simp [escape, ih]
      · rw [escape_cons_of_ne t hn hb]; simp [ih, Ne.symm hn]

end Calculator.History
