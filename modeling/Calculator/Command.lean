/-
  The commands: words that begin with a slash and speak to the session, not to the calculator.

  1. `Command` — the two commands of a session.
  2. `ofText?` — the command that the session takes a text for, compared with one text after the
     other.  There are no abbreviations, no arguments and no other cases.
  3. `Command.text` — the text of a command, which is the only one that is taken for it
     (`ofText?_eq_some_iff`).
-/
import Calculator.Text

namespace Calculator

/-- The commands of a session. -/
inductive Command
  | help | exit
  deriving DecidableEq, Repr

namespace Command

/-- The command that a text is. -/
def ofText? (t : Text) : Option Command :=
  if t = "/help".toList then some help
  else if t = "/exit".toList then some exit
  else none

/-- The text of a command. -/
def text : Command → Text
  | help => "/help".toList
  | exit => "/exit".toList

@[simp] theorem ofText?_text (c : Command) : ofText? c.text = some c := by cases c <;> decide

/-- A text is a command exactly when it is the command's own text. -/
theorem ofText?_eq_some_iff {t : Text} {c : Command} : ofText? t = some c ↔ t = c.text := by
  constructor
  · intro h
    unfold ofText? at h
    split at h
    · cases h; assumption
    · split at h
      · cases h; assumption
      · cases h
  · rintro rfl
    exact ofText?_text c

end Command

end Calculator
