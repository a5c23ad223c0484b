/-
  The lines of a session, told apart by their look.

  1. `Line` — a line is blank, a command, a declaration or an expression.  What stands at its ends is
     trimmed, what stands within it is kept.
  2. `Line.ofText` — a line that begins with a slash is a command, even with an equals sign in it; a
     line with an equals sign is a declaration, parted at the first one; any other is an expression.
  3. `Line.text` writes a line back, so nothing but the blanks at the ends is lost (`text_ofText`).
-/
import Calculator.Event
import Calculator.Text.Blank

namespace Calculator

/-- A line of a session. -/
inductive Line
  | blank
  | command (text : Text)
  | declaration (name value : Text)
  | expression (text : Text)
  deriving DecidableEq, Repr

namespace Line

/-- The line that a text without blanks at its ends is. -/
def ofTrimmed : Text → Line
  | [] => blank
  | '/' :: t => command ('/' :: t)
  | t =>
    match t.dropWhile (· != '=') with
    | _ :: value => declaration (t.takeWhile (· != '=')) value
    | [] => expression t

/-- The line that a text is. -/
def ofText (t : Text) : Line := ofTrimmed t.trim

/-- The text of a line. -/
def text : Line → Text
  | blank => []
  | command t | expression t => t
  | declaration name value => name ++ '=' :: value

/-- The note about what a line is taken for. -/
def notes : Line → List Event
  | blank => []
  | command t => [.command t]
  | declaration name value => [.declaration (declaration name value).text]
  | expression t => [.expression t]

/-- Nothing is lost. -/
theorem text_ofTrimmed (t : Text) : (ofTrimmed t).text = t := by
  unfold ofTrimmed
  split
  · rfl
  · rfl
  · split
    · rename_i c value h
      have hc : c = '=' := by
        have := List.head?_dropWhile_not (· != '=') t
        simp_all
      have := List.takeWhile_append_dropWhile (p := (· != '=')) (l := t)
      rw [h, hc] at this
      exact this
    · rfl

theorem text_ofText (t : Text) : (ofText t).text = t.trim := text_ofTrimmed _

end Line

end Calculator
