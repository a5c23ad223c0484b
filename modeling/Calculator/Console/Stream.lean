/-
  The calculator without a prompt: one line from the command line, or a stream of lines.

  1. `oneShot` — a single line.  Its warnings and its output are put out; an error is reported after the
     word `Error` and makes the exit code 1.
  2. `Stream.read` — one line of a stream, which continues the session of the lines before it.  A line
     that is not text ends the stream with exit code 1.
  3. `stream` — all lines of some bytes, in a fresh session.
-/
import Calculator.Console.Turn

namespace Calculator.Console

/-! ## One line -/

/-- What is left behind by a single line in a fresh session. -/
def oneShot (line : Text) : Outcome :=
  let done := Session.step ∅ line
  match done.result with
  | .ok reply => ⟨0, warnings done ++ (reply.output?.map Text.onLine).getD [], []⟩
  | .error e => ⟨1, warnings done, Text.onLine ("Error: ".toList ++ e.message)⟩

/-! ## A stream of lines -/

/-- The report about a line that is not text. -/
def notTextReport : Text :=
  "Error: Failed to read input\n\nCaused by:\n    stream did not contain valid UTF-8\n".toList

/-- The turn of one line of a stream. -/
def Stream.read (store : Store) (line : Bytes) : Turn Store :=
  match Bytes.decode? line with
  | some t => .ofStep (Session.step store t)
  | none => ⟨[], notTextReport, store, some 1⟩

/-- What is left behind by a stream of lines. -/
def stream (input : Bytes) : Outcome := (Turn.all Stream.read ∅ (Bytes.lines input)).outcome

example : stream (Bytes.encode "a = 2\na + 1\n/exit\nb".toList) = ⟨0, "3\n".toList, []⟩ := rfl

end Calculator.Console
