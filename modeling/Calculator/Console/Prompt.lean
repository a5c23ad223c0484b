/-
  The calculator with a prompt: it asks for every line, and it may remember the lines.

  1. `Prompt` — the store of the session, and the history unless none is kept.
  2. `Prompt.start` loads the history and asks for the first line.  `Prompt.read` takes a line: the
     history gets it before the session does, whatever comes of it; then the next line is asked for.
     `Prompt.stop` saves the history.
  3. `prompt` — a whole dialogue, and the file of the history after it.
  4. The exit code is 0 however the dialogue ends, and a history that could not be loaded or saved is
     reported, and that is all.
-/
import Calculator.Console.Turn
import Calculator.History.File

namespace Calculator.Console

/-- The state of a dialogue with a prompt. -/
structure Prompt where
  store : Store
  /-- The history, or nothing if none is kept. -/
  history : Option History

namespace Prompt

/-- What is put out to ask for a line. -/
def question : Text := "calc> ".toList

/-- What is put out when a line is not text. -/
def notTextOutput : Text :=
  Text.onLine ("Error: Io(Error \x7b kind: InvalidData, message: ".toList ++
    Text.quoted History.File.Failure.notTextReason ++ " \x7d)".toList)

/-- The report about a failure to do something with the file at a path. -/
def report (deed path : Text) : Option History.File.Failure → Text
  | some failure =>
    Text.onLine ("Failed to ".toList ++ deed ++ [' '] ++ path ++ " - ".toList ++ failure.reason)
  | none => []

/-- The beginning of a dialogue, with the history of a file or without one. -/
def start (path : Text) : Option History.File → Turn Prompt
  | some file =>
    let (history, failure) := History.load file
    ⟨question, report "load".toList path failure, ⟨∅, some history⟩, none⟩
  | none => ⟨question, [], ⟨∅, none⟩, none⟩

/-- The turn of one line. -/
def read (p : Prompt) (line : Bytes) : Turn Prompt :=
  match Bytes.decode? line with
  | some t =>
    let turn := Turn.ofStep (Session.step p.store t)
    let history := p.history.map fun h => h.add t
    let more := if turn.exit?.isSome then [] else question
    ⟨turn.out ++ more, turn.err, ⟨turn.state, history⟩, turn.exit?⟩
  | none => ⟨notTextOutput, [], p, some 0⟩

/-- The end of a dialogue: the file afterwards, and the report about saving. -/
def stop (path : Text) (p : Prompt) (file : History.File) : History.File × Text :=
  match p.history with
  | some history =>
    let (file, failure) := history.save file
    (file, report "save".toList path failure)
  | none => (file, [])

end Prompt

/-- What a dialogue with a prompt leaves behind, and the history's file after it. -/
def prompt (path : Text) (keeps : Bool) (file : History.File) (input : Bytes) :
    Outcome × History.File :=
  let start := Prompt.start path (if keeps then some file else none)
  let turn := start.andThen fun p => Turn.all Prompt.read p (Bytes.lines input)
  let (file, saving) := Prompt.stop path turn.state file
  (⟨turn.outcome.code, turn.out, turn.err ++ saving⟩, file)

end Calculator.Console
