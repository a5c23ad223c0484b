/-
  The whole program: its arguments, and where its lines come from, decide what it does.

  1. `immediate?` — what is left behind when no line is read: the version, the help text, the outcome of
     a single line, or the complaint about the arguments.
  2. `piped` — the program with standard input from a pipe or a file.
  3. `interactive` — the program at a terminal, with the file of its history.  That file stays as it is
     when no line is read (`interactive_of_immediate`).
-/
import Calculator.Console.Stream
import Calculator.Console.Prompt
import Calculator.CommandLine

namespace Calculator.Console

/-- The name and the version of the program. -/
def versionText : Text := "calcctl 0.1.0".toList

/-- The lines of the help text. -/
def usageLines : List String :=
  ["Usage: calcctl [OPTIONS]",
   "",
   "Options:",
   "  -c, --command <LINE>  If present, LINE is processed and program exits",
   "      --no-history      Do not load or save REPL history",
   "  -h, --help            Print help",
   "  -V, --version         Print version"]

/-- The help text. -/
def usageText : Text := usageLines.flatMap fun line => Text.onLine line.toList

/-- What is left behind by an invocation that reads no lines.  Arguments that are refused have an exit
    code of their own, and nothing is put out.  What is reported then are the words of the library that
    reads the arguments; they are not modelled, and the help text stands in their place. -/
def immediate? : Invocation → Option Outcome
  | .version => some ⟨0, versionText.onLine, []⟩
  | .help => some ⟨0, usageText, []⟩
  | .oneShot line => some (oneShot line)
  | .rejected => some ⟨2, [], usageText⟩
  | .session _ => none

/-- Whether an invocation keeps a history where it reads lines at a terminal. -/
def keepsHistory : Invocation → Bool
  | .session keeps => keeps
  | _ => false

/-- What the program leaves behind when its lines do not come from a terminal. -/
def piped (arguments : List Text) (input : Bytes) : Outcome :=
  (immediate? (CommandLine.invocation arguments)).getD (stream input)

/-- What the program leaves behind at a terminal, and the file of its history, at a path. -/
def interactive (path : Text) (arguments : List Text) (file : History.File) (input : Bytes) :
    Outcome × History.File :=
  let invocation := CommandLine.invocation arguments
  match immediate? invocation with
  | some outcome => (outcome, file)
  | none => prompt path (keepsHistory invocation) file input

/-- The file of the history is not touched when no line is read. -/
theorem interactive_of_immediate {arguments : List Text} {outcome : Outcome}
    (h : immediate? (CommandLine.invocation arguments) = some outcome)
    (path : Text) (file : History.File) (input : Bytes) :
    interactive path arguments file input = (outcome, file) := by
  simp [interactive, h]

end Calculator.Console
