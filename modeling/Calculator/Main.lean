/-
  The program: its arguments and its standard streams, and the file of its history.

  1. `nextLine` reads the bytes of one line, `converse` takes the turns of a dialogue as the lines come
     in, so that each is answered before the next one is read.
  2. `main` asks the command line what to do, and standard input whether there is someone to prompt.

  Everything that is decided here is when to read and when to write.
-/
import Calculator.Console.Program

namespace Calculator.Terminal

open Console

/-- Writes a text and sees to it that it arrives. -/
def put (stream : IO.FS.Stream) (t : Text) : IO Unit := do
  if !t.isEmpty then
    stream.putStr (String.ofList t)
    stream.flush

/-- Writes what a program leaves behind. -/
def putOutcome (o : Outcome) : IO UInt32 := do
  put (← IO.getStdout) o.out
  put (← IO.getStderr) o.err
  return UInt32.ofNat o.code

/-- The bytes of the next line with its end, behind those already read; none at the end of input. -/
partial def nextLine (input : IO.FS.Stream) (before : ByteArray) : IO Bytes := do
  let byte ← input.read 1
  let bytes := before ++ byte
  if byte.isEmpty || byte.toList.contains Bytes.lineFeed then return bytes.toList
  else nextLine input bytes

/-- Takes the turns of a dialogue after a first one, until it is over or there are no more lines.
    Reports go first, so that on a terminal they stand before the question for the next line. -/
partial def converse {σ : Type} (input : IO.FS.Stream) (read : σ → Bytes → Turn σ) (t : Turn σ) :
    IO (Turn σ) := do
  put (← IO.getStderr) t.err
  put (← IO.getStdout) t.out
  if t.exit?.isSome then return t
  match Bytes.lines (← nextLine input .empty) with
  | [] => return t
  | line :: _ => converse input read (read t.state line)

/-- The directory for the data of a user's programs. -/
def dataDirectory : IO String := do
  match ← IO.getEnv "XDG_DATA_HOME" with
  | some directory =>
    if directory.startsWith "/" then return directory
    else return (← home) ++ "/.local/share"
  | none => return (← home) ++ "/.local/share"
where
  home : IO String := return (← IO.getEnv "HOME").getD ""

/-- The history's file at a path. -/
def readFile (path : String) : IO History.File := do
  try
    return .present (← IO.FS.readBinFile path).toList
  catch _ =>
    return .absent

/-- Saves the history of a dialogue that is over. -/
def save (path : String) (p : Prompt) (file : History.File) : IO Unit := do
  let stop := Prompt.stop path.toList p
  let (kept, report) := stop file
  let report ←
    match kept.content? with
    | some content =>
      if kept = file then pure report
      else try
        IO.FS.writeBinFile path content.toByteArray
        pure report
      catch _ => pure (stop .unreachable).2
    | none => pure report
  put (← IO.getStderr) report

/-- A dialogue with a prompt. -/
def prompt (input : IO.FS.Stream) (keeps : Bool) : IO UInt32 := do
  let path := (← dataDirectory) ++ "/.calcctl_history"
  let file ← readFile path
  let start := Prompt.start path.toList (if keeps then some file else none)
  let last ← converse input Prompt.read start
  save path last.state file
  return UInt32.ofNat last.outcome.code

end Calculator.Terminal

open Calculator in
/-- Runs the calculator as its arguments and its standard input ask for. -/
def main (arguments : List String) : IO UInt32 := do
  let input ← IO.getStdin
  let invocation := CommandLine.invocation (arguments.map String.toList)
  match Console.immediate? invocation with
  | some outcome => Terminal.putOutcome outcome
  | none =>
    if ← input.isTty then Terminal.prompt input (Console.keepsHistory invocation)
    else
      let last ← Terminal.converse input Console.Stream.read (.stay ∅)
      return UInt32.ofNat last.outcome.code
