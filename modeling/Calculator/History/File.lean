/-
  The file that keeps a history from one prompt to the next.

  1. `File` — the file is there with its bytes, or it is not there, or not even its directory is.
  2. `History.write` — the bytes of a history: the `heading` on a line of its own, then every entry,
     escaped, on a line of its own, oldest first.
  3. `History.read` — the history that bytes hold.  Below the heading the lines are escaped entries.
     Without it they are entries as they stand, the first line too.  Each goes through `add`, so empty
     lines and repetitions are passed over here as well.
  4. A line that is not text ends the reading.  The entries before it stay, and still count as added.
  5. `load` and `save` connect the two with a file.  Saving leaves the file alone unless an entry was
     added since the history and the file last agreed.

  The format of the file and the rules for loading and saving, failures and their words included, are
  the documented ones of the line editor that keeps the history, on a file system with its usual words.
  When a history is loaded and saved, and what is reported of it, is the calculator's own part and is
  in `Console.Prompt`.
-/
import Calculator.History
import Calculator.History.Entry
import Calculator.Bytes

namespace Calculator.History

/-- The file of a history. -/
inductive File
  /-- The directory of the file does not exist. -/
  | unreachable
  /-- The directory exists, the file does not. -/
  | absent
  /-- The file exists and has this content. -/
  | present (content : Bytes)
  deriving DecidableEq, Repr

/-- The content of a file that exists. -/
def File.content? : File → Option Bytes
  | .present content => some content
  | .unreachable | .absent => none

/-- Why a file could not be read or written. -/
inductive File.Failure
  /-- The file, or its directory, does not exist. -/
  | missing
  /-- A line of the file is not text. -/
  | notText
  deriving DecidableEq, Repr

namespace File.Failure

/-- The words for a line that is not text. -/
def notTextReason : Text := "stream did not contain valid UTF-8".toList

/-- The words for a failure. -/
def reason : Failure → Text
  | .missing => "No such file or directory (os error 2)".toList
  | .notText => notTextReason

end File.Failure

/-- The first line of a file whose other lines are escaped. -/
def heading : Text := "#V2".toList

/-! ## Writing -/

/-- The text of a history's file. -/
def text (h : History) : Text :=
  heading.onLine ++ h.entries.flatMap fun e => (escape e).onLine

/-- The bytes of a history's file. -/
def write (h : History) : Bytes := Bytes.encode h.text

/-! ## Reading -/

/-- Adds the entries that lines stand for, up to the first line that is not text. -/
def addLines (entry : Text → Text) (h : History) : List Bytes → History × Option File.Failure
  | [] => (h, none)
  | line :: lines =>
    match Bytes.decode? line with
    | some t => addLines entry (h.add (entry t)) lines
    | none => (h, some .notText)

/-- Adds what the lines of a history's file stand for. -/
def addFile : List Bytes → History × Option File.Failure
  | [] => (empty, none)
  | first :: lines =>
    if Bytes.decode? first = some heading then addLines unescape empty lines
    else addLines id empty (first :: lines)

/-- The history that the bytes of its file hold; it agrees with the file if all of it was read. -/
def read (content : Bytes) : History × Option File.Failure :=
  match addFile (Bytes.lines content) with
  | (h, none) => ({ h with changed := false }, none)
  | (h, some failure) => (h, some failure)

/-! ## Loading and saving -/

/-- The history that a file holds. -/
def load : File → History × Option File.Failure
  | .present content => read content
  | .absent | .unreachable => (empty, some .missing)

/-- The file after a history was saved to it. -/
def save (h : History) (file : File) : File × Option File.Failure :=
  if h.changed then
    match file with
    | .unreachable => (file, some .missing)
    | .absent | .present _ => (.present h.write, none)
  else (file, none)

@[simp] theorem save_of_not_changed {h : History} (hc : h.changed = false) (file : File) :
    h.save file = (file, none) := by
  simp [save, hc]

/-- The only reason why a history cannot be saved is that there is no directory for its file. -/
theorem failure_save (h : History) (file : File) :
    (h.save file).2 = if h.changed ∧ file = .unreachable then some .missing else none := by
  cases hchanged : h.changed with
  | false => simp [hchanged]
  | true => cases file <;> simp [save, hchanged]

example : (read (Bytes.encode "#V2\na\\nb\n\nc\nc".toList)).1.entries =
    ["a\nb".toList, ['c']] := rfl

end Calculator.History
