/-
  One line from the command line, and the same line from a pipe.

  1. A carriage return at the end of a line is a blank, and blanks at the ends of a line count for
     nothing.  So it does not matter that a pipe takes it for a part of the line's end
     (`Session.step_dropReturn`), not even in a command.
  2. A pipe with a single text on its line is heard as that text without its carriage return, and
     whatever the reply is, the dialogue is over then (`heard_singleton`, `stream_onLine`).
  3. A single line has the output of its result (`out_oneShot`).  A report has a word in front of it, and
     the exit code tells of it (`oneShot_fails_iff`, `oneShot_of_no_message`).
  4. Both ways are compared with the result of the line, and so with each other
     (`oneShot_agrees_with_stream`).
-/
import Calculator.Proofs.ConsoleRun
import Calculator.Proofs.TextLines
import Mathlib.Data.List.DropRight

namespace Calculator

namespace Text

/-! ## The ends of lines -/

theorem onLine_ne_nil (t : Text) : t.onLine ≠ [] :=
  List.append_ne_nil_of_right_ne_nil t (List.cons_ne_nil '\n' [])

theorem onLine_append (s t : Text) : onLine (s ++ t) = s ++ onLine t := List.append_assoc s t _

theorem trimEnd_concat_of_isBlank {c : Char} (h : isBlank c) (t : Text) :
    trimEnd (t ++ [c]) = trimEnd t :=
  List.rdropWhile_concat_pos isBlank t c h

/-- Of a blank at the end nothing is left, also if there are only blanks before it. -/
theorem trim_concat_of_isBlank {c : Char} (h : isBlank c) (t : Text) : trim (t ++ [c]) = trim t := by
  rw [trim, List.dropWhile_append]
  split
  case isTrue hempty =>
    have hblank : t.dropWhile isBlank = [] := List.isEmpty_iff.1 hempty
    rw [trim, hblank, List.dropWhile_cons_of_pos h, List.dropWhile_nil]
  case isFalse => exact trimEnd_concat_of_isBlank h _

theorem trim_dropReturn (t : Text) : trim t.dropReturn = trim t := by
  by_cases hlast : t.getLast? = some '\r'
  · obtain ⟨u, rfl⟩ := List.getLast?_eq_some_iff.1 hlast
    have hblank : isBlank '\r' := by decide
    rw [dropReturn_concat, trim_concat_of_isBlank hblank]
  · rw [dropReturn_of_getLast?_ne hlast]

end Text

/-- A line does what it does without the carriage return at its end. -/
theorem Session.step_dropReturn (store : Store) (t : Text) : step store t.dropReturn = step store t := by
  have hline : Line.ofText t.dropReturn = Line.ofText t := congrArg Line.ofTrimmed t.trim_dropReturn
  rw [step, step, hline]

namespace Console

open Session

/-! ## A single line from a pipe -/

/-- A single text is heard, and the dialogue ends with it or with the input. -/
theorem heard_singleton (store : Store) (t : Text) :
    ∃ ending, Heard store [Bytes.encode t] [t] ending ∧ ending ≠ .notText := by
  have htext : Bytes.decode? (Bytes.encode t) = some t := Bytes.decode?_encode t
  by_cases hexit : (step store t).result = .ok .exit
  · exact ⟨.exit, .exit htext hexit, Ending.noConfusion⟩
  · exact ⟨.endOfInput, .next htext hexit .endOfInput, Ending.noConfusion⟩

/-- What a pipe with a single line comes to, by the result of that line. -/
theorem stream_onLine {t : Text} (h : '\n' ∉ t) :
    stream (Bytes.encode t.onLine) = ⟨0, output (step ∅ t).result, complaint (step ∅ t).result⟩ := by
  have hlines : Bytes.lines (Bytes.encode t.onLine) = [Bytes.encode t.dropReturn] := by
    have hfirst := Bytes.lines_encode_onLine_append h []
    rwa [List.append_nil] at hfirst
  obtain ⟨ending, hheard, hending⟩ := heard_singleton ∅ t.dropReturn
  rw [← hlines] at hheard
  have hresults : results ∅ [t.dropReturn] = [(step ∅ t).result] := by
    rw [results_cons, results_nil, step_dropReturn]
  rw [stream_of_heard hheard, hresults, if_neg hending, if_neg hending, List.append_nil,
    List.flatMap_singleton, List.flatMap_singleton]

/-! ## A single line from the command line -/

/-- What a single line comes to, by its result. -/
theorem oneShot_eq (line : Text) :
    oneShot line = match (step ∅ line).result with
      | .ok reply => ⟨0, output (.ok reply), []⟩
      | .error e => ⟨1, [], "Error: ".toList ++ complaint (.error e)⟩ := by
  rw [oneShot, warnings_step]
  rfl

theorem out_oneShot (line : Text) : (oneShot line).out = output (step ∅ line).result := by
  rw [oneShot_eq]
  cases (step ∅ line).result <;> rfl

/-- A single line fails with a message just when this message is reported for its result. -/
theorem oneShot_fails_iff (line m : Text) :
    (oneShot line).code = 1 ∧ (oneShot line).err = Text.onLine ("Error: ".toList ++ m) ↔
      complaint (step ∅ line).result = m.onLine := by
  rw [oneShot_eq]
  cases (step ∅ line).result with
  | ok reply =>
    constructor
    · rintro ⟨hcode, -⟩
      exact absurd hcode Nat.zero_ne_one
    · intro hreport
      exact absurd hreport.symm (Text.onLine_ne_nil m)
  | error e =>
    show 1 = 1 ∧ "Error: ".toList ++ e.message.onLine = Text.onLine ("Error: ".toList ++ m) ↔
      e.message.onLine = m.onLine
    rw [Text.onLine_append, eq_self, true_and]
    exact List.append_right_inj "Error: ".toList

/-- Either some message is reported, or nothing is and nothing fails. -/
theorem oneShot_of_no_message {line : Text} (h : ¬∃ m, complaint (step ∅ line).result = Text.onLine m) :
    (oneShot line).code = 0 ∧ (oneShot line).err = [] ∧ complaint (step ∅ line).result = [] := by
  rw [oneShot_eq]
  cases hresult : (step ∅ line).result with
  | ok reply => exact ⟨rfl, rfl, rfl⟩
  | error e =>
    rw [hresult] at h
    exact absurd ⟨e.message, rfl⟩ h

theorem piped_of_oneShot {arguments : List Text} {line : Text}
    (h : CommandLine.invocation arguments = .oneShot line) (input : Bytes) :
    piped arguments input = oneShot line := by
  rw [piped, h]
  rfl

/-- **One line, two ways.**  Where the arguments give a single line, which holds no line feed, nothing is
    read, and the program puts out what it puts out when the line comes from a pipe.  It fails with the
    report of an error just when the line from the pipe has the message of that error reported, and
    nothing else.  If no message is reported, then neither way anything is, and neither fails. -/
theorem oneShot_agrees_with_stream {arguments : List Text} {line : Text}
    (h : CommandLine.invocation arguments = .oneShot line) (hline : '\n' ∉ line)
    {others : List Text} {keeps : Bool} (hothers : CommandLine.invocation others = .session keeps)
    (ignored : Bytes) :
    let single := piped arguments ignored
    let fed := piped others (Bytes.encode line.onLine)
    (∀ path file, interactive path arguments file ignored = (single, file)) ∧
    single.out = fed.out ∧
    (∀ m, single.code = 1 ∧ single.err = Text.onLine ("Error: ".toList ++ m) ↔
      fed.err = Text.onLine m) ∧
    ((¬∃ m, fed.err = Text.onLine m) →
      single.code = 0 ∧ single.err = [] ∧ fed.code = 0 ∧ fed.err = []) := by
  intro single fed
  have hsingle : single = oneShot line := piped_of_oneShot h ignored
  have hfed : fed = ⟨0, output (step ∅ line).result, complaint (step ∅ line).result⟩ := by
    show piped others (Bytes.encode line.onLine) = _
    rw [piped_of_session hothers, stream_onLine hline]
  rw [hsingle, hfed]
  refine ⟨?_, out_oneShot line, oneShot_fails_iff line, ?_⟩
  · intro path file
    refine interactive_of_immediate ?_ path file ignored
    rw [h]
    rfl
  · intro hnone
    obtain ⟨hcode, herr, hsilent⟩ := oneShot_of_no_message hnone
    exact ⟨hcode, herr, rfl, hsilent⟩

/-- The line ends with a carriage return, and what stands on the pipe of the first run is not read. -/
theorem oneShot_agrees_with_stream_on_error :
    let line : Text := "x\u3000/ \r".toList
    let single := piped ["-c".toList, line] (Bytes.encode "1\n".toList)
    let fed := piped ["--no-history".toList] (Bytes.encode line.onLine)
    fed = ⟨0, [], "Invalid expression - x/\n".toList⟩ ∧
    single.code = 1 ∧ single.out = [] ∧ single.err = "Error: Invalid expression - x/\n".toList := by
  intro line single fed
  have harguments : CommandLine.invocation ["-c".toList, line] = .oneShot line := by decide
  have hothers : CommandLine.invocation ["--no-history".toList] = .session false := by decide
  have hfed : fed = ⟨0, [], "Invalid expression - x/\n".toList⟩ := by decide
  obtain ⟨-, hout, hreport, -⟩ :=
    oneShot_agrees_with_stream harguments (by decide) hothers (Bytes.encode "1\n".toList)
  have hmessage : fed.err = Text.onLine "Invalid expression - x/".toList := congrArg Outcome.err hfed
  obtain ⟨hcode, herr⟩ := (hreport "Invalid expression - x/".toList).2 hmessage
  exact ⟨hfed, hcode, hout.trans (congrArg Outcome.out hfed), herr⟩

end Console

end Calculator
