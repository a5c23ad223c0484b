/-
  What the whole program leaves behind: with its lines from a pipe, and at a prompt.

  1. The bytes that come in are cut into lines, and the session hears the lines up to the first that
     ends the dialogue.  The texts that are heard decide everything (`stream_of_heard`).
  2. `piped_session` — the outputs, the reports and the exit code of a piped run, and that they do not
     depend on what stands behind the line that ends it.
  3. `interactive_session` — where all lines are text, a run at a prompt says the same things.  It also
     asks for its lines, and it may have something to say of its history, at the beginning and at the
     end.  The history is kept beside the session, so neither its file nor its absence has an effect on
     the replies.
-/
import Calculator.Proofs.Cut
import Calculator.Proofs.Dialogue

namespace Calculator.Console

open Session

/-! ## From a pipe -/

theorem stream_of_heard {input : Bytes} {ts : List Text} {ending : Ending}
    (h : Heard ∅ (Bytes.lines input) ts ending) :
    stream input = ⟨if ending = .notText then 1 else 0, (results ∅ ts).flatMap output,
      (results ∅ ts).flatMap complaint ++ if ending = .notText then notTextReport else []⟩ := by
  have hall : Turn.all Stream.read ∅ (Bytes.lines input) = Stream.listener.turn ∅ ts ending :=
    Stream.listener.all_of_heard h
  have hput : Stream.listener.put = output := funext fun result => by
    show output result ++ (if result = .ok .exit then [] else []) = output result
    rw [ite_self, List.append_nil]
  rw [stream, hall, Listener.turn, hput]
  cases ending <;> exact congrArg (Outcome.mk _ · _) (List.append_nil _)

theorem piped_of_session {arguments : List Text} {keeps : Bool}
    (h : CommandLine.invocation arguments = .session keeps) (input : Bytes) :
    piped arguments input = stream input := by
  rw [piped, h]
  rfl

theorem Prompt.start_eq (path : Text) (keeps : Bool) (file : History.File) :
    Prompt.start path (if keeps then some file else none) =
      ⟨question, report "load".toList path (if keeps then (History.load file).2 else none),
        ⟨∅, if keeps then some (History.load file).1 else none⟩, none⟩ := by
  cases keeps <;> rfl

/-- The history of a dialogue is saved if one is kept, and it is worth saving if a line was not empty. -/
theorem Prompt.report_stop (path : Text) (keeps : Bool) (file : History.File) (ts : List Text) :
    (stop path (ts.foldl listener.next ⟨∅, if keeps then some (History.load file).1 else none⟩) file).2 =
      report "save".toList path
        (if keeps ∧ file = .unreachable ∧ ∃ t ∈ ts, t ≠ [] then some .missing else none) := by
  rw [stop, history_foldl_next]
  cases keeps with
  | false =>
    have hkeeps : ¬(false = true ∧ file = .unreachable ∧ ∃ t ∈ ts, t ≠ []) := fun hall =>
      Bool.false_ne_true hall.1
    show report "save".toList path none = _
    rw [if_neg hkeeps]
  | true =>
    show report _ path (((ts.foldl History.add (History.load file).1).save file).2) = _
    rw [History.failure_save]
    refine congrArg _ (if_congr ⟨?_, ?_⟩ rfl rfl)
    · rintro ⟨hchanged, rfl⟩
      exact ⟨rfl, rfl, (History.changed_foldl_add_empty ts).1 hchanged⟩
    · rintro ⟨-, rfl, hne⟩
      exact ⟨(History.changed_foldl_add_empty ts).2 hne, rfl⟩

/-- What a prompt says of the lines that it hears, and of its history before and after them. -/
theorem prompt_of_heard {input : Bytes} {ts : List Text} {ending : Ending}
    (h : Heard ∅ (Bytes.lines input) ts ending) (path : Text) (keeps : Bool) (file : History.File) :
    (prompt path keeps file input).1 = ⟨0,
      (results ∅ ts).flatMap (fun result => Prompt.question ++ output result) ++
        (if ending = .exit then [] else Prompt.question) ++
        (if ending = .notText then Prompt.notTextOutput else []),
      Prompt.report "load".toList path (if keeps then (History.load file).2 else none) ++
        (results ∅ ts).flatMap complaint ++
        Prompt.report "save".toList path
          (if keeps ∧ file = .unreachable ∧ ∃ t ∈ ts, t ≠ [] then some .missing else none)⟩ := by
  -- the dialogue begins with an empty store, and with a history if one is kept
  let p : Prompt := ⟨∅, if keeps then some (History.load file).1 else none⟩
  have hall : Turn.all Prompt.read p (Bytes.lines input) = Prompt.listener.turn p ts ending :=
    Prompt.listener.all_of_heard h
  have hprompt : (prompt path keeps file input).1 =
      ⟨(Prompt.listener.turn p ts ending).outcome.code,
        Prompt.question ++ (Prompt.listener.turn p ts ending).out,
        Prompt.report "load".toList path (if keeps then (History.load file).2 else none) ++
          (Prompt.listener.turn p ts ending).err ++
          (Prompt.stop path (Prompt.listener.turn p ts ending).state file).2⟩ := by
    rw [prompt, Prompt.start_eq, ← hall]
    rfl
  have hout : Prompt.question ++ (Prompt.listener.turn p ts ending).out =
      (results ∅ ts).flatMap (fun result => Prompt.question ++ output result) ++
        (if ending = .exit then [] else Prompt.question) ++
        (if ending = .notText then Prompt.notTextOutput else []) := by
    have hasked : Prompt.question ++ (results ∅ ts).flatMap Prompt.listener.put =
        (results ∅ ts).flatMap (fun result => Prompt.question ++ output result) ++
          if ending = .exit then [] else Prompt.question :=
      Prompt.listener.ask_append_flatMap_put h
    rw [← hasked, List.append_assoc]
    cases ending <;> rfl
  have herr : (Prompt.listener.turn p ts ending).err = (results ∅ ts).flatMap complaint := by
    cases ending <;> exact List.append_nil _
  have hcode : (Prompt.listener.turn p ts ending).outcome.code = 0 := by
    rw [Listener.code_turn]
    cases ending <;> rfl
  have hstop : (Prompt.stop path (Prompt.listener.turn p ts ending).state file).2 = _ :=
    Prompt.report_stop path keeps file ts
  rw [hprompt, hcode, hout, herr, hstop]

theorem interactive_of_session {arguments : List Text} {keeps : Bool}
    (h : CommandLine.invocation arguments = .session keeps) (path : Text) (file : History.File)
    (input : Bytes) : interactive path arguments file input = prompt path keeps file input := by
  rw [interactive, h]
  rfl

/-- **A run at a prompt.**  Where the arguments ask for a session and all lines are text, a piped run and
    a run at a prompt both have the exit code 0.  The piped run puts out the outputs for the lines that
    are heard; the other one puts out a question before each of them, and one more if it ends with the
    input.  It reports what the piped run reports, after the failure to load the history and before the
    failure to save it, if there are such.  This holds whatever the file of the history is. -/
theorem interactive_session {arguments : List Text} {keeps : Bool}
    (h : CommandLine.invocation arguments = .session keeps) {input : Bytes} {lines : List Bytes}
    (hcut : Bytes.Cut input lines) (htext : ∀ line ∈ lines, (Bytes.decode? line).isSome) :
    (∃ ts ending, Heard ∅ lines ts ending) ∧
    ∀ ts ending, Heard ∅ lines ts ending →
      (ending = .endOfInput ∨ ending = .exit) ∧
      piped arguments input = ⟨0, (results ∅ ts).flatMap output, (results ∅ ts).flatMap complaint⟩ ∧
      ∀ path file, (interactive path arguments file input).1 = ⟨0,
        (results ∅ ts).flatMap (fun result => Prompt.question ++ output result) ++
          (if ending = .endOfInput then Prompt.question else []),
        Prompt.report "load".toList path (if keeps then (History.load file).2 else none) ++
          (piped arguments input).err ++
          Prompt.report "save".toList path
            (if keeps ∧ file = .unreachable ∧ ∃ t ∈ ts, t ≠ [] then some .missing else none)⟩ := by
  refine ⟨exists_heard ∅ lines, ?_⟩
  intro ts ending hheard
  have hends := hheard.ending_cases htext
  have hending : ending ≠ .notText := by
    rcases hends with rfl | rfl <;> exact Ending.noConfusion
  rw [Bytes.cut_iff.1 hcut] at hheard
  have hpiped : piped arguments input =
      ⟨0, (results ∅ ts).flatMap output, (results ∅ ts).flatMap complaint⟩ := by
    rw [piped_of_session h, stream_of_heard hheard, if_neg hending, if_neg hending, List.append_nil]
  refine ⟨hends, hpiped, ?_⟩
  intro path file
  rw [interactive_of_session h, prompt_of_heard hheard, hpiped, if_neg hending, List.append_nil]
  rcases hends with rfl | rfl <;> rfl

/-- There is no directory for the history, so it can neither be loaded nor saved; the session hears four
    lines all the same. -/
theorem interactive_session_without_directory :
    let input := Bytes.encode "x = 6\nx * 7\nx /\n/exit\nx\n".toList
    (interactive "h".toList [] .unreachable input).1 = ⟨0, "calc> calc> 42\ncalc> calc> ".toList,
      Prompt.report "load".toList "h".toList (some .missing) ++ "Invalid expression - x/\n".toList ++
        Prompt.report "save".toList "h".toList (some .missing)⟩ := by
  intro input
  let ts : List Text := ["x = 6".toList, "x * 7".toList, "x /".toList, "/exit".toList]
  have harguments : CommandLine.invocation [] = .session true := rfl
  have hcut : Bytes.Cut input ((ts ++ ["x".toList]).map Bytes.encode) := Bytes.cut_iff.2 (by decide)
  have htext : ∀ line ∈ (ts ++ ["x".toList]).map Bytes.encode, (Bytes.decode? line).isSome := by decide
  have hheard : Heard ∅ ((ts ++ ["x".toList]).map Bytes.encode) ts .exit :=
    .next (by decide) (by decide) (.next (by decide) (by decide) (.next (by decide) (by decide)
      (.exit (by decide) (by decide))))
  obtain ⟨-, hrun⟩ := interactive_session harguments hcut htext
  obtain ⟨-, hpiped, hprompt⟩ := hrun ts .exit hheard
  rw [hprompt, hpiped]
  decide

end Calculator.Console
