/-
  The history's file after a run at a prompt.

  1. The texts that are heard are added to the history that was loaded, and the outcome is saved
     (`file_prompt_of_heard`).
  2. `history_of_run` — a file that holds the lines `L` holds afterwards what the lines `L` and the texts
     that are heard leave together, all at once.  It is rewritten only if one of the texts gets an entry.
  3. `history_of_idle_run` — a run without any line leaves the file as it is, unless it is `File.Torn`:
     some line of it is not text, and there is an entry before that line.  Then the entries before that
     line were loaded and count as new, so they are saved, and the rest of the file is lost
     (`history_lost_in_idle_run`).
  4. `start_after_stop` — what one run saves is what the next one starts with.  An entry may hold anything,
     but a carriage return at its end is taken for a part of the line's end.
-/
import Calculator.Proofs.ConsoleRun
import Calculator.Proofs.HistoryFile

namespace Calculator.Console

open History

/-- The texts that are heard are added to what was loaded, and the outcome is saved. -/
theorem file_prompt_of_heard {input : Bytes} {ts : List Text} {ending : Ending}
    (h : Heard ∅ (Bytes.lines input) ts ending) (path : Text) (file : History.File) :
    (prompt path true file input).2 = ((ts.foldl History.add (load file).1).save file).1 := by
  let p : Prompt := ⟨∅, some (load file).1⟩
  have hall : Turn.all Prompt.read p (Bytes.lines input) = Prompt.listener.turn p ts ending :=
    Prompt.listener.all_of_heard h
  have hstop : (prompt path true file input).2 =
      (Prompt.stop path (Prompt.listener.turn p ts ending).state file).1 := by
    rw [← hall]
    rfl
  rw [hstop]
  show (Prompt.stop path (ts.foldl Prompt.listener.next p) file).1 = _
  rw [Prompt.stop, Prompt.history_foldl_next]
  rfl

/-! ## Lines that were heard -/

/-- **The history after a run.**  The arguments ask for a session with a history.  A file that is not
    there holds no lines, and any that can be read holds some lines `L`.  Whatever comes in, some texts
    `ts` are heard of it, the last of them being the first with the reply `exit` if there is one.  If one
    of these is not empty and not the entry before it again, then the file has as entries the last
    100 that are left of the lines `L` and the texts `ts` without the empty ones and then without
    immediate repetitions.  If there is none, the file stays as it is. -/
theorem history_of_run {arguments : List Text}
    (h : CommandLine.invocation arguments = .session true) :
    (∀ content, File.Readable content → ∃ L, File.Holds (.present content) L) ∧
    (∀ input, ∃ lines ts ending, Bytes.Cut input lines ∧ Heard ∅ lines ts ending) ∧
    ∀ path file L input lines ts ending, File.Holds file L → Bytes.Cut input lines →
      Heard ∅ lines ts ending →
      (Adds L ts → (interactive path arguments file input).2 =
        .ofEntries ((((L ++ ts).filter (· ≠ [])).destutter (· ≠ ·)).rtake 100)) ∧
      (¬Adds L ts → (interactive path arguments file input).2 = file) := by
  refine ⟨fun _ => exists_holds, ?_, ?_⟩
  · intro input
    obtain ⟨ts, ending, hheard⟩ := exists_heard ∅ (Bytes.lines input)
    exact ⟨Bytes.lines input, ts, ending, Bytes.cut_lines input, hheard⟩
  · intro path file L input lines ts ending hfile hcut hheard
    rw [Bytes.cut_iff.1 hcut] at hheard
    rw [interactive_of_session h, file_prompt_of_heard hheard]
    obtain ⟨hrecalls, hsaved⟩ := hfile.recalls
    have hchanged : (ts.foldl History.add (load file).1).changed ↔ Adds L ts := by
      rw [hrecalls.changed_foldl_add, hsaved]
      exact or_iff_right Bool.false_ne_true
    constructor
    · intro hadds
      have hplace : file ≠ .unreachable := by
        rintro rfl
        cases hfile
      rw [save_of_changed (hchanged.2 hadds) hplace, (hrecalls.foldl_add ts).entries_eq]
      rfl
    · intro hnone
      rw [save_of_not_changed (Bool.eq_false_iff.2 fun hc => hnone (hchanged.1 hc))]

/-- The last line of the file is typed again, which adds nothing; then there are an empty line, an error,
    the end of the session, and a line that is not heard. -/
theorem history_of_run_repeating :
    let file : History.File := .present (Bytes.encode "#V2\n1\\n2\nx\n".toList)
    let input := Bytes.encode "x\n\nx /\n/exit\n7\n".toList
    (interactive "h".toList [] file input).2 =
      .present (Bytes.encode "#V2\n1\\n2\nx\nx /\n/exit\n".toList) := by
  intro file input
  let L : List Text := ["1\n2".toList, "x".toList]
  let ts : List Text := ["x".toList, [], "x /".toList, "/exit".toList]
  have harguments : CommandLine.invocation [] = .session true := rfl
  have hfile : file.Holds L := .headed (Bytes.cut_iff.2 (by decide))
  have hcut : Bytes.Cut input ((ts ++ ["7".toList]).map Bytes.encode) := Bytes.cut_iff.2 (by decide)
  have hheard : Heard ∅ ((ts ++ ["7".toList]).map Bytes.encode) ts .exit :=
    .next (by decide) (by decide) (.next (by decide) (by decide) (.next (by decide) (by decide)
      (.exit (by decide) (by decide))))
  have hadds : Adds L ts := ⟨["x".toList, []], "x /".toList, ["/exit".toList], rfl, by decide, by decide⟩
  obtain ⟨-, -, hrun⟩ := history_of_run harguments
  rw [(hrun "h".toList file L input _ ts .exit hfile hcut hheard).1 hadds]
  decide

/-! ## No lines at all -/

/-- The file after a run without any line. -/
theorem file_prompt_nil (path : Text) (file : History.File) :
    (prompt path true file []).2 = ((load file).1.save file).1 := by
  have hheard : Heard ∅ (Bytes.lines []) [] .endOfInput := .endOfInput
  exact file_prompt_of_heard hheard path file

/-- What a run without any line says: it asks for a line, and it reports what was wrong with the file. -/
theorem outcome_prompt_nil (path : Text) (file : History.File) :
    (prompt path true file []).1 =
      ⟨0, Prompt.question, Prompt.report "load".toList path (load file).2⟩ := by
  have hheard : Heard ∅ (Bytes.lines []) [] .endOfInput := .endOfInput
  have hsaved : ¬(true = true ∧ file = .unreachable ∧ ∃ t ∈ ([] : List Text), t ≠ []) := by
    rintro ⟨-, -, t, hmem, -⟩
    cases hmem
  rw [prompt_of_heard hheard, if_neg hsaved, if_pos rfl]
  show Outcome.mk 0 Prompt.question (Prompt.report _ path (load file).2 ++ [] ++ []) = _
  rw [List.append_nil, List.append_nil]

/-- **The history after a run without any line.**  The file of the history stays as it is just when it
    is not torn: all its lines are text, or there is no entry before the first line that is not.  Of a
    torn file the entries before that line are left, and they are written anew.  The run asks for a
    line and reports that a line of the file is not text, if there is one, and nothing else. -/
theorem history_of_idle_run {arguments : List Text}
    (h : CommandLine.invocation arguments = .session true) (path : Text) (content : Bytes) :
    ((interactive path arguments (.present content) []).2 = .present content ↔
      ¬File.Torn content) ∧
    (∀ ts broken rest, Bytes.Cut content (ts.map Bytes.encode ++ broken :: rest) →
      Bytes.decode? broken = none → (∃ e ∈ recorded ts, e ≠ []) →
      (interactive path arguments (.present content) []).2 =
        .ofEntries ((((recorded ts).filter (· ≠ [])).destutter (· ≠ ·)).rtake 100)) ∧
    (interactive path arguments (.present content) []).1 =
      ⟨0, Prompt.question, Prompt.report "load".toList path
        (if ∀ line ∈ Bytes.lines content, (Bytes.decode? line).isSome then none
          else some .notText)⟩ := by
  rw [interactive_of_session h, file_prompt_nil, outcome_prompt_nil]
  refine ⟨⟨?_, ?_⟩, ?_, ?_⟩
  · rintro hsame ⟨ts, broken, rest, hcut, hbroken, hentry⟩
    rw [save_load_of_torn hcut hbroken hentry] at hsame
    exact ofEntries_ne_of_broken hcut hbroken _ hsame
  · exact save_load_of_not_torn
  · intro ts broken rest hcut hbroken hentry
    exact save_load_of_torn hcut hbroken hentry
  · rw [failure_load]

/-- Two equal entries and an empty line stand before the broken line, and one entry behind it. -/
theorem history_of_idle_run_torn :
    let content := Bytes.encode "#V2\n1\n1\n\n".toList ++ 0xc3 :: Bytes.encode "\n2\n".toList
    (interactive "h".toList [] (.present content) []).2 = .present (Bytes.encode "#V2\n1\n".toList) := by
  intro content
  let ts : List Text := [heading, ['1'], ['1'], []]
  have harguments : CommandLine.invocation [] = .session true := rfl
  have hcut : Bytes.Cut content (ts.map Bytes.encode ++ [0xc3] :: [Bytes.encode ['2']]) :=
    Bytes.cut_iff.2 (by decide)
  have hentry : ∃ e ∈ recorded ts, e ≠ [] := ⟨['1'], by decide, by decide⟩
  obtain ⟨-, htorn, -⟩ := history_of_idle_run harguments "h".toList content
  rw [htorn ts [0xc3] [Bytes.encode ['2']] hcut (by decide) hentry]
  decide

/-- A byte that begins no character stands on the second line of three.  Nothing is typed, and in the end
    the third line is lost. -/
theorem history_lost_in_idle_run :
    let content := Bytes.encode "a\n".toList ++ 0xff :: Bytes.encode "\nb\n".toList
    CommandLine.invocation [] = .session true ∧
    (interactive "h".toList [] (.present content) []).2 = .present (Bytes.encode "#V2\na\n".toList) ∧
    (interactive "h".toList [] (.present content) []).2 ≠ .present content := by
  decide

/-! ## From one run to the next -/

/-- **A history survives.**  Take at most 100 entries, none of them empty and none the entry before it
    again; they may hold backslashes, line feeds and the heading itself.  If a history has these entries
    and something was added to it, then at the end of a run they are saved, unless there is no place for
    the file.  A run that starts with that file has nothing to report, and its history has just these
    entries, none of which counts as new.  Only an entry that ends with a carriage return loses it, and
    is then added like any line: not if it is empty or the entry before it again. -/
theorem start_after_stop {es : List Text} (hlength : es.length ≤ 100) (hne : ∀ e ∈ es, e ≠ [])
    (hdistinct : es.IsChain (· ≠ ·)) :
    (∀ store h path file, h.entries = es → h.changed → file ≠ .unreachable →
      Prompt.stop path ⟨store, some h⟩ file = (.ofEntries es, [])) ∧
    ∃ loaded : History,
      (∀ path, Prompt.start path (some (.ofEntries es)) =
        ⟨Prompt.question, [], ⟨∅, some loaded⟩, none⟩) ∧
      loaded.changed = false ∧
      loaded.entries = ((es.map Text.dropReturn).filter (· ≠ [])).destutter (· ≠ ·) ∧
      ((∀ e ∈ es, e.getLast? ≠ some '\r') → loaded.entries = es) := by
  have hentries : (load (.ofEntries es)).1.entries = worthwhile (es.map Text.dropReturn) := by
    refine (recalls_load_ofEntries es).entries_eq_worthwhile ?_
    rw [List.length_map]
    exact hlength
  refine ⟨?_, (load (.ofEntries es)).1, ?_, ?_, hentries, ?_⟩
  · intro store h path file hsame hchanged hfile
    show ((h.save file).1, Prompt.report "save".toList path (h.save file).2) = _
    rw [save_of_changed hchanged hfile, hsame]
    rfl
  · intro path
    have hreport : Prompt.report "load".toList path (load (.ofEntries es)).2 = [] := by
      rw [load_ofEntries]
      rfl
    show Turn.mk Prompt.question (Prompt.report "load".toList path (load (.ofEntries es)).2)
      (Prompt.mk ∅ (some (load (.ofEntries es)).1)) none = _
    rw [hreport]
  · rw [load_ofEntries]
  · intro hreturn
    have hkept : es.map Text.dropReturn = es.map id :=
      List.map_congr_left fun e he => Text.dropReturn_of_getLast?_ne (hreturn e he)
    rw [hentries, hkept, List.map_id, worthwhile_eq_self hne hdistinct]

/-- Among the entries are the heading of the file, one with a line feed behind a backslash, one that is
    nothing but a carriage return, and two that differ in one. -/
theorem start_after_stop_of_returns :
    let es : List Text := ["#V2".toList, "\\\n\\n".toList, "\r".toList, "x\r".toList, "x".toList, "y\r\r".toList]
    Prompt.stop "h".toList ⟨∅, some ⟨es.reverse, true⟩⟩ .absent =
      (.present (Bytes.encode "#V2\n#V2\n\\\\\\n\\\\n\n\r\nx\r\nx\ny\r\r\n".toList), []) ∧
    ∃ loaded : History,
      (Prompt.start "h".toList (some (.ofEntries es))).state.history = some loaded ∧
      loaded.entries = ["#V2".toList, "\\\n\\n".toList, "x".toList, "y\r".toList] := by
  intro es
  obtain ⟨hstop, loaded, hstart, -, hentries, -⟩ :=
    @start_after_stop es (by decide) (by decide) (by decide)
  refine ⟨?_, loaded, ?_, ?_⟩
  · rw [hstop ∅ ⟨es.reverse, true⟩ "h".toList .absent rfl rfl nofun]
    decide
  · rw [hstart]
  · rw [hentries]
    decide

end Calculator.Console
