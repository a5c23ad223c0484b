/-
  What the file of a history says, and what of it is loaded.

  1. `File.ofEntries` — the file that says that a history has these entries.
  2. `File.Holds file L` — the file holds the lines `L`: there is no file and no line, or the lines are
     escaped below the heading, or they stand as they are.  It is said by how the lines are written,
     not by how they are read.  Text that can be read to its end holds some lines (`exists_holds`).
  3. `recorded ts` — what the texts on the lines of a file stand for.  Where a line is not text, those of
     the lines before it are loaded and count as new (`load_of_broken`); otherwise all are, and none
     counts as new (`load_of_texts`).
  4. So the history of a file that holds `L` is the one that the lines `L` leave (`File.Holds.recalls`).
  5. Entries that were saved are loaded again one by one (`load_ofEntries`).  An escaped entry is one line,
     and all that a line loses is a carriage return at its end, which is written as it stands
     (`dropReturn_escape`).
-/
import Calculator.History.File
import Calculator.Proofs.Entries
import Calculator.Proofs.TextLines

namespace Calculator.History

/-! ## Files and their entries -/

/-- The file that says which entries there are. -/
def File.ofEntries (entries : List Text) : File :=
  .present (Bytes.encode (heading.onLine ++ entries.flatMap fun e => (escape e).onLine))

/-- The lines that a file of a history holds. -/
inductive File.Holds : File → List Text → Prop
  /-- There is nothing in a file that is not there. -/
  | absent : Holds .absent []
  /-- The lines stand escaped below the heading. -/
  | headed {content : Bytes} {L : List Text}
      (h : Bytes.Cut content ((heading :: L.map escape).map Bytes.encode)) :
      Holds (.present content) L
  /-- The lines stand as they are, the first of them too, which is not the heading. -/
  | plain {content : Bytes} {L : List Text} (h : Bytes.Cut content (L.map Bytes.encode))
      (hplain : L.head? ≠ some heading) : Holds (.present content) L

/-- The content is text, and below a heading every backslash begins one of the two escapes. -/
def File.Readable (content : Bytes) : Prop :=
  (∃ t, content = Bytes.encode t) ∧
    ∀ ls, Bytes.Cut content (Bytes.encode heading :: ls) →
      ∀ t, Bytes.encode t ∈ ls → (unescape? t).isSome

/-! ## Escapes -/

theorem escape_append (s t : Text) : escape (s ++ t) = escape s ++ escape t := by
  induction s with
  | nil => rfl
  | cons c s ih =>
    rw [List.cons_append]
    by_cases hn : c = '\n'
    · subst hn
      rw [escape, escape, ih]
      rfl
    · by_cases hb : c = '\\'
      · subst hb
        rw [escape, escape, ih]
        rfl
      · rw [escape_cons_of_ne _ hn hb, escape_cons_of_ne _ hn hb, ih]
        rfl

/-- The last character of an escape is no carriage return. -/
theorem exists_escape_singleton (c : Char) :
    ∃ t d, escape [c] = t ++ [d] ∧ (d = '\r' → c = '\r') := by
  by_cases hn : c = '\n'
  · subst hn
    exact ⟨['\\'], 'n', rfl, by decide⟩
  · by_cases hb : c = '\\'
    · subst hb
      exact ⟨['\\'], '\\', rfl, by decide⟩
    · exact ⟨[], c, escape_cons_of_ne [] hn hb, id⟩

/-- No escape ends with a carriage return, and the carriage return has none. -/
theorem dropReturn_escape (e : Text) : (escape e).dropReturn = escape e.dropReturn := by
  rcases List.eq_nil_or_concat e with rfl | ⟨s, c, rfl⟩
  · rfl
  · rw [List.concat_eq_append, escape_append]
    by_cases hc : c = '\r'
    · subst hc
      have hreturn : escape ['\r'] = ['\r'] := rfl
      rw [hreturn, Text.dropReturn_concat, Text.dropReturn_concat]
    · obtain ⟨t, d, hcode, hd⟩ := exists_escape_singleton c
      have hwritten : d ≠ '\r' := fun h => hc (hd h)
      rw [Text.dropReturn_concat_of_ne hc, escape_append, hcode, ← List.append_assoc,
        Text.dropReturn_concat_of_ne hwritten]

/-- On one line, an entry is written in one way. -/
theorem eq_escape_of_unescape? {line e : Text} (h : unescape? line = some e) (hline : '\n' ∉ line) :
    line = escape e := by
  fun_induction unescape? line generalizing e with
  | case1 =>
    cases h
    rfl
  | case2 t ih =>
    obtain ⟨e', he, rfl⟩ := Option.map_eq_some_iff.1 h
    rw [escape, ← ih he fun hmem => hline (List.mem_cons_of_mem _ (List.mem_cons_of_mem _ hmem))]
  | case3 t ih =>
    obtain ⟨e', he, rfl⟩ := Option.map_eq_some_iff.1 h
    rw [escape, ← ih he fun hmem => hline (List.mem_cons_of_mem _ (List.mem_cons_of_mem _ hmem))]
  | case4 => cases h
  | case5 c t hn hb hc ih =>
    obtain ⟨e', he, rfl⟩ := Option.map_eq_some_iff.1 h
    have hbackslash : c ≠ '\\' := by
      rintro rfl
      exact hc rfl
    have hnewline : c ≠ '\n' := by
      rintro rfl
      exact hline (List.mem_cons_self ..)
    rw [escape_cons_of_ne _ hnewline hbackslash,
      ← ih he fun hmem => hline (List.mem_cons_of_mem _ hmem)]

/-- Lines below a heading that can be read are escaped entries. -/
theorem exists_map_escape {ts : List Text} (hread : ∀ t ∈ ts, (unescape? t).isSome)
    (hline : ∀ t ∈ ts, '\n' ∉ t) : ∃ L : List Text, ts = L.map escape := by
  induction ts with
  | nil => exact ⟨[], rfl⟩
  | cons t ts ih =>
    obtain ⟨e, he⟩ := Option.isSome_iff_exists.1 (hread t (List.mem_cons_self ..))
    obtain ⟨L, rfl⟩ := ih (fun u hu => hread u (List.mem_cons_of_mem _ hu))
      fun u hu => hline u (List.mem_cons_of_mem _ hu)
    refine ⟨e :: L, ?_⟩
    rw [List.map_cons, ← eq_escape_of_unescape? he (hline t (List.mem_cons_self ..))]

/-- A file that can be read holds some lines. -/
theorem exists_holds {content : Bytes} (h : File.Readable content) :
    ∃ L, File.Holds (.present content) L := by
  obtain ⟨⟨t, rfl⟩, hescapes⟩ := h
  obtain ⟨ts, hts⟩ := Bytes.exists_lines_encode t
  have hcut : Bytes.Cut (Bytes.encode t) (ts.map Bytes.encode) := Bytes.cut_iff.2 hts.symm
  by_cases hhead : ts.head? = some heading
  · obtain ⟨below, rfl⟩ := List.head?_eq_some_iff.1 hhead
    have hmem : ∀ u ∈ below, Bytes.encode u ∈ below.map Bytes.encode :=
      fun u hu => List.mem_map_of_mem hu
    have hread : ∀ u ∈ below, (unescape? u).isSome := fun u hu => hescapes _ hcut u (hmem u hu)
    have hline : ∀ u ∈ below, '\n' ∉ u := by
      intro u hu
      have hlines : Bytes.encode u ∈ Bytes.lines (Bytes.encode t) := by
        rw [hts]
        exact List.mem_cons_of_mem _ (hmem u hu)
      exact Bytes.newline_notMem_of_encode_mem_lines hlines
    obtain ⟨L, rfl⟩ := exists_map_escape hread hline
    exact ⟨L, .headed hcut⟩
  · exact ⟨ts, .plain hcut hhead⟩

/-! ## Loading -/

/-- What the texts on the lines of a file stand for. -/
def recorded (ts : List Text) : List Text :=
  if ts.head? = some heading then ts.tail.map unescape else ts

theorem recorded_heading (ts : List Text) : recorded (heading :: ts) = ts.map unescape := if_pos rfl

/-- Escaped entries below a heading stand for the entries. -/
theorem recorded_escape (L : List Text) : recorded (heading :: L.map escape) = L := by
  rw [recorded_heading, List.map_map]
  exact List.map_id'' unescape_escape L

theorem recorded_of_head? {ts : List Text} (h : ts.head? ≠ some heading) : recorded ts = ts := if_neg h

theorem addLines_texts (entry : Text → Text) (h : History) (ts : List Text) (rest : List Bytes) :
    addLines entry h (ts.map Bytes.encode ++ rest) =
      addLines entry ((ts.map entry).foldl add h) rest := by
  induction ts generalizing h with
  | nil => rfl
  | cons t ts ih =>
    rw [List.map_cons, List.cons_append, addLines, Bytes.decode?_encode]
    exact ih _

/-- The lines are read up to the first that is not text. -/
theorem addFile_texts (ts : List Text) {rest : List Bytes}
    (hrest : ∀ line ∈ rest.head?, Bytes.decode? line = none) :
    addFile (ts.map Bytes.encode ++ rest) =
      ((recorded ts).foldl add empty, if rest = [] then none else some .notText) := by
  have hstop : ∀ entry h, addLines entry h rest = (h, if rest = [] then none else some .notText) := by
    intro entry h
    cases rest with
    | nil => rfl
    | cons line rest =>
      rw [addLines, hrest line rfl]
      rfl
  cases ts with
  | nil =>
    cases rest with
    | nil => rfl
    | cons line rest =>
      have hheading : Bytes.decode? line ≠ some heading := by
        rw [hrest line rfl]
        nofun
      rw [List.map_nil, List.nil_append, addFile, if_neg hheading]
      exact hstop id empty
  | cons first ts =>
    rw [List.map_cons, List.cons_append, addFile, Bytes.decode?_encode]
    by_cases hfirst : first = heading
    · rw [if_pos (congrArg some hfirst), addLines_texts, hstop, hfirst, recorded_heading]
    · have hhead : (first :: ts).head? ≠ some heading := fun h => hfirst (Option.some.inj h)
      rw [if_neg fun h => hfirst (Option.some.inj h), recorded_of_head? hhead, ← List.cons_append,
        ← List.map_cons, addLines_texts, hstop, List.map_id]

/-- Where all lines are text, all entries are loaded, and none is new. -/
theorem load_of_texts {content : Bytes} {ts : List Text}
    (h : Bytes.lines content = ts.map Bytes.encode) :
    load (.present content) = (⟨((recorded ts).foldl add empty).latest, false⟩, none) := by
  have hfile : addFile (ts.map Bytes.encode ++ []) = _ := addFile_texts ts nofun
  rw [List.append_nil] at hfile
  rw [load, read, h, hfile]
  rfl

/-- Where a line is not text, the entries before it are loaded, and they are new. -/
theorem load_of_broken {content : Bytes} {ts : List Text} {broken : Bytes} {rest : List Bytes}
    (h : Bytes.lines content = ts.map Bytes.encode ++ broken :: rest)
    (hbroken : Bytes.decode? broken = none) :
    load (.present content) = ((recorded ts).foldl add empty, some .notText) := by
  have hrest : ∀ line ∈ (broken :: rest).head?, Bytes.decode? line = none := by
    intro line hline
    cases hline
    exact hbroken
  rw [load, read, h, addFile_texts ts hrest]
  rfl

/-- What is loaded from a file are the entries that its lines leave, and it agrees with the file. -/
theorem File.Holds.recalls {file : File} {L : List Text} (h : file.Holds L) :
    Recalls (load file).1 L ∧ (load file).1.changed = false := by
  have hfresh : ∀ ts : List Text, Recalls ⟨(ts.foldl add empty).latest, false⟩ ts :=
    recalls_empty.foldl_add
  cases h with
  | absent => exact ⟨recalls_empty, rfl⟩
  | headed hcut =>
    rw [load_of_texts (Bytes.cut_iff.1 hcut).symm, recorded_escape]
    exact ⟨hfresh L, rfl⟩
  | plain hcut hplain =>
    rw [load_of_texts (Bytes.cut_iff.1 hcut).symm, recorded_of_head? hplain]
    exact ⟨hfresh L, rfl⟩

/-! ## Saving -/

/-- A history is written to its file if there is a place for it and anything is new. -/
theorem save_of_changed {h : History} (hc : h.changed) {file : File} (hfile : file ≠ .unreachable) :
    h.save file = (.ofEntries h.entries, none) := by
  cases file with
  | unreachable => exact absurd rfl hfile
  | absent => exact if_pos hc
  | present content => exact if_pos hc

/-! ## Loading and saving -/

/-- What was saved is loaded again, except for carriage returns at the ends of entries. -/
theorem load_ofEntries (es : List Text) :
    load (.ofEntries es) = (⟨((es.map Text.dropReturn).foldl add empty).latest, false⟩, none) := by
  have hfile : File.ofEntries es =
      .present (Bytes.encode ((heading :: es.map escape).flatMap Text.onLine)) := by
    rw [File.ofEntries, List.flatMap_cons, List.flatMap_map]
  have hline : ∀ t ∈ heading :: es.map escape, '\n' ∉ t := by
    intro t ht
    rcases List.mem_cons.1 ht with rfl | ht
    · decide
    · obtain ⟨e, -, rfl⟩ := List.mem_map.1 ht
      exact newline_notMem_escape e
  have htexts : (heading :: es.map escape).map Text.dropReturn =
      heading :: (es.map Text.dropReturn).map escape := by
    rw [List.map_cons, List.map_map, List.map_map]
    exact congrArg _ (List.map_congr_left fun e _ => dropReturn_escape e)
  have hlines := Bytes.lines_encode_flatMap_onLine hline
  rw [htexts] at hlines
  rw [hfile, load_of_texts hlines, recorded_escape]

theorem recalls_load_ofEntries (es : List Text) :
    Recalls (load (.ofEntries es)).1 (es.map Text.dropReturn) := by
  rw [load_ofEntries]
  exact recalls_empty.foldl_add (es.map Text.dropReturn)

/-- Some line of the content is not text, and there is an entry on the lines before it. -/
def File.Torn (content : Bytes) : Prop :=
  ∃ ts broken rest, Bytes.Cut content (ts.map Bytes.encode ++ broken :: rest) ∧
    Bytes.decode? broken = none ∧ ∃ e ∈ recorded ts, e ≠ []

/-- Something is wrong with a file just when a line is not text. -/
theorem failure_load (content : Bytes) :
    (load (.present content)).2 =
      if ∀ line ∈ Bytes.lines content, (Bytes.decode? line).isSome then none else some .notText := by
  obtain ⟨ts, rest, hlines, hrest⟩ := Bytes.exists_texts_append (Bytes.lines content)
  cases rest with
  | nil =>
    rw [List.append_nil] at hlines
    have hall : ∀ line ∈ Bytes.lines content, (Bytes.decode? line).isSome := by
      intro line hline
      rw [hlines] at hline
      obtain ⟨t, -, rfl⟩ := List.mem_map.1 hline
      rw [Bytes.decode?_encode]
      rfl
    rw [load_of_texts hlines, if_pos hall]
  | cons broken rest =>
    have hbroken : Bytes.decode? broken = none := hrest broken rfl
    have hnotAll : ¬∀ line ∈ Bytes.lines content, (Bytes.decode? line).isSome := by
      intro hall
      have hsome := hall broken (hlines ▸ List.mem_append_right _ (List.mem_cons_self ..))
      rw [hbroken] at hsome
      cases hsome
    rw [load_of_broken hlines hbroken, if_neg hnotAll]

/-- What is saved can be loaded, so no line of it is broken. -/
theorem ofEntries_ne_of_broken {content : Bytes} {ts : List Text} {broken : Bytes} {rest : List Bytes}
    (hcut : Bytes.Cut content (ts.map Bytes.encode ++ broken :: rest))
    (hbroken : Bytes.decode? broken = none) (entries : List Text) :
    File.ofEntries entries ≠ .present content := by
  intro hsame
  have hwhole : (load (.ofEntries entries)).2 = none := by rw [load_ofEntries]
  rw [hsame, load_of_broken (Bytes.cut_iff.1 hcut).symm hbroken] at hwhole
  cases hwhole

/-- Of a torn file the entries before the first broken line are saved. -/
theorem save_load_of_torn {content : Bytes} {ts : List Text} {broken : Bytes} {rest : List Bytes}
    (hcut : Bytes.Cut content (ts.map Bytes.encode ++ broken :: rest))
    (hbroken : Bytes.decode? broken = none) (hentry : ∃ e ∈ recorded ts, e ≠ []) :
    ((load (.present content)).1.save (.present content)).1 =
      .ofEntries ((worthwhile (recorded ts)).rtake capacity) := by
  have hchanged := (changed_foldl_add_empty (recorded ts)).2 hentry
  have hplace : File.present content ≠ .unreachable := nofun
  rw [load_of_broken (Bytes.cut_iff.1 hcut).symm hbroken, save_of_changed hchanged hplace,
    (recalls_empty.foldl_add (recorded ts)).entries_eq]
  rfl

/-- Any other file is left alone. -/
theorem save_load_of_not_torn {content : Bytes} (h : ¬File.Torn content) :
    ((load (.present content)).1.save (.present content)).1 = .present content := by
  obtain ⟨ts, rest, hlines, hrest⟩ := Bytes.exists_texts_append (Bytes.lines content)
  have hsaved : (load (.present content)).1.changed = false := by
    cases rest with
    | nil =>
      rw [List.append_nil] at hlines
      rw [load_of_texts hlines]
    | cons broken rest =>
      have hbroken : Bytes.decode? broken = none := hrest broken rfl
      rw [load_of_broken hlines hbroken, Bool.eq_false_iff]
      intro hchanged
      exact h ⟨ts, broken, rest, Bytes.cut_iff.2 hlines.symm, hbroken,
        (changed_foldl_add_empty (recorded ts)).1 hchanged⟩
  rw [save_of_not_changed hsaved]

end Calculator.History
