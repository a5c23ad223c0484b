/-
  Dialogues over whole runs: which lines are heard, and what all of them come to.

  1. `Heard store lines ts ending` — of the lines, the session hears the texts `ts`, and then the dialogue
     ends: with the lines, with a line whose reply is `exit` (the last one heard), or with a line that
     is not text.  Errors end nothing.  Every sequence of lines is heard in some way (`exists_heard`),
     and after an end from within there may follow any other lines (`Heard.append`).
  2. `Listener` — a way to read lines that hands every text to a session.  What it says about a text is
     `output` and `complaint` of the result, and a question if there is to be another line.  The log has
     no part in it, since no step has a warning (`warnings_step`).
  3. The turns of all lines are known from the texts that are heard and from the ending
     (`Listener.all_of_heard`), by induction on `Heard`.
  4. The stream and the prompt are listeners to the same texts.  They differ in the question and in what
     they make of a line that is not text, and the prompt has a history beside its session.
-/
import Calculator.Proofs.Reports
import Calculator.Console.Program

namespace Calculator.Console

open Session

/-! ## What is heard -/

/-- How a dialogue ends. -/
inductive Ending
  /-- There are no more lines. -/
  | endOfInput
  /-- The reply to a line was `exit`. -/
  | exit
  /-- A line is not text. -/
  | notText
  deriving DecidableEq, Repr

/-- The texts that a session hears of some lines, and how the dialogue ends. -/
inductive Heard : Store → List Bytes → List Text → Ending → Prop
  | endOfInput {store : Store} : Heard store [] [] .endOfInput
  | notText {store : Store} {line : Bytes} {lines : List Bytes} (h : Bytes.decode? line = none) :
      Heard store (line :: lines) [] .notText
  | exit {store : Store} {line : Bytes} {lines : List Bytes} {t : Text}
      (h : Bytes.decode? line = some t) (hexit : (step store t).result = .ok .exit) :
      Heard store (line :: lines) [t] .exit
  | next {store : Store} {line : Bytes} {lines : List Bytes} {t : Text} {ts : List Text}
      {ending : Ending} (h : Bytes.decode? line = some t) (hgo : (step store t).result ≠ .ok .exit)
      (hrest : Heard (step store t).store lines ts ending) :
      Heard store (line :: lines) (t :: ts) ending

/-- Whatever the lines are, some of them are heard. -/
theorem exists_heard (store : Store) (lines : List Bytes) : ∃ ts ending, Heard store lines ts ending := by
  induction lines generalizing store with
  | nil => exact ⟨[], .endOfInput, .endOfInput⟩
  | cons line lines ih =>
    cases h : Bytes.decode? line with
    | none => exact ⟨[], .notText, .notText h⟩
    | some t =>
      by_cases hexit : (step store t).result = .ok .exit
      · exact ⟨[t], .exit, .exit h hexit⟩
      · obtain ⟨ts, ending, hrest⟩ := ih (step store t).store
        exact ⟨t :: ts, ending, .next h hexit hrest⟩

/-- Lines behind the end of a dialogue are not heard. -/
theorem Heard.append {store : Store} {lines : List Bytes} {ts : List Text} {ending : Ending}
    (h : Heard store lines ts ending) (hended : ending ≠ .endOfInput) (more : List Bytes) :
    Heard store (lines ++ more) ts ending := by
  induction h with
  | endOfInput => exact absurd rfl hended
  | notText h => exact .notText h
  | exit h hexit => exact .exit h hexit
  | next h hgo _ ih => exact .next h hgo (ih hended)

/-- Where all lines are text, a dialogue ends with them or with `exit`. -/
theorem Heard.ending_cases {store : Store} {lines : List Bytes} {ts : List Text} {ending : Ending}
    (h : Heard store lines ts ending) (htext : ∀ line ∈ lines, (Bytes.decode? line).isSome) :
    ending = .endOfInput ∨ ending = .exit := by
  induction h with
  | endOfInput => exact Or.inl rfl
  | notText h =>
    have hsome := htext _ (List.mem_cons_self ..)
    rw [h] at hsome
    exact absurd hsome Bool.false_ne_true
  | exit => exact Or.inr rfl
  | next _ _ _ ih => exact ih fun line hline => htext line (List.mem_cons_of_mem _ hline)

/-! ## What is said -/

/-- What is put out for a result: the text that a reply puts out, if any, on a line of its own. -/
def output : Except Error Reply → Text
  | .ok reply => (reply.output?.map Text.onLine).getD []
  | .error _ => []

/-- What is reported for a result: the message of an error, on a line of its own. -/
def complaint : Except Error Reply → Text
  | .ok _ => []
  | .error e => e.message.onLine

/-- Nothing of the log is put out: no line of a session is warned of. -/
theorem warnings_step (store : Store) (t : Text) : warnings (step store t) = [] := by
  have hnone : (step store t).events.filter (fun ev => ev.level == .warn) = [] :=
    List.filter_eq_nil_iff.2 fun ev hev hwarn =>
      (path_step store t).level_ne_warn hev (beq_iff_eq.1 hwarn)
  rw [warnings, hnone]
  rfl

/-- The turn that a step is depends on the result through what is said, and on whether it is `exit`. -/
theorem ofStep_step (store : Store) (t : Text) :
    Turn.ofStep (step store t) = ⟨output (step store t).result, complaint (step store t).result,
      (step store t).store, if (step store t).result = .ok .exit then some 0 else none⟩ := by
  rw [Turn.ofStep, warnings_step]
  rcases (step store t).result with e | reply
  · rfl
  · cases reply <;> rfl

/-! ## Listeners -/

/-- A way to read lines that hands every text to a session. -/
structure Listener (σ : Type) where
  /-- The turn of one line. -/
  read : σ → Bytes → Turn σ
  /-- The store of the session. -/
  store : σ → Store
  /-- The state after a text. -/
  next : σ → Text → σ
  /-- What is put out behind the output for a text if there is to be another line. -/
  ask : Text
  /-- What is said of a line that is not text, and the exit code then. -/
  notText : Outcome
  store_next : ∀ s t, store (next s t) = (step (store s) t).store
  read_of_text : ∀ {s line t}, Bytes.decode? line = some t →
    read s line = ⟨output (step (store s) t).result ++
        (if (step (store s) t).result = .ok .exit then [] else ask),
      complaint (step (store s) t).result, next s t,
      if (step (store s) t).result = .ok .exit then some 0 else none⟩
  read_of_notText : ∀ {s line}, Bytes.decode? line = none →
    read s line = ⟨notText.out, notText.err, s, some notText.code⟩

namespace Listener

variable {σ : Type} (l : Listener σ)

/-- What is put out for a result: its output, and the question for another line if there is to be one. -/
def put (result : Except Error Reply) : Text :=
  output result ++ if result = .ok .exit then [] else l.ask

/-- What an ending adds to what was said before, and the exit code that it leads to. -/
def last : Ending → Outcome
  | .endOfInput | .exit => ⟨0, [], []⟩
  | .notText => l.notText

/-- The one turn that all lines come to, by the texts that are heard and the ending. -/
def turn (s : σ) (ts : List Text) (ending : Ending) : Turn σ :=
  ⟨(results (l.store s) ts).flatMap l.put ++ (l.last ending).out,
    (results (l.store s) ts).flatMap complaint ++ (l.last ending).err, ts.foldl l.next s,
    if ending = .endOfInput then none else some (l.last ending).code⟩

theorem results_store_cons (s : σ) (t : Text) (ts : List Text) :
    results (l.store s) (t :: ts) =
      (step (l.store s) t).result :: results (l.store (l.next s t)) ts := by
  rw [results_cons, l.store_next]

/-- **What is heard decides.**  By induction on `Heard`: a text that ends nothing adds what is said of it
    to the turn of the others. -/
theorem all_of_heard {s : σ} {lines : List Bytes} {ts : List Text} {ending : Ending}
    (h : Heard (l.store s) lines ts ending) : Turn.all l.read s lines = l.turn s ts ending := by
  generalize hstore : l.store s = store at h
  induction h generalizing s with
  | endOfInput => rfl
  | notText h =>
    rw [Turn.all_of_ended (congrArg Turn.exit? (l.read_of_notText h)), l.read_of_notText h]
    rfl
  | @exit store line lines t h hexit =>
    subst hstore
    have hread := l.read_of_text (s := s) h
    rw [if_pos hexit, if_pos hexit] at hread
    rw [Turn.all_of_ended (congrArg Turn.exit? hread), hread]
    show _ = Turn.mk (l.put (step (l.store s) t).result ++ [] ++ [])
      (complaint (step (l.store s) t).result ++ [] ++ []) (l.next s t) (some 0)
    simp only [put, if_pos hexit, List.append_nil]
  | @next store line lines t ts ending h hgo hrest ih =>
    subst hstore
    have hread := l.read_of_text (s := s) h
    rw [if_neg hgo, if_neg hgo] at hread
    rw [Turn.all, hread, Turn.andThen]
    show Turn.mk _ _ _ _ = _
    simp only [ih (l.store_next s t), turn, results_store_cons, List.flatMap_cons, List.append_assoc,
      List.foldl_cons, put, if_neg hgo]

/-- The questions stand behind the outputs; with the first one in front of all, they stand before
    them. -/
theorem ask_append_flatMap_put {store : Store} {lines : List Bytes} {ts : List Text} {ending : Ending}
    (h : Heard store lines ts ending) :
    l.ask ++ (results store ts).flatMap l.put =
      (results store ts).flatMap (fun result => l.ask ++ output result) ++
        if ending = .exit then [] else l.ask := by
  induction h with
  | endOfInput => exact List.append_nil _
  | notText => exact List.append_nil _
  | exit _ hexit =>
    rw [results_cons, results_nil, List.flatMap_singleton, List.flatMap_singleton, put, if_pos hexit,
      if_pos rfl, List.append_nil, List.append_nil]
  | next _ hgo _ ih =>
    rw [results_cons, List.flatMap_cons, List.flatMap_cons, put, if_neg hgo, List.append_assoc, ih]
    simp only [List.append_assoc]

/-- The exit code is that of the ending. -/
theorem code_turn (s : σ) (ts : List Text) (ending : Ending) :
    (l.turn s ts ending).outcome.code = (l.last ending).code := by
  cases ending <;> rfl

end Listener

/-! ## The two listeners -/

/-- A stream asks for nothing. -/
def Stream.listener : Listener Store where
  read := Stream.read
  store := id
  next store t := (step store t).store
  ask := []
  notText := ⟨1, [], notTextReport⟩
  store_next _ _ := rfl
  read_of_text {s line t} h := by
    rw [Stream.read, h, ite_self, List.append_nil]
    exact ofStep_step s t
  read_of_notText {s line} h := by
    rw [Stream.read, h]

/-- A prompt asks for every line, and its history gets every text. -/
def Prompt.listener : Listener Prompt where
  read := Prompt.read
  store := Prompt.store
  next p t := ⟨(step p.store t).store, p.history.map fun h => h.add t⟩
  ask := Prompt.question
  notText := ⟨0, Prompt.notTextOutput, []⟩
  store_next _ _ := rfl
  read_of_text {p line t} h := by
    rw [Prompt.read, h]
    simp only [ofStep_step]
    by_cases hexit : (step p.store t).result = .ok .exit
    · simp only [if_pos hexit, Option.isSome_some, if_true]
    · simp only [if_neg hexit, Option.isSome_none, Bool.false_eq_true, if_false]
  read_of_notText {p line} h := by
    rw [Prompt.read, h]

/-- The history of a prompt gets the texts one after the other, whatever the session makes of them. -/
theorem Prompt.history_foldl_next (p : Prompt) (ts : List Text) :
    (ts.foldl Prompt.listener.next p).history = p.history.map fun h => ts.foldl History.add h := by
  induction ts generalizing p with
  | nil => simp only [List.foldl_nil, Option.map_id']
  | cons t ts ih =>
    rw [List.foldl_cons, ih]
    show (p.history.map fun h => h.add t).map _ = _
    rw [Option.map_map]
    rfl

end Calculator.Console
