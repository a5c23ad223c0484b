/-
  The log of a session, read as the history of its store.

  1. `LogEntry` — what a log keeps of an event: its level and its words.  `LogEntry.definition?` reads
     an entry of level debug that says `define NAME = VALUE`.  Any text may stand for the name and any
     integer literal for the value, so as much as possible is read (`definition?_eq_some_iff`).
  2. The entry of an event reads as the definition that the event announces, and as none if it
     announces none (`definition?_entry`).  The other entries repeat what was typed, but behind words
     of their own: they do not even begin with `define` (`prefix_message_iff`).
  3. **Steps** — a declaration that succeeds has one definition in its log, which is the one that it
     makes.  No other line has any (`Path.bindings_cases`).
  4. **Runs** — so the definitions of a log, made one after the other, lead to the store of the session
     (`foldl_definitions_log`), and they do so after every line (`Session.replay_log`).
-/
import Calculator.Proofs.Frame

namespace Calculator

/-! ## Entries of a log -/

/-- What a log keeps of an event. -/
structure LogEntry where
  level : Event.Level
  message : Text
  deriving DecidableEq, Repr

/-- The entry of an event. -/
def Event.entry (ev : Event) : LogEntry := ⟨ev.level, ev.message⟩

/-- The entries of a step, in order. -/
def Step.log (done : Step) : List LogEntry := done.events.map Event.entry

namespace LogEntry

open Decimal

/-- The name and the value that stand on the two sides of an equals sign between blanks. -/
def assignment? : Text → Option (Text × Int)
  | [] => none
  | c :: t =>
    match (" = ".toList.isPrefixOf? (c :: t)).bind integer? with
    | some n => some ([], n)
    | none => (assignment? t).map (Prod.map (c :: ·) id)

/-- The definition that an entry of a log reads as. -/
def definition? (e : LogEntry) : Option (Text × Int) :=
  if e.level = .debug then ("define ".toList.isPrefixOf? e.message).bind assignment? else none

end LogEntry

/-! ## Reading assignments -/

/-- There is no equals sign in an integer. -/
theorem Decimal.Literal.equals_notMem {v : Text} {n : Int} (h : Literal v n) : '=' ∉ v := by
  have hdigits : ∀ {t : Text}, Text.IsDigits t → '=' ∉ t := fun ht hmem =>
    absurd (ht.2 '=' hmem) (by decide)
  cases h with
  | natural h => exact hdigits h
  | negative h => exact List.not_mem_cons_of_ne_of_not_mem (by decide) (hdigits h)

namespace LogEntry

open Decimal

/-- Before the equals sign in front of the value there is none with an integer behind it. -/
theorem bind_integer?_eq_none (c : Char) (x v : Text) :
    (" = ".toList.isPrefixOf? (c :: x ++ " = ".toList ++ v)).bind integer? = none := by
  rw [Option.bind_eq_none_iff]
  intro u hu
  rw [integer?_eq_none_iff]
  intro m hm
  have htext : [' '] ++ '=' :: ' ' :: u = (c :: x ++ [' ']) ++ '=' :: ' ' :: v := by
    have happend := List.isPrefixOf?_eq_some_iff_append_eq.1 hu
    rw [List.append_assoc] at happend ⊢
    exact happend
  have hu' : '=' ∉ ' ' :: u := List.not_mem_cons_of_ne_of_not_mem (by decide) hm.equals_notMem
  obtain ⟨hx, -⟩ := (List.append_cons_inj_of_notMem (by decide) hu').1 htext
  have hlength := congrArg List.length hx
  simp at hlength

theorem assignment?_append {v : Text} {n : Int} (hv : Literal v n) (x : Text) :
    assignment? (x ++ " = ".toList ++ v) = some (x, n) := by
  induction x with
  | nil =>
    show (match (some v).bind integer? with | some n => _ | none => _) = _
    rw [Option.bind_some, integer?_eq_some_iff.2 hv]
  | cons c x ih =>
    show (match (" = ".toList.isPrefixOf? (c :: x ++ " = ".toList ++ v)).bind integer? with
      | some n => _ | none => _) = _
    rw [bind_integer?_eq_none]
    show (assignment? (x ++ " = ".toList ++ v)).map _ = _
    rw [ih]
    rfl

/-- Any text may stand to the left of the equals sign, an integer must stand to the right of it. -/
theorem assignment?_eq_some_iff {t x : Text} {n : Int} :
    assignment? t = some (x, n) ↔ ∃ v, Literal v n ∧ t = x ++ " = ".toList ++ v := by
  constructor
  · intro h
    induction t generalizing x with
    | nil => cases h
    | cons c t ih =>
      rw [assignment?] at h
      split at h
      · rename_i m hm
        cases h
        obtain ⟨v, hv, hn⟩ := Option.bind_eq_some_iff.1 hm
        exact ⟨v, integer?_eq_some_iff.1 hn, (List.isPrefixOf?_eq_some_iff_append_eq.1 hv).symm⟩
      · obtain ⟨⟨y, m⟩, hassignment, heq⟩ := Option.map_eq_some_iff.1 h
        cases heq
        obtain ⟨v, hv, rfl⟩ := ih hassignment
        exact ⟨v, hv, rfl⟩
  · rintro ⟨v, hv, rfl⟩
    exact assignment?_append hv x

/-- The entries that read as definitions: those of level debug of the form `define NAME = VALUE`. -/
theorem definition?_eq_some_iff {e : LogEntry} {x : Text} {n : Int} :
    definition? e = some (x, n) ↔
      e.level = .debug ∧
        ∃ v, Literal v n ∧ e.message = "define ".toList ++ (x ++ " = ".toList ++ v) := by
  rw [definition?]
  split
  · rename_i hlevel
    rw [Option.bind_eq_some_iff]
    constructor
    · rintro ⟨t, ht, hassignment⟩
      obtain ⟨v, hv, rfl⟩ := assignment?_eq_some_iff.1 hassignment
      exact ⟨hlevel, v, hv, (List.isPrefixOf?_eq_some_iff_append_eq.1 ht).symm⟩
    · rintro ⟨-, v, hv, hmessage⟩
      exact ⟨_, List.isPrefixOf?_eq_some_iff_append_eq.2 hmessage.symm,
        assignment?_eq_some_iff.2 ⟨v, hv, rfl⟩⟩
  · rename_i hlevel
    exact iff_of_false (by simp) (fun h => hlevel h.1)

end LogEntry

/-! ## Reading what was written -/

namespace Event

/-- The binding that an event announces. -/
def binding? : Event → Option (Text × Int)
  | .define name value => some (name, value)
  | _ => none

/-- The other events begin with words of their own, and three letters tell them apart. -/
theorem take_message_ne {ev : Event} (h : ev.binding? = none) : ev.message.take 3 ≠ "def".toList := by
  cases ev with
  | define => cases h
  | command => exact (by decide : "com".toList ≠ "def".toList)
  | declaration => exact (by decide : "dec".toList ≠ "def".toList)
  | expression => exact (by decide : "exp".toList ≠ "def".toList)
  | normalized => exact (by decide : "nor".toList ≠ "def".toList)
  | postorder => exact (by decide : "pos".toList ≠ "def".toList)
  | surplus => exact (by decide : "eva".toList ≠ "def".toList)

/-- Only definitions begin as definitions do, whatever text the other events repeat. -/
theorem prefix_message_iff {ev : Event} :
    "define ".toList <+: ev.message ↔ ∃ x n, ev = .define x n := by
  constructor
  · rintro ⟨t, ht⟩
    cases hbinding : ev.binding? with
    | none =>
      have hbegins : ev.message.take 3 = "def".toList := by
        rw [← ht]
        rfl
      exact absurd hbegins (take_message_ne hbinding)
    | some d =>
      cases ev <;> cases hbinding
      exact ⟨_, _, rfl⟩
  · rintro ⟨x, n, rfl⟩
    refine ⟨x ++ " = ".toList ++ Decimal.text n, ?_⟩
    show _ = "define ".toList ++ x ++ " = ".toList ++ Decimal.text n
    simp only [List.append_assoc]

end Event

/-- **What is written is read again**, and nothing else is read. -/
theorem LogEntry.definition?_entry (ev : Event) : definition? ev.entry = ev.binding? := by
  cases hbinding : ev.binding? with
  | some d =>
    obtain ⟨x, n⟩ := d
    cases ev <;> cases hbinding
    refine definition?_eq_some_iff.2
      ⟨rfl, Decimal.text n, Decimal.integer?_eq_some_iff.1 (Decimal.integer?_text n), ?_⟩
    show "define ".toList ++ x ++ " = ".toList ++ Decimal.text n = _
    simp only [List.append_assoc]
  | none =>
    rw [Option.eq_none_iff_forall_ne_some]
    rintro ⟨x, n⟩ hread
    obtain ⟨-, v, -, hmessage⟩ := definition?_eq_some_iff.1 hread
    have hbegins : "define ".toList <+: ev.message := ⟨_, hmessage.symm⟩
    obtain ⟨y, m, rfl⟩ := Event.prefix_message_iff.1 hbegins
    cases hbinding

namespace Session

open Line LogEntry

/-! ## One line -/

/-- The definitions that the log of a step reads as. -/
theorem filterMap_definition?_log (done : Step) :
    done.log.filterMap definition? = done.events.filterMap Event.binding? := by
  rw [Step.log, List.filterMap_map]
  congr 1
  funext ev
  exact definition?_entry ev

/-- The evaluation of an expression defines nothing. -/
theorem filterMap_binding?_resultNotes (store : Store) (t : Text) :
    (Expression.resultNotes store t).filterMap Event.binding? = [] := by
  rw [List.filterMap_eq_nil_iff]
  intro ev hev
  obtain ⟨-, rfl | ⟨tokens, -, rfl | ⟨-, rfl⟩⟩⟩ := Expression.mem_resultNotes hev
  · rfl
  · rfl
  · rfl

/-- A declaration that succeeds announces its one binding; all other lines announce none. -/
theorem Path.bindings_cases {store : Store} {t : Text} {done : Step} (h : Path store t done) :
    (done.events.filterMap Event.binding? = [] ∧ done.store = store ∧
      ((∀ name value, ¬ Declares t name value) ∨ done.result ≠ .ok .silent)) ∨
    ∃ name value n, Declares t name value ∧ done.result = .ok .silent ∧
      done.events.filterMap Event.binding? = [(name.strip, n)] ∧
      done.store = store.define name.strip n := by
  cases h with
  | blank hblank =>
    refine Or.inl ⟨rfl, rfl, Or.inl fun name value hdeclares => ?_⟩
    rw [hdeclares.strip_eq] at hblank
    exact absurd hblank (by simp)
  | @command c => exact Or.inl ⟨rfl, rfl, Or.inr (by cases c <;> exact nofun)⟩
  | unknownCommand | misnamed | refused => exact Or.inl ⟨rfl, rfl, Or.inr nofun⟩
  | defined h hname hn => exact Or.inr ⟨_, _, _, h, rfl, rfl, rfl⟩
  | expression h =>
    refine Or.inl ⟨filterMap_binding?_resultNotes store t, rfl, Or.inr fun hsilent => ?_⟩
    obtain ⟨n, -, hn⟩ := Result.map_eq_ok_iff.1 hsilent
    cases hn

/-- The log of a declaration that succeeds has one definition, and the step makes it. -/
theorem definitions_step_of_silent {store : Store} {t name value : Text}
    (hdeclares : Declares t name value) (hsilent : (step store t).result = .ok .silent) :
    ∃ n, (step store t).log.filterMap definition? = [(name.strip, n)] ∧
      (step store t).store.get? name.strip = some n := by
  rw [filterMap_definition?_log]
  rcases (path_step store t).bindings_cases with
    ⟨-, -, hnone | hloud⟩ | ⟨name', value', n, hdeclares', -, hone, hdefine⟩
  · exact absurd hdeclares (hnone name value)
  · exact absurd hsilent hloud
  · obtain ⟨rfl, rfl⟩ := hdeclares.unique hdeclares'
    exact ⟨n, hone, by rw [hdefine, Store.get?_define_self]⟩

/-- The log of a line that is no declaration, or of one that fails, has none. -/
theorem definitions_step_of_other {store : Store} {t : Text}
    (h : (∀ name value, ¬ Declares t name value) ∨ (step store t).result ≠ .ok .silent) :
    (step store t).log.filterMap definition? = [] := by
  rw [filterMap_definition?_log]
  rcases (path_step store t).bindings_cases with
    ⟨hnone, -, -⟩ | ⟨name, value, n, hdeclares, hsilent, -, -⟩
  · exact hnone
  · rcases h with hnot | hloud
    · exact absurd hdeclares (hnot name value)
    · exact absurd hsilent hloud

/-- The definitions in the log of a step change the store as the step does. -/
theorem foldl_definitions_step (store : Store) (t : Text) :
    ((step store t).log.filterMap definition?).foldl (fun s d => s.define d.1 d.2) store =
      (step store t).store := by
  rw [filterMap_definition?_log]
  rcases (path_step store t).bindings_cases with
    ⟨hnone, hsame, -⟩ | ⟨name, value, n, -, -, hone, hdefine⟩
  · rw [hnone, hsame]
    rfl
  · rw [hone, hdefine]
    rfl

/-! ## Many lines -/

/-- The entries of many steps, in order. -/
def log (dones : List Step) : List LogEntry := dones.flatMap Step.log

/-- The store that a log tells of: what it defines, defined in an empty store. -/
def replay (entries : List LogEntry) : Store := Store.ofList (entries.filterMap definition?)

theorem take_steps (store : Store) (ts : List Text) (k : Nat) :
    (steps store ts).take k = steps store (ts.take k) := by
  induction ts generalizing store k with
  | nil => rw [List.take_nil, steps, List.take_nil]
  | cons t ts ih =>
    cases k with
    | zero => rfl
    | succ k => rw [steps, List.take_succ_cons, ih, List.take_succ_cons, steps]

/-- By induction the definitions in the log of a run change the store as the run does. -/
theorem foldl_definitions_log (store : Store) (ts : List Text) :
    ((log (steps store ts)).filterMap definition?).foldl (fun s d => s.define d.1 d.2) store =
      run store ts := by
  induction ts generalizing store with
  | nil => rfl
  | cons t ts ih =>
    have hlog : log (steps store (t :: ts)) =
      (step store t).log ++ log (steps (step store t).store ts) := rfl
    rw [hlog, List.filterMap_append, List.foldl_append, foldl_definitions_step, ih, run_cons]

/-- **Replay.**  After every line of a fresh session, the definitions that its log reads as, made in an
    empty store, give the store of the session.  A declaration that succeeds has exactly one of them in
    its log, the one that binds its name; no other line has any; and no event that is not a definition
    begins like one. -/
theorem replay_log (ts : List Text) :
    (∀ k, replay (log ((steps ∅ ts).take k)) = run ∅ (ts.take k)) ∧
    ∀ t done, (t, done) ∈ ts.zip (steps ∅ ts) →
      (∀ name value, Declares t name value → done.result = .ok .silent →
        ∃ n, done.log.filterMap definition? = [(name.strip, n)] ∧
          done.store.get? name.strip = some n) ∧
      ((∀ name value, ¬ Declares t name value) ∨ done.result ≠ .ok .silent →
        done.log.filterMap definition? = []) ∧
      ∀ ev ∈ done.events, "define ".toList <+: ev.message → ∃ x n, ev = .define x n := by
  refine ⟨fun k => ?_, fun t done hmem => ?_⟩
  · rw [take_steps]
    exact foldl_definitions_log ∅ (ts.take k)
  · obtain ⟨before, -, -, rfl⟩ := exists_of_mem_zip_steps hmem
    exact ⟨fun name value hdeclares hsilent => definitions_step_of_silent hdeclares hsilent,
      definitions_step_of_other, fun ev _ h => Event.prefix_message_iff.1 h⟩

/-- A line that looks like a definition in the log is none: it declares `definea`, and that is what the
    log says.  A line that fails has no definition in its log. -/
theorem replay_log_of_imitation :
    let ts := ["define a = 07".toList, "define a = b".toList]
    replay (log (steps ∅ ts)) = run ∅ ts ∧
      (step ∅ "define a = 07".toList).log.filterMap definition? = [("definea".toList, 7)] ∧
      (step (run ∅ (ts.take 1)) "define a = b".toList).log.filterMap definition? = [] := by
  intro ts
  obtain ⟨hreplay, hlines⟩ := replay_log ts
  refine ⟨hreplay 2, ?_, (hlines _ _ (.tail _ (.head _))).2.1 (Or.inr (by decide))⟩
  have hline : Declares "define a = 07".toList "define a ".toList " 07".toList :=
    ⟨rfl, by decide, by decide⟩
  obtain ⟨n, hone, hn⟩ := (hlines _ _ (.head _)).1 _ _ hline (by decide)
  have hseven : (step ∅ "define a = 07".toList).store.get? (Text.strip "define a ".toList) = some 7 := by
    decide
  rw [hseven] at hn
  cases hn
  exact hone

end Session

end Calculator
