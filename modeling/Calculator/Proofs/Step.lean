/-
  What one line can do, said once.

  1. `Session.Path store t done` — the seven paths that the processing of the line `t` can take, each
     with the condition that leads to it and the whole step that it ends in: the result, the store
     afterwards and the notes.
  2. Every step took one of them (`path_step`), so what is to hold of all steps is looked up path by
     path, and the definition of a step is not opened again.  For a line of a known kind the step is
     given by an equation (`step_of_slash`, `step_of_declares`, `step_of_isExpression`), and for any
     line it is told which notes can come up (`Path.mem_events`, `Expression.mem_resultNotes`).
  3. What every step keeps, a run of any length keeps (`run_preserves`), and every step of a run is the
     step of its line from the store that the lines before it have left (`exists_of_mem_zip_steps`).
     `Session.results` — the results of a run alone, which go on where the lines before have ended
     (`results_append`).
-/
import Calculator.Proofs.Declaration

namespace Calculator

namespace Line

open Text

/-! ## Commands -/

/-- A slash in front makes a line a command. -/
theorem ofText_of_slash {t : Text} (h : t.strip.head? = some '/') : ofText t = .command t.trim := by
  rw [← head?_trim] at h
  obtain ⟨u, hu⟩ := List.head?_eq_some_iff.1 h
  rw [ofText, hu]
  rfl

/-- A line is blank, a command, a declaration or an expression. -/
theorem kind_cases (t : Text) :
    t.strip = [] ∨ t.strip.head? = some '/' ∨ (∃ name value, Declares t name value) ∨
      IsExpression t := by
  by_cases hblank : t.strip = []
  · exact Or.inl hblank
  · by_cases hslash : t.strip.head? = some '/'
    · exact Or.inr (Or.inl hslash)
    · by_cases hequals : '=' ∈ t
      · exact Or.inr (Or.inr (Or.inl (exists_declares hequals hslash)))
      · exact Or.inr (Or.inr (Or.inr
          ((blank_or_isExpression hslash hequals).resolve_left hblank)))

end Line

namespace Expression

/-- Blanks do not count in what is noted down either. -/
theorem resultNotes_congr {s t : Text} (h : s.strip = t.strip) (store : Store) :
    resultNotes store s = resultNotes store t := by
  simp only [resultNotes, h]

/-- All that an expression can have noted down: how its text is normalized, its postorder if it has one,
    and what is left on the stack below the last value. -/
theorem mem_resultNotes {store : Store} {t : Text} {ev : Event} (h : ev ∈ resultNotes store t) :
    isWellShaped t.strip ∧ (ev = .normalized t.strip t.strip.normalize ∨
      ∃ tokens, postorder t.strip = .ok tokens ∧ (ev = .postorder tokens ∨
        surplus store tokens ≠ [] ∧ ev = .surplus (surplus store tokens))) := by
  rw [resultNotes] at h
  split at h
  case isFalse => cases h
  case isTrue hshape =>
    refine ⟨hshape, ?_⟩
    rcases List.mem_cons.1 h with heq | h
    · exact Or.inl heq
    · cases hpost : postorder t.strip with
      | error e =>
        rw [hpost] at h
        cases h
      | ok tokens =>
        rw [hpost] at h
        refine Or.inr ⟨tokens, rfl, ?_⟩
        rcases List.mem_cons.1 h with heq | h
        · exact Or.inl heq
        · cases hsurplus : surplus store tokens with
          | nil =>
            rw [surplusNotes, hsurplus] at h
            cases h
          | cons n ns =>
            rw [surplusNotes, hsurplus] at h
            exact Or.inr ⟨List.cons_ne_nil n ns, List.mem_singleton.1 h⟩

end Expression

namespace Session

open Text Line

/-! ## Paths -/

/-- The paths that the processing of a line can take, each with the step that it ends in. -/
inductive Path (store : Store) (t : Text) : Step → Prop
  | blank (h : t.strip = []) : Path store t ⟨.ok .silent, store, []⟩
  | command {c : Command} (h : t.trim = c.text) :
      Path store t ⟨.ok c.reply, store, [.command t.trim]⟩
  | unknownCommand (hslash : t.strip.head? = some '/') (h : ∀ c : Command, t.trim ≠ c.text) :
      Path store t ⟨.error (.unknownCommand t.trim), store, [.command t.trim]⟩
  | misnamed {name value : Text} (h : Declares t name value) (hname : name.strip.isName = false) :
      Path store t ⟨.error (.invalidName name.strip), store, [.declaration t.trim]⟩
  | refused {name value : Text} {e : Error} (h : Declares t name value) (hname : name.strip.isName)
      (he : Assigned store value.strip (.error e)) :
      Path store t ⟨.error e, store, [.declaration t.trim]⟩
  | defined {name value : Text} {n : Int} (h : Declares t name value) (hname : name.strip.isName)
      (hn : Assigned store value.strip (.ok n)) :
      Path store t
        ⟨.ok .silent, store.define name.strip n, [.declaration t.trim, .define name.strip n]⟩
  | expression (h : IsExpression t) :
      Path store t ⟨(Expression.result store t).map .value, store,
        .expression t.trim :: Expression.resultNotes store t⟩

/-! ## Steps by the kind of the line -/

/-- A step is what its line does, with a note on what the line was taken for. -/
theorem step_eq (store : Store) (t : Text) :
    step store t = ⟨(perform store (ofText t)).result, (perform store (ofText t)).store,
      (ofText t).notes ++ (perform store (ofText t)).events⟩ := rfl

/-- A blank line does nothing. -/
theorem step_of_strip_eq_nil {t : Text} (h : t.strip = []) (store : Store) :
    step store t = ⟨.ok .silent, store, []⟩ := by
  rw [step_eq, ofText_of_strip_eq_nil h]
  rfl

theorem step_of_slash {t : Text} (h : t.strip.head? = some '/') (store : Store) :
    step store t = ⟨(obey store t.trim).result, (obey store t.trim).store,
      .command t.trim :: (obey store t.trim).events⟩ := by
  rw [step_eq, ofText_of_slash h]
  rfl

/-- The blanks at the ends of an expression are dropped with all others. -/
theorem step_of_isExpression {t : Text} (h : IsExpression t) (store : Store) :
    step store t = ⟨(Expression.result store t).map .value, store,
      .expression t.trim :: Expression.resultNotes store t⟩ := by
  have hstrip := strip_trim t
  rw [step_eq, ofText_of_isExpression h, ← Expression.result_congr hstrip,
    ← Expression.resultNotes_congr hstrip]
  rfl

/-- The two sides of a declaration are stripped, so the blanks at the ends of the line are gone either
    way. -/
theorem step_of_declares {t name value : Text} (h : Declares t name value) (store : Store) :
    step store t = ⟨(declare store name value).result, (declare store name value).store,
      .declaration t.trim :: (declare store name value).events⟩ := by
  have hnotes : (ofText t).notes = [.declaration t.trim] := by
    rw [← text_ofText t, ofText_of_declares h]
    rfl
  have hperform : perform store (ofText t) = declare store name value := by
    rw [ofText_of_declares h]
    show declare store (name.dropWhile isBlank) value.trimEnd = _
    simp only [declare, strip_dropWhile, strip_trimEnd]
  rw [step_eq, hperform, hnotes]
  rfl

/-- A declaration with a name on its left and a value on its right succeeds. -/
theorem step_of_assigned {t name value : Text} (h : Declares t name value) (hname : name.strip.isName)
    {store : Store} {n : Int} (hn : Assigned store value.strip (.ok n)) :
    step store t =
      ⟨.ok .silent, store.define name.strip n, [.declaration t.trim, .define name.strip n]⟩ := by
  rw [step_of_declares h, declare, binding, if_pos hname, assigned_iff.1 hn]
  rfl

/-! ## Every step takes a path -/

theorem path_of_slash {t : Text} (h : t.strip.head? = some '/') (store : Store) :
    Path store t (step store t) := by
  rw [step_of_slash h, obey]
  cases hc : Command.ofText? t.trim with
  | some c => exact .command (Command.ofText?_eq_some_iff.1 hc)
  | none =>
    refine .unknownCommand h fun c heq => ?_
    rw [Command.ofText?_eq_some_iff.2 heq] at hc
    cases hc

theorem path_of_declares {t name value : Text} (h : Declares t name value) (store : Store) :
    Path store t (step store t) := by
  rw [step_of_declares h, declare, binding]
  cases hname : name.strip.isName with
  | false => exact .misnamed h hname
  | true =>
    rw [if_pos rfl]
    cases hvalue : declaredValue store value.strip with
    | error e => exact .refused h hname (assigned_iff.2 hvalue)
    | ok n => exact .defined h hname (assigned_iff.2 hvalue)

/-- **Every step takes one of the paths.** -/
theorem path_step (store : Store) (t : Text) : Path store t (step store t) := by
  rcases kind_cases t with hblank | hslash | ⟨name, value, h⟩ | h
  · rw [step_of_strip_eq_nil hblank]
    exact .blank hblank
  · exact path_of_slash hslash store
  · exact path_of_declares h store
  · rw [step_of_isExpression h]
    exact .expression h

/-- All that a step can have noted down: what the line was taken for, one definition, and what an
    expression has noted down. -/
theorem Path.mem_events {store : Store} {t : Text} {done : Step} (h : Path store t done) {ev : Event}
    (hev : ev ∈ done.events) :
    ev = .command t.trim ∨ ev = .declaration t.trim ∨ ev = .expression t.trim ∨
      (∃ x n, ev = .define x n) ∨ ev ∈ Expression.resultNotes store t := by
  cases h with
  | blank => cases hev
  | command | unknownCommand => exact Or.inl (List.mem_singleton.1 hev)
  | misnamed | refused => exact Or.inr (Or.inl (List.mem_singleton.1 hev))
  | defined =>
    rcases List.mem_cons.1 hev with heq | hev
    · exact Or.inr (Or.inl heq)
    · exact Or.inr (Or.inr (Or.inr (Or.inl ⟨_, _, List.mem_singleton.1 hev⟩)))
  | expression =>
    rcases List.mem_cons.1 hev with heq | hev
    · exact Or.inr (Or.inr (Or.inl heq))
    · exact Or.inr (Or.inr (Or.inr (Or.inr hev)))

/-! ## Runs -/

/-- What every step keeps, every run keeps. -/
theorem run_preserves {P : Store → Prop} (hstep : ∀ store t, P store → P (step store t).store)
    {store : Store} (h : P store) (ts : List Text) : P (run store ts) := by
  induction ts generalizing store with
  | nil => exact h
  | cons t ts ih => exact ih (hstep store t h)

/-- Every step of a run is that of its line, from the store that the lines before it have left. -/
theorem exists_of_mem_zip_steps {store : Store} {ts : List Text} {t : Text} {done : Step}
    (h : (t, done) ∈ ts.zip (steps store ts)) :
    ∃ before after, ts = before ++ t :: after ∧ done = step (run store before) t := by
  induction ts generalizing store with
  | nil => cases h
  | cons u ts ih =>
    rw [steps, List.zip_cons_cons] at h
    rcases List.mem_cons.1 h with heq | h
    · cases heq
      exact ⟨[], ts, rfl, rfl⟩
    · obtain ⟨before, after, rfl, hdone⟩ := ih h
      exact ⟨u :: before, after, rfl, hdone⟩

/-- The results of some lines, processed one after the other. -/
def results (store : Store) (ts : List Text) : List (Except Error Reply) :=
  (steps store ts).map Step.result

@[simp] theorem results_nil (store : Store) : results store [] = [] := rfl

@[simp] theorem results_cons (store : Store) (t : Text) (ts : List Text) :
    results store (t :: ts) = (step store t).result :: results (step store t).store ts := rfl

theorem results_append (store : Store) (ts us : List Text) :
    results store (ts ++ us) = results store ts ++ results (run store ts) us := by
  induction ts generalizing store with
  | nil => rfl
  | cons t ts ih => rw [List.cons_append, results_cons, ih, results_cons]; rfl

end Session

end Calculator
