/-
  What a line may change, and what it must leave alone.

  1. **Steps** — the store is changed by a declaration that succeeds and by nothing else, and then at
     the name of the declaration only (`Path.store_cases`).
  2. **Runs** — so bindings are never lost (`isSome_get?_run`), every line adds one variable at most
     (`size_run_le`), and what no line declares keeps its value (`get?_run_of_not_declared`).
  3. A declaration takes the present value of its right side and not a reference to it: a variable
     that was copied from another is not changed with it (`Session.step_frame`).
-/
import Calculator.Proofs.Step
import Calculator.Proofs.Result

namespace Calculator

namespace Store

theorem size_le_size_define (s : Store) (name : Text) (value : Int) :
    s.size ≤ (s.define name value).size := by
  rw [size_define]
  split <;> omega

theorem size_define_le (s : Store) (name : Text) (value : Int) :
    (s.define name value).size ≤ s.size + 1 := by
  rw [size_define]
  split <;> omega

end Store

namespace Session

open Line

/-! ## One line -/

namespace Path

variable {store : Store} {t : Text} {done : Step}

/-- A step leaves the store as it was, unless its line is a declaration that succeeds: then it binds
    the name of the declaration to what was assigned to it. -/
theorem store_cases (h : Path store t done) :
    done.store = store ∨
      ∃ name value n, Declares t name value ∧ name.strip.isName ∧
        Assigned store value.strip (.ok n) ∧ done.store = store.define name.strip n := by
  cases h with
  | blank | command | unknownCommand | misnamed | refused | expression => exact Or.inl rfl
  | defined h hname hn => exact Or.inr ⟨_, _, _, h, hname, hn, rfl⟩

theorem store_of_error (h : Path store t done) {e : Error} (he : done.result = .error e) :
    done.store = store := by
  cases h with
  | blank | command | unknownCommand | misnamed | refused | expression => rfl
  | defined => cases he

/-- Nothing is said when the store changes. -/
theorem store_of_ok (h : Path store t done) {r : Reply} (hr : done.result = .ok r)
    (hne : r ≠ .silent) : done.store = store := by
  cases h with
  | blank | command | unknownCommand | misnamed | refused | expression => rfl
  | defined =>
    cases hr
    exact absurd rfl hne

/-- Nothing is said only to a blank line and to a declaration that succeeds. -/
theorem cases_of_silent (h : Path store t done) (hsilent : done.result = .ok .silent) :
    (t.strip = [] ∧ done.store = store) ∨
      ∃ name value n, Declares t name value ∧ name.strip.isName ∧
        Assigned store value.strip (.ok n) ∧ done.store = store.define name.strip n := by
  cases h with
  | blank hblank => exact Or.inl ⟨hblank, rfl⟩
  | @command c => cases c <;> cases hsilent
  | unknownCommand | misnamed | refused => cases hsilent
  | defined h hname hn => exact Or.inr ⟨_, _, _, h, hname, hn, rfl⟩
  | expression =>
    obtain ⟨n, -, hn⟩ := Result.map_eq_ok_iff.1 hsilent
    cases hn

/-- A declaration to which nothing is said has bound its name, for it is not blank. -/
theorem defined_of_silent (h : Path store t done) (hsilent : done.result = .ok .silent)
    {name value : Text} (hdeclares : Declares t name value) :
    ∃ n, name.strip.isName ∧ Assigned store value.strip (.ok n) ∧
      done.store = store.define name.strip n := by
  rcases h.cases_of_silent hsilent with ⟨hblank, -⟩ | ⟨name', value', n, hdeclares', hdefined⟩
  · rw [hdeclares.strip_eq] at hblank
    exact absurd hblank (by simp)
  · obtain ⟨rfl, rfl⟩ := hdeclares.unique hdeclares'
    exact ⟨n, hdefined⟩

end Path

theorem isSome_get?_step {store : Store} {x : Text} (h : (store.get? x).isSome) (t : Text) :
    ((step store t).store.get? x).isSome := by
  rcases (path_step store t).store_cases with hsame | ⟨name, value, n, -, -, -, hdefine⟩
  · rwa [hsame]
  · rw [hdefine, Store.get?_define]
    split
    · rfl
    · exact h

theorem size_le_size_step (store : Store) (t : Text) : store.size ≤ (step store t).store.size := by
  rcases (path_step store t).store_cases with hsame | ⟨name, value, n, -, -, -, hdefine⟩
  · rw [hsame]
  · rw [hdefine]
    exact store.size_le_size_define _ n

theorem size_step_le (store : Store) (t : Text) : (step store t).store.size ≤ store.size + 1 := by
  rcases (path_step store t).store_cases with hsame | ⟨name, value, n, -, -, -, hdefine⟩
  · rw [hsame]
    omega
  · rw [hdefine]
    exact store.size_define_le _ n

/-- A line that is no declaration of a name leaves the name alone. -/
theorem get?_step_of_not_declared {t x : Text} (h : ¬ IsDeclarationOf t x) (store : Store) :
    (step store t).store.get? x = store.get? x := by
  rcases (path_step store t).store_cases with hsame | ⟨name, value, n, hdeclares, -, -, hdefine⟩
  · rw [hsame]
  · have hne : x ≠ name.strip := fun heq => h ⟨name, value, hdeclares, heq.symm⟩
    rw [hdefine, Store.get?_define_of_ne _ _ hne]

/-! ## Many lines -/

/-- No binding is ever lost. -/
theorem isSome_get?_run {store : Store} {x : Text} (h : (store.get? x).isSome) (ts : List Text) :
    ((run store ts).get? x).isSome :=
  run_preserves (P := fun s => (s.get? x).isSome) (fun _ t hs => isSome_get?_step hs t) h ts

theorem size_le_size_run (store : Store) (ts : List Text) : store.size ≤ (run store ts).size := by
  refine run_preserves (P := fun s => store.size ≤ s.size) (fun s t hs => ?_) (Nat.le_refl _) ts
  have := size_le_size_step s t
  omega

/-- Every line adds one variable at most. -/
theorem size_run_le (store : Store) (ts : List Text) :
    (run store ts).size ≤ store.size + ts.length := by
  induction ts generalizing store with
  | nil => exact Nat.le_refl _
  | cons t ts ih =>
    have hstep := size_step_le store t
    have hrest := ih (step store t).store
    rw [run_cons, List.length_cons]
    omega

/-- What no line declares keeps its value. -/
theorem get?_run_of_not_declared {ts : List Text} {x : Text} (h : ∀ t ∈ ts, ¬ IsDeclarationOf t x)
    (store : Store) : (run store ts).get? x = store.get? x := by
  induction ts generalizing store with
  | nil => rfl
  | cons t ts ih =>
    have hstep := get?_step_of_not_declared (h t (List.mem_cons_self ..)) store
    have hrest := ih (fun u hu => h u (List.mem_cons_of_mem t hu)) (step store t).store
    rw [run_cons, hrest, hstep]

/-- A variable that was copied from another has the value of the other, and keeps it as long as it is
    not declared again itself. -/
theorem get?_run_of_copy {store : Store} {t name value : Text} (h : Declares t name value)
    (hvalue : value.strip.isName) (hsilent : (step store t).result = .ok .silent) {us : List Text}
    (hus : ∀ u ∈ us, ¬ IsDeclarationOf u name.strip) :
    ∃ n, store.get? value.strip = some n ∧
      (run (step store t).store us).get? name.strip = some n := by
  obtain ⟨n, -, hn, hdefine⟩ := (path_step store t).defined_of_silent hsilent h
  have hbound : store.get? value.strip = some n := by
    cases hn with
    | literal hliteral => exact absurd hliteral.isIntegral (Text.not_isIntegral_of_isName hvalue)
    | bound _ hbound => exact hbound
  refine ⟨n, hbound, ?_⟩
  rw [get?_run_of_not_declared hus, hdefine, Store.get?_define_self]

/-- **Frame.**  A line that gets an error, puts something out or ends the session leaves the store as
    it was.  A line to which nothing is said is blank, or a declaration that binds its name and leaves
    all others alone.  So over a run no binding is lost and every line adds one variable at most, and
    a copy is not changed together with its source. -/
theorem step_frame (store : Store) :
    (∀ t e, (step store t).result = .error e → (step store t).store = store) ∧
    (∀ t r, (step store t).result = .ok r → r ≠ .silent → (step store t).store = store) ∧
    (∀ t, (step store t).result = .ok .silent →
      (t.trim = [] ∧ (step store t).store = store) ∨
      ∃ name value n, Declares t name value ∧ (step store t).store.get? name.strip = some n ∧
        ∀ x, x ≠ name.strip → (step store t).store.get? x = store.get? x) ∧
    (∀ t, store.size ≤ (step store t).store.size ∧ (step store t).store.size ≤ store.size + 1) ∧
    (∀ ts x, (store.get? x).isSome → ((run store ts).get? x).isSome) ∧
    (∀ ts, store.size ≤ (run store ts).size ∧ (run store ts).size ≤ store.size + ts.length) ∧
    (∀ t name value us, Declares t name value → value.strip.isName →
      (step store t).result = .ok .silent → (∀ u ∈ us, ¬ IsDeclarationOf u name.strip) →
      ∃ n, store.get? value.strip = some n ∧
        (run (step store t).store us).get? name.strip = some n) := by
  refine ⟨fun t e he => (path_step store t).store_of_error he,
    fun t r hr hne => (path_step store t).store_of_ok hr hne, ?_,
    fun t => ⟨size_le_size_step store t, size_step_le store t⟩,
    fun ts x hx => isSome_get?_run hx ts,
    fun ts => ⟨size_le_size_run store ts, size_run_le store ts⟩,
    fun t name value us h hvalue hsilent hus => get?_run_of_copy h hvalue hsilent hus⟩
  intro t hsilent
  rcases (path_step store t).cases_of_silent hsilent with ⟨hblank, hsame⟩ | ⟨name, value, n, h, -, -, hdefine⟩
  · exact Or.inl ⟨(Text.trim_eq_nil_iff t).2 hblank, hsame⟩
  · refine Or.inr ⟨name, value, n, h, ?_, ?_⟩
    · rw [hdefine, Store.get?_define_self]
    · intro x hx
      rw [hdefine, Store.get?_define_of_ne _ _ hx]

/-- A line with an error, one with a value, and a copy of `a` that outlives the value of `a`. -/
theorem step_frame_of_copy :
    let store := (∅ : Store).define "a".toList 5
    let copied := (step store "b = a".toList).store
    (step store "b = c".toList).store = store ∧ (step store "a ^ 2".toList).store = store ∧
      (∀ x, x ≠ "b".toList → copied.get? x = store.get? x) ∧
      (run copied ["a = 7".toList]).get? "a".toList = some 7 ∧
      (run copied ["a = 7".toList]).get? "b".toList = some 5 := by
  intro store copied
  obtain ⟨herror, hreply, hsilent, -, -, -, hcopy⟩ := step_frame store
  have hb : Declares "b = a".toList "b ".toList " a".toList := ⟨rfl, by decide, by decide⟩
  have ha : Declares "a = 7".toList "a ".toList " 7".toList := ⟨rfl, by decide, by decide⟩
  refine ⟨herror _ (.unknownVariable "c".toList) (by decide), hreply _ (.value 25) (by decide)
    (by decide), ?_, by decide, ?_⟩
  · intro x hx
    rcases hsilent "b = a".toList (by decide) with ⟨hblank, -⟩ | ⟨name, value, n, h, -, hframe⟩
    · exact absurd hblank (by decide)
    · obtain ⟨rfl, rfl⟩ := hb.unique h
      exact hframe x hx
  · have hother : ∀ u ∈ ["a = 7".toList], ¬ IsDeclarationOf u (Text.strip "b ".toList) := by
      rintro u hu ⟨name, value, h, hname⟩
      rw [List.mem_singleton.1 hu] at h
      obtain ⟨rfl, rfl⟩ := ha.unique h
      exact absurd hname (by decide)
    obtain ⟨n, hn, hrun⟩ := hcopy _ _ _ _ hb (by decide) (by decide) hother
    have hfive : store.get? (Text.strip " a".toList) = some 5 := by decide
    rw [hfive] at hn
    cases hn
    exact hrun

end Session

end Calculator
