/-
  Results: a value, or the error that came first.

  1. What is done in sequence has a value when every part has one (`bind_eq_ok_iff`), and otherwise
     the error of the first part that has none (`bind_eq_error_iff`).
  2. What every step of a run keeps, the run keeps, be it a relation between what was taken and what
     came of it (`foldlM_keeps`), a map of states that the steps cannot see (`foldlM_of_step`) or maps
     of items and states from one system to another (`foldlM_map_of_step`).
  3. When errors are replaced by others, they can be replaced part by part (`mapError_bind`).  So two
     runs whose steps differ in their errors only differ in their errors only
     (`foldlM_map_eq_mapError`).
-/

namespace Calculator.Result

variable {ε α β : Type}

theorem bind_eq_ok_iff {x : Except ε α} {f : α → Except ε β} {b : β} :
    x >>= f = .ok b ↔ ∃ a, x = .ok a ∧ f a = .ok b := by
  cases x with
  | error e =>
    constructor
    · intro h; cases h
    · rintro ⟨a, h, -⟩; cases h
  | ok a =>
    constructor
    · intro h; exact ⟨a, rfl, h⟩
    · rintro ⟨_, h, hf⟩; cases h; exact hf

theorem bind_eq_error_iff {x : Except ε α} {f : α → Except ε β} {e : ε} :
    x >>= f = .error e ↔ x = .error e ∨ ∃ a, x = .ok a ∧ f a = .error e := by
  cases x with
  | error e' =>
    constructor
    · intro h; cases h; exact Or.inl rfl
    · rintro (h | ⟨a, h, -⟩)
      · cases h; rfl
      · cases h
  | ok a =>
    constructor
    · intro h; exact Or.inr ⟨a, rfl, h⟩
    · rintro (h | ⟨_, h, hf⟩)
      · cases h
      · cases h; exact hf

theorem map_eq_ok_iff {x : Except ε α} {f : α → β} {b : β} :
    x.map f = .ok b ↔ ∃ a, x = .ok a ∧ f a = b := by
  cases x with
  | error e =>
    constructor
    · intro h; cases h
    · rintro ⟨a, h, -⟩; cases h
  | ok a =>
    constructor
    · intro h; cases h; exact ⟨a, rfl, rfl⟩
    · rintro ⟨_, h, rfl⟩; cases h; rfl

theorem map_eq_error_iff {x : Except ε α} {f : α → β} {e : ε} :
    x.map f = .error e ↔ x = .error e := by
  cases x with
  | error e' =>
    constructor
    · intro h; cases h; rfl
    · intro h; cases h; rfl
  | ok a =>
    constructor
    · intro h; cases h
    · intro h; cases h

/-! ## Runs -/

section Runs

variable {σ : Type} {step : σ → α → Except ε σ}

/-- What every step keeps of the items taken and the state reached, a run keeps. -/
theorem foldlM_keeps {P : List α → σ → Prop}
    (hstep : ∀ taken s a s', P taken s → step s a = .ok s' → P (taken ++ [a]) s')
    {taken as : List α} {s s' : σ} (h : P taken s) (hrun : as.foldlM step s = .ok s') :
    P (taken ++ as) s' := by
  induction as generalizing taken s with
  | nil =>
    cases hrun
    rwa [List.append_nil]
  | cons a as ih =>
    rw [List.foldlM_cons] at hrun
    obtain ⟨next, hnext, hrest⟩ := bind_eq_ok_iff.1 hrun
    rw [← List.singleton_append, ← List.append_assoc]
    exact ih (hstep taken s a next h hnext) hrest

/-- What every step leaves out of account, a run leaves out of account. -/
theorem foldlM_of_step {f : σ → σ} (hstep : ∀ s a s', step s a = .ok s' → step (f s) a = .ok (f s'))
    {as : List α} {s s' : σ} (hrun : as.foldlM step s = .ok s') :
    as.foldlM step (f s) = .ok (f s') := by
  induction as generalizing s with
  | nil => cases hrun; rfl
  | cons a as ih =>
    rw [List.foldlM_cons] at hrun ⊢
    obtain ⟨next, hnext, hrest⟩ := bind_eq_ok_iff.1 hrun
    exact bind_eq_ok_iff.2 ⟨_, hstep s a next hnext, ih hrest⟩

/-- Where the steps of two systems agree up to maps of their items and states, the runs agree. -/
theorem foldlM_map_of_step {τ : Type} {step' : τ → β → Except ε τ} {f : α → β} {g : σ → τ}
    (hstep : ∀ s a, step' (g s) (f a) = (step s a).map g) (as : List α) (s : σ) :
    (as.map f).foldlM step' (g s) = (as.foldlM step s).map g := by
  induction as generalizing s with
  | nil => rfl
  | cons a as ih =>
    rw [List.map_cons, List.foldlM_cons, List.foldlM_cons, hstep]
    cases step s a with
    | error e => rfl
    | ok s' => exact ih s'

end Runs

/-! ## Other errors -/

variable {ε' : Type}

theorem mapError_bind (x : Except ε α) (f : α → Except ε β) (g : ε → ε') :
    (x >>= f).mapError g = x.mapError g >>= fun a => (f a).mapError g := by
  cases x <;> rfl

theorem mapError_map (x : Except ε α) (f : α → β) (g : ε → ε') :
    (x.map f).mapError g = (x.mapError g).map f := by
  cases x <;> rfl

theorem mapError_id (x : Except ε α) : x.mapError id = x := by
  cases x <;> rfl

/-- What holds of one step holds of a run. -/
theorem foldlM_map_eq_mapError {σ : Type} {step : σ → α → Except ε σ} {step' : σ → β → Except ε' σ}
    {f : α → β} {g : ε → ε'} (h : ∀ s a, step' s (f a) = (step s a).mapError g) (as : List α)
    (s : σ) : (as.map f).foldlM step' s = (as.foldlM step s).mapError g := by
  induction as generalizing s with
  | nil => rfl
  | cons a as ih =>
    rw [List.map_cons, List.foldlM_cons, List.foldlM_cons, h, mapError_bind]
    congr 1
    funext s'
    exact ih s'

end Calculator.Result
