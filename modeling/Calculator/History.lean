/-
  The history of a prompt: the lines that were typed, for the user to come back to.

  1. `History` — the entries, latest first, at most `capacity` of them, and whether one was added since
     the history and its file last agreed.
  2. `add` — a line becomes the latest entry, unless it is empty or equal to the latest one.  When there
     is no room the oldest entry goes.
  3. Many lines leave an empty history as it is only if they all are empty (`changed_foldl_add_empty`).

  The calculator hands every line that it reads to a line editor, which keeps the history.  So the
  capacity, what is worth an entry and what counts as a change are the documented rules of that editor,
  taken as they are; the calculator's own part is in `Console.Prompt`.
-/
import Calculator.Text

namespace Calculator

/-- The lines that were typed. -/
structure History where
  /-- The entries, latest first. -/
  latest : List Text
  /-- Whether an entry was added since the history and its file last agreed. -/
  changed : Bool
  deriving DecidableEq, Repr

namespace History

/-- How many entries are kept. -/
def capacity : Nat := 100

/-- The history before anything was typed. -/
def empty : History := ⟨[], false⟩

/-- The entries, oldest first. -/
def entries (h : History) : List Text := h.latest.reverse

/-- Whether a line is worth an entry: it is not empty and not the latest entry again. -/
def accepts (h : History) (line : Text) : Bool := line ≠ [] && h.latest.head? ≠ some line

/-- Adds a line that was typed. -/
def add (h : History) (line : Text) : History :=
  if h.accepts line then ⟨(line :: h.latest).take capacity, true⟩ else h

/-! ## What adding does -/

theorem accepts_iff {h : History} {line : Text} :
    h.accepts line ↔ line ≠ [] ∧ h.latest.head? ≠ some line := by
  simp [accepts]

/-! ## What is added by many lines -/

theorem changed_foldl_add {h : History} (hchanged : h.changed) (ts : List Text) :
    (ts.foldl add h).changed := by
  induction ts generalizing h with
  | nil => exact hchanged
  | cons t ts ih =>
    refine ih ?_
    unfold add; split
    · rfl
    · exact hchanged

/-- An empty history gets an entry from the first line that is not empty. -/
theorem changed_foldl_add_empty (ts : List Text) :
    (ts.foldl add empty).changed ↔ ∃ t ∈ ts, t ≠ [] := by
  induction ts with
  | nil => exact iff_of_false Bool.false_ne_true fun ⟨_, hmem, _⟩ => List.not_mem_nil hmem
  | cons t ts ih =>
    by_cases ht : t = []
    · subst ht
      have hsame : empty.add [] = empty := rfl
      rw [List.foldl_cons, hsame, ih]
      simp
    · have hadd : empty.add t = ⟨[t], true⟩ := by simp [add, accepts, ht, empty, capacity]
      refine iff_of_true ?_ ⟨t, List.mem_cons_self .., ht⟩
      rw [List.foldl_cons, hadd]
      exact changed_foldl_add rfl ts

end History

end Calculator
