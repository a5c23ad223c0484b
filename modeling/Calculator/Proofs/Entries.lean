/-
  The entries that many lines leave, all at once.

  1. `worthwhile ts` — of the lines `ts` those that deserve an entry: the empty ones are left out, and of
     equal ones that follow each other only the first is taken.
  2. `Recalls h ts` — the history `h` has the entries that the lines `ts` leave: the latest worthwhile
     lines, as many as there is room for.  A line that is added keeps this (`Recalls.add`), so it holds
     of lines that are added one by one (`Recalls.foldl_add`).  What goes for want of room is never
     the latest entry, and the latest entry is all that adding looks at.
  3. `Adds old new` — among the lines `new`, which come after `old`, one gets an entry.  This is what
     makes a history differ from its file (`Recalls.changed_foldl_add`), also when the entry is gone
     again in the end.
-/
import Calculator.History
import Mathlib.Data.List.Destutter
import Mathlib.Data.List.DropRight

namespace Calculator.History

/-! ## Worthwhile lines -/

/-- The lines that deserve an entry: those that are not empty, without immediate repetitions. -/
def worthwhile (ts : List Text) : List Text := (ts.filter (· ≠ [])).destutter (· ≠ ·)

/-- A repetition at the end is left out, anything else at the end is taken. -/
theorem destutter'_append_singleton (s : Text) (ts : List Text) (t : Text) :
    (ts ++ [t]).destutter' (· ≠ ·) s =
      if (ts.destutter' (· ≠ ·) s).getLast? = some t then ts.destutter' (· ≠ ·) s
      else ts.destutter' (· ≠ ·) s ++ [t] := by
  induction ts generalizing s with
  | nil =>
    by_cases h : s = t
    · simp [h]
    · simp [h]
  | cons u ts ih =>
    rw [List.cons_append]
    by_cases h : s ≠ u
    · rw [List.destutter'_cons_pos _ h, List.destutter'_cons_pos _ h, ih,
        List.getLast?_cons_of_ne_nil (List.destutter'_ne_nil ts _)]
      split <;> rfl
    · rw [List.destutter'_cons_neg _ h, List.destutter'_cons_neg _ h, ih]

/-- Whether one more line is worthwhile depends on the last of the others. -/
theorem worthwhile_append_singleton (ts : List Text) (t : Text) :
    worthwhile (ts ++ [t]) =
      if t ≠ [] ∧ (worthwhile ts).getLast? ≠ some t then worthwhile ts ++ [t] else worthwhile ts := by
  by_cases hempty : t = []
  · subst hempty
    simp [worthwhile]
  · have hfilter : (ts ++ [t]).filter (· ≠ []) = ts.filter (· ≠ []) ++ [t] := by
      simp [List.filter_append, hempty]
    rw [worthwhile, worthwhile, hfilter]
    cases ts.filter (· ≠ []) with
    | nil => simp [hempty]
    | cons s rest =>
      rw [List.cons_append, List.destutter_cons', List.destutter_cons', destutter'_append_singleton]
      by_cases hlast : (rest.destutter' (· ≠ ·) s).getLast? = some t
      · rw [if_pos hlast, if_neg fun h => h.2 hlast]
      · rw [if_neg hlast, if_pos ⟨hempty, hlast⟩]

/-- Lines that are not empty and do not repeat each other are worthwhile. -/
theorem worthwhile_eq_self {ts : List Text} (hne : ∀ t ∈ ts, t ≠ []) (hdistinct : ts.IsChain (· ≠ ·)) :
    worthwhile ts = ts := by
  have hfilter : ts.filter (· ≠ []) = ts := List.filter_eq_self.2 fun t ht => by simpa using hne t ht
  rw [worthwhile, hfilter]
  exact List.destutter_of_isChain _ ts hdistinct

theorem length_worthwhile_le (ts : List Text) : (worthwhile ts).length ≤ ts.length :=
  Nat.le_trans (List.destutter_sublist _ _).length_le (List.length_filter_le _ ts)

/-- What there was no room for before, there is no room for with one more. -/
theorem take_cons_take (n : Nat) (t : Text) (ts : List Text) :
    (t :: ts.take n).take n = (t :: ts).take n := by
  cases n with
  | zero => rfl
  | succ n =>
    rw [List.take_succ_cons, List.take_succ_cons, List.take_take, Nat.min_eq_left (Nat.le_succ n)]

/-! ## What a history recalls -/

/-- The history has the entries that the lines leave. -/
def Recalls (h : History) (ts : List Text) : Prop :=
  h.latest = (worthwhile ts).reverse.take capacity

theorem recalls_empty : Recalls empty [] := rfl

namespace Recalls

variable {h : History} {ts : List Text}

/-- The latest entry is the last worthwhile line. -/
theorem head?_latest (hr : Recalls h ts) : h.latest.head? = (worthwhile ts).getLast? := by
  rw [hr, List.head?_take, if_neg (by decide), List.head?_reverse]

theorem accepts_iff (hr : Recalls h ts) (t : Text) :
    h.accepts t ↔ t ≠ [] ∧ (worthwhile ts).getLast? ≠ some t := by
  rw [History.accepts_iff, hr.head?_latest]

/-- Entries as they are listed: the last worthwhile lines, as many as there is room for. -/
theorem entries_eq (hr : Recalls h ts) : h.entries = (worthwhile ts).rtake capacity := by
  rw [entries, hr, List.rtake_eq_reverse_take_reverse]

/-- Where there is room for all lines, all worthwhile lines are entries. -/
theorem entries_eq_worthwhile (hr : Recalls h ts) (hlength : ts.length ≤ capacity) :
    h.entries = worthwhile ts := by
  have hroom : (worthwhile ts).length ≤ capacity := Nat.le_trans (length_worthwhile_le ts) hlength
  rw [hr.entries_eq, List.rtake, Nat.sub_eq_zero_of_le hroom]
  rfl

/-- One more line. -/
theorem add (hr : Recalls h ts) (t : Text) : Recalls (h.add t) (ts ++ [t]) := by
  rw [Recalls, worthwhile_append_singleton, History.add]
  by_cases hnew : t ≠ [] ∧ (worthwhile ts).getLast? ≠ some t
  · rw [if_pos ((hr.accepts_iff t).2 hnew), if_pos hnew]
    show (t :: h.latest).take capacity = _
    rw [hr, take_cons_take, List.reverse_append, List.reverse_singleton, List.singleton_append]
  · rw [if_neg fun ha => hnew ((hr.accepts_iff t).1 ha), if_neg hnew]
    exact hr

theorem foldl_add (hr : Recalls h ts) (new : List Text) :
    Recalls (new.foldl History.add h) (ts ++ new) := by
  induction new generalizing h ts with
  | nil => rwa [List.append_nil]
  | cons t new ih =>
    have hrest := ih (hr.add t)
    rwa [List.append_assoc] at hrest

end Recalls

/-! ## Whether anything is added -/

/-- Some of the new lines, which come after the old ones, gets an entry: it is not empty, and it is not
    the entry before it again. -/
def Adds (old new : List Text) : Prop :=
  ∃ before t after, new = before ++ t :: after ∧
    t ≠ [] ∧ (worthwhile (old ++ before)).getLast? ≠ some t

theorem not_adds_nil (old : List Text) : ¬Adds old [] := by
  rintro ⟨before, t, after, hnew, -⟩
  exact List.append_ne_nil_of_right_ne_nil _ (List.cons_ne_nil _ _) hnew.symm

theorem adds_cons_iff {old : List Text} {t : Text} {new : List Text} :
    Adds old (t :: new) ↔
      (t ≠ [] ∧ (worthwhile old).getLast? ≠ some t) ∨ Adds (old ++ [t]) new := by
  constructor
  · rintro ⟨before, u, after, hnew, hu⟩
    cases before with
    | nil =>
      obtain ⟨rfl, rfl⟩ := List.cons.inj hnew
      rw [List.append_nil] at hu
      exact Or.inl hu
    | cons s before =>
      obtain ⟨rfl, rfl⟩ := List.cons.inj hnew
      refine Or.inr ⟨before, u, after, rfl, ?_⟩
      rwa [List.append_assoc]
  · rintro (hfirst | ⟨before, u, after, rfl, hu⟩)
    · refine ⟨[], t, new, rfl, ?_⟩
      rwa [List.append_nil]
    · refine ⟨t :: before, u, after, rfl, ?_⟩
      rwa [List.append_assoc] at hu

/-- New lines change a history just when one of them gets an entry. -/
theorem Recalls.changed_foldl_add {h : History} {old : List Text} (hr : Recalls h old)
    (new : List Text) : (new.foldl History.add h).changed ↔ h.changed ∨ Adds old new := by
  induction new generalizing h old with
  | nil => exact (or_iff_left (not_adds_nil old)).symm
  | cons t new ih =>
    rw [List.foldl_cons, ih (hr.add t), adds_cons_iff, ← or_assoc, ← hr.accepts_iff t]
    refine or_congr_left ?_
    rw [History.add]
    split
    · rename_i ha
      exact iff_of_true rfl (Or.inr ha)
    · rename_i ha
      exact (or_iff_left ha).symm

end Calculator.History
