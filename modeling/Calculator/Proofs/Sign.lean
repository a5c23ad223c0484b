/-
  Runs of signs, and the operator that a run stands for.

  1. `IsRun` — one or more signs.  `Operator.ofRun` — what a run means: a difference when it holds an
     odd number of minuses, else a sum.
  2. In front of anything but a sign, a run collapses to the one symbol of its operator
     (`collapse_run_append`), and the rest collapses by itself.
  3. Where two texts do not meet sign to sign, they collapse separately (`collapse_append`).  A
     character that is not a sign stands for itself (`collapse_cons_of_not_isSign`).
-/
import Calculator.Operator
import Calculator.Text.Sign

namespace Calculator

/-! ## Signs -/

namespace Text

theorem isSign_iff {c : Char} : isSign c ↔ c = '+' ∨ c = '-' := by
  simp [isSign]

/-- One or more signs. -/
def IsRun (r : Text) : Prop := r ≠ [] ∧ ∀ c ∈ r, isSign c

theorem IsRun.append {r s : Text} (hr : IsRun r) (hs : ∀ c ∈ s, isSign c) : IsRun (r ++ s) := by
  refine ⟨fun h => hr.1 (List.append_eq_nil_iff.1 h).1, fun c hc => ?_⟩
  rcases List.mem_append.1 hc with h | h
  · exact hr.2 c h
  · exact hs c h

theorem isRun_singleton {c : Char} (h : isSign c) : IsRun [c] := by
  refine ⟨List.cons_ne_nil _ _, fun d hd => ?_⟩
  rwa [List.mem_singleton.1 hd]

end Text

/-- The operator that a run of signs stands for. -/
def Operator.ofRun (r : Text) : Operator := if r.count '-' % 2 = 1 then .sub else .add

namespace Operator

open Text

theorem precedence_ofRun (r : Text) : (ofRun r).precedence = 0 := by
  unfold ofRun; split <;> rfl

theorem isSign_symbol_ofRun (r : Text) : isSign (ofRun r).symbol := by
  unfold ofRun; split <;> rfl

theorem symbol_ofRun_singleton {c : Char} (h : isSign c) : (ofRun [c]).symbol = c := by
  rcases isSign_iff.1 h with rfl | rfl <;> rfl

/-- A sign in front of a run merges with what the run stands for. -/
theorem merge_symbol_ofRun {c : Char} (h : isSign c) (r : Text) :
    merge c (ofRun r).symbol = (ofRun (c :: r)).symbol := by
  rcases isSign_iff.1 h with rfl | rfl
  · have hcount : ('+' :: r).count '-' = r.count '-' := List.count_cons_of_ne (by decide)
    unfold ofRun
    rw [hcount]
    split <;> rfl
  · -- one more minus changes the parity
    have hcount : ('-' :: r).count '-' = r.count '-' + 1 := List.count_cons_self
    unfold ofRun
    rw [hcount]
    by_cases hodd : r.count '-' % 2 = 1
    · rw [if_pos hodd, if_neg (by omega)]; rfl
    · rw [if_neg hodd, if_pos (by omega)]; rfl

end Operator

namespace Text

/-! ## Collapsing where texts meet -/

theorem attach_of_not_isSign {c : Char} (h : isSign c = false) (t : Text) :
    attach c t = c :: t := by
  cases t <;> simp [attach, h]

/-- A sign only merges with a sign. -/
theorem attach_of_head? {t : Text} (h : ∀ d ∈ t.head?, isSign d = false) (c : Char) :
    attach c t = c :: t := by
  cases t with
  | nil => rfl
  | cons d t => simp [attach, h d rfl]

theorem attach_ne_nil (c : Char) (t : Text) : attach c t ≠ [] := by
  cases t with
  | nil => exact List.cons_ne_nil _ _
  | cons d t => rw [attach]; split <;> exact List.cons_ne_nil _ _

/-- Attaching looks at the first character only. -/
theorem attach_append {s : Text} (h : s ≠ []) (c : Char) (t : Text) :
    attach c (s ++ t) = attach c s ++ t := by
  cases s with
  | nil => exact absurd rfl h
  | cons d s => rw [List.cons_append, attach, attach]; split <;> rfl

theorem collapse_ne_nil {t : Text} (h : t ≠ []) : collapse t ≠ [] := by
  cases t with
  | nil => exact absurd rfl h
  | cons c t => exact attach_ne_nil c _

theorem collapse_cons_of_not_isSign {c : Char} (h : isSign c = false) (t : Text) :
    collapse (c :: t) = c :: collapse t := attach_of_not_isSign h _

/-- Without a sign in front, a text begins as it did before. -/
theorem head?_collapse_of_not_isSign {t : Text} (h : ∀ c ∈ t.head?, isSign c = false) :
    (collapse t).head? = t.head? := by
  cases t with
  | nil => rfl
  | cons c t => rw [collapse_cons_of_not_isSign (h c rfl), List.head?_cons, List.head?_cons]

/-- Texts that do not meet sign to sign collapse separately. -/
theorem collapse_append {s t : Text}
    (h : (∀ c ∈ s.getLast?, isSign c = false) ∨ ∀ c ∈ t.head?, isSign c = false) :
    collapse (s ++ t) = collapse s ++ collapse t := by
  induction s with
  | nil => rfl
  | cons c s ih =>
    cases s with
    | nil =>
      rcases h with h | h
      · show attach c (collapse t) = attach c [] ++ collapse t
        rw [attach_of_not_isSign (h c rfl), attach_of_not_isSign (h c rfl)]
        rfl
      · show attach c (collapse t) = [c] ++ collapse t
        rw [attach_of_head? (head?_collapse_of_not_isSign h ▸ h)]
        rfl
    | cons d s =>
      have ih' := ih (by rwa [List.getLast?_cons_cons] at h)
      rw [List.cons_append, collapse_cons, ih', attach_append (collapse_ne_nil (by simp)),
        collapse_cons c]

/-- A run of signs collapses to the symbol of its operator. -/
theorem collapse_run {r : Text} (h : IsRun r) : collapse r = [(Operator.ofRun r).symbol] := by
  obtain ⟨hne, hsign⟩ := h
  induction r with
  | nil => exact absurd rfl hne
  | cons c r ih =>
    have hc := hsign c (List.mem_cons_self ..)
    cases r with
    | nil => rw [Operator.symbol_ofRun_singleton hc]; rfl
    | cons d r =>
      have ih' := ih (List.cons_ne_nil _ _) fun e he => hsign e (List.mem_cons_of_mem c he)
      rw [collapse_cons, ih', ← Operator.merge_symbol_ofRun hc]
      simp [attach, hc, Operator.isSign_symbol_ofRun]

theorem collapse_run_append {r t : Text} (h : IsRun r) (ht : ∀ c ∈ t.head?, isSign c = false) :
    collapse (r ++ t) = (Operator.ofRun r).symbol :: collapse t := by
  rw [collapse_append (Or.inr ht), collapse_run h]
  rfl

/-- Without signs there is nothing to collapse. -/
theorem collapse_eq_self {t : Text} (h : ∀ c ∈ t, isSign c = false) : collapse t = t := by
  induction t with
  | nil => rfl
  | cons c t ih =>
    rw [collapse_cons_of_not_isSign (h c (List.mem_cons_self ..)),
      ih fun d hd => h d (List.mem_cons_of_mem c hd)]

end Text

end Calculator
