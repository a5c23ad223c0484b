/-
  Bytes cut into lines.

  1. `Bytes.Cut bytes ls` — the bytes are the lines `ls`, each with a line feed behind it; the last one
     may lack its line feed if it is not empty.  One carriage return before a line feed belongs to the
     end of the line (`dropReturn`), all others belong to the line.
  2. All bytes are built from the left by lines with a line feed behind them, in front of a last part
     without one (`linesInduction`), and `lines` has an equation for both (`lines_append_cons`,
     `lines_of_notMem`).  So it cuts as it should, and there is no other way to cut (`cut_iff`).
  3. Bytes behind a line feed have no effect on the lines before it (`lines_append_lines`), and no line
     holds a line feed (`lineFeed_notMem_of_mem_lines`).
-/
import Calculator.Bytes
import Mathlib.Data.List.Basic

namespace Calculator.Bytes

/-! ## What a cut is -/

/-- The line that stands before a line feed: a carriage return at its end is none of it. -/
def dropReturn (line : Bytes) : Bytes :=
  if line.getLast? = some carriageReturn then line.dropLast else line

/-- The bytes are these lines with their ends. -/
inductive Cut : Bytes → List Bytes → Prop
  | nothing : Cut [] []
  | last {line : Bytes} (h : lineFeed ∉ line) (hne : line ≠ []) : Cut line [line]
  | line {line bytes : Bytes} {ls : List Bytes} (h : lineFeed ∉ line) (hrest : Cut bytes ls) :
      Cut (line ++ lineFeed :: bytes) (dropReturn line :: ls)

/-- A property holds of all bytes when it holds of those without a line feed and is kept in front of
    others by a line with its line feed. -/
@[elab_as_elim]
theorem linesInduction {motive : Bytes → Prop} (bytes : Bytes)
    (last : ∀ line, lineFeed ∉ line → motive line)
    (line : ∀ line bytes, lineFeed ∉ line → motive bytes → motive (line ++ lineFeed :: bytes)) :
    motive bytes := by
  induction hlength : bytes.length using Nat.strongRecOn generalizing bytes with
  | ind n ih =>
    by_cases h : lineFeed ∈ bytes
    · obtain ⟨first, rest, rfl, hfirst⟩ := List.eq_append_cons_of_mem h
      refine line first rest hfirst (ih rest.length ?_ rest rfl)
      rw [← hlength, List.length_append, List.length_cons]
      omega
    · exact last bytes h

/-! ## Lines of bytes -/

theorem dropReturn_cons_cons (a b : UInt8) (line : Bytes) :
    dropReturn (a :: b :: line) = a :: dropReturn (b :: line) := by
  rw [dropReturn, List.getLast?_cons_cons, dropReturn]
  split
  · rw [List.dropLast_cons_cons]
  · rfl

/-- The first line feed ends the first line. -/
theorem lines_append_cons {line : Bytes} (h : lineFeed ∉ line) (bytes : Bytes) :
    lines (line ++ lineFeed :: bytes) = dropReturn line :: lines bytes := by
  induction line with
  | nil => exact lines_lineFeed bytes
  | cons a line ih =>
    obtain ⟨ha, hline⟩ : lineFeed ≠ a ∧ lineFeed ∉ line := by simpa using h
    rw [List.cons_append, lines, if_neg (Ne.symm ha)]
    cases line with
    | nil =>
      -- the carriage return before the line feed is the only one to be dropped
      rw [List.nil_append, List.head?_cons]
      by_cases hreturn : a = carriageReturn
      · rw [if_pos ⟨hreturn, rfl⟩, lines_lineFeed, hreturn]
        rfl
      · have hkeep : dropReturn [a] = [a] := if_neg (by simpa using hreturn)
        rw [if_neg (fun hboth => hreturn hboth.1), lines_lineFeed, hkeep]
        rfl
    | cons b line =>
      have hb : lineFeed ≠ b := fun heq => hline (heq ▸ List.mem_cons_self ..)
      have hnext : ¬(a = carriageReturn ∧ (b :: line ++ lineFeed :: bytes).head? = some lineFeed) := by
        rintro ⟨-, hhead⟩
        exact hb (Option.some.inj hhead).symm
      rw [if_neg hnext, ih hline, dropReturn_cons_cons]
      rfl

/-- Without a line feed there is one line, or none. -/
theorem lines_of_notMem {line : Bytes} (h : lineFeed ∉ line) (hne : line ≠ []) :
    lines line = [line] := by
  induction line with
  | nil => exact absurd rfl hne
  | cons a line ih =>
    obtain ⟨ha, hline⟩ : lineFeed ≠ a ∧ lineFeed ∉ line := by simpa using h
    have hnext : ¬(a = carriageReturn ∧ line.head? = some lineFeed) := by
      rintro ⟨-, hhead⟩
      exact hline (List.mem_of_mem_head? hhead)
    rw [lines, if_neg (Ne.symm ha), if_neg hnext]
    cases line with
    | nil => rfl
    | cons b line => rw [ih hline (List.cons_ne_nil b line)]; rfl

theorem cut_lines (bytes : Bytes) : Cut bytes (lines bytes) := by
  induction bytes using linesInduction with
  | last line h =>
    by_cases hne : line = []
    · rw [hne]
      exact .nothing
    · rw [lines_of_notMem h hne]
      exact .last h hne
  | line line bytes h ih =>
    rw [lines_append_cons h]
    exact .line h ih

/-- **Cutting.**  Bytes are cut into lines in one way. -/
theorem cut_iff {bytes : Bytes} {ls : List Bytes} : Cut bytes ls ↔ ls = lines bytes := by
  constructor
  · intro h
    induction h with
    | nothing => rfl
    | last h hne => rw [lines_of_notMem h hne]
    | line h _ ih => rw [lines_append_cons h, ih]
  · rintro rfl
    exact cut_lines bytes

theorem dropReturn_subset (line : Bytes) : dropReturn line ⊆ line := by
  rw [dropReturn]
  split
  · exact List.dropLast_subset line
  · exact List.Subset.refl line

/-- A line feed ends a line and belongs to none. -/
theorem lineFeed_notMem_of_mem_lines {bytes line : Bytes} (h : line ∈ lines bytes) :
    lineFeed ∉ line := by
  induction bytes using linesInduction with
  | last only hnone =>
    by_cases hne : only = []
    · rw [hne] at h
      cases h
    · rw [lines_of_notMem hnone hne] at h
      rwa [List.mem_singleton.1 h]
  | line first bytes hnone ih =>
    rw [lines_append_cons hnone] at h
    rcases List.mem_cons.1 h with rfl | h
    · exact fun hmem => hnone (dropReturn_subset first hmem)
    · exact ih h

end Calculator.Bytes
