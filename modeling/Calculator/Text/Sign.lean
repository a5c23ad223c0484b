/-
  Signs, and runs of them.

  1. `merge` — what two neighbouring signs are together: `+` when they are alike, `-` when they differ.
  2. `collapse` — every run of signs becomes the one sign that it merges to, which is `-` exactly when
     the run holds an odd number of minus signs.  It is a right fold of `attach`, so a text is
     collapsed from its end and each sign meets the sign that the run after it has become.
  3. `normalize` — a text without its blanks, its runs of signs collapsed.  Blanks are dropped first,
     so they do not separate the signs of a run.
  4. Collapsing keeps what is not a sign (`filter_collapse`).
-/
import Calculator.Text.Blank

namespace Calculator.Text

/-- The two signs. -/
def isSign (c : Char) : Bool := c == '+' || c == '-'

/-- Two neighbouring signs mean plus when they are alike and minus when they differ. -/
def merge (a b : Char) : Char := if a = b then '+' else '-'

/-- Puts a character in front of a collapsed text. -/
def attach (c : Char) : Text → Text
  | [] => [c]
  | d :: t => if isSign c && isSign d then merge c d :: t else c :: d :: t

/-- Makes one sign of every run of signs. -/
def collapse (t : Text) : Text := t.foldr attach []

/-- The text without its blanks, with one sign for every run of signs. -/
def normalize (t : Text) : Text := collapse (strip t)

@[simp] theorem collapse_nil : collapse [] = [] := rfl

@[simp] theorem collapse_cons (c : Char) (t : Text) : collapse (c :: t) = attach c (collapse t) := rfl

theorem isSign_merge (a b : Char) : isSign (merge a b) := by
  unfold merge; split <;> rfl

/-- Attaching keeps what is not a sign. -/
theorem filter_attach (c : Char) (t : Text) :
    (attach c t).filter (fun d => !isSign d) = (c :: t).filter (fun d => !isSign d) := by
  cases t with
  | nil => rfl
  | cons d t =>
    by_cases h : isSign c && isSign d
    · have hm := isSign_merge c d
      simp only [Bool.and_eq_true] at h
      simp [attach, h.1, h.2, hm]
    · simp [attach, h]

/-- Collapsing keeps what is not a sign, in order. -/
theorem filter_collapse (t : Text) :
    (collapse t).filter (fun c => !isSign c) = t.filter (fun c => !isSign c) := by
  induction t with
  | nil => rfl
  | cons c t ih => rw [collapse_cons, filter_attach, List.filter_cons, List.filter_cons, ih]

/-- A run of signs with an odd number of minuses is a minus, one with an even number a plus. -/
example : collapse "2---3+-+4++".toList = "2-3-4+".toList := by decide

end Calculator.Text
