/-
  Cutting a text into the pieces that stand for its tokens.

  1. `segments` — every maximal run of word characters is one piece, every other character is a piece
     of its own.  It is a right fold of `prepend`, which lengthens the word that follows or starts a
     new piece.
  2. `pieces` — the same, but for one rule about the beginning of the text: a sign that stands first,
     directly before a digit, belongs to the word after it.  So `-2^3` begins with the number `-2`,
     while in `x-2` and in `(-2)` the sign is an operator.
  3. `ofExpression` — the tokens of the pieces.
  4. Nothing is lost: the pieces, one after the other, are the text (`flatten_pieces`).
-/
import Calculator.Token
import Calculator.Text.Sign
import Calculator.Text.Word

namespace Calculator.Token

open Text (isWordChar isSign)

/-! ## Words and single characters -/

/-- Puts a character in front of the pieces of the text after it. -/
def prepend (c : Char) : List Text → List Text
  | (d :: word) :: rest =>
    if isWordChar c && isWordChar d then (c :: d :: word) :: rest else [c] :: (d :: word) :: rest
  | rest => [c] :: rest

/-- The maximal words of a text, and the characters between them one by one. -/
def segments (t : Text) : List Text := t.foldr prepend []

/-! ## The sign at the beginning -/

/-- The pieces of a text, a sign that is part of the first number included in it. -/
def pieces : Text → List Text
  | s :: d :: t =>
    if isSign s && d.isDigit then
      (s :: (d :: t).takeWhile isWordChar) :: segments ((d :: t).dropWhile isWordChar)
    else segments (s :: d :: t)
  | t => segments t

/-- The tokens of an expression's text. -/
def ofExpression (t : Text) : List Token := (pieces t).map ofText

/-! ## Nothing is lost -/

@[simp] theorem segments_cons (c : Char) (t : Text) :
    segments (c :: t) = prepend c (segments t) := rfl

theorem flatten_prepend (c : Char) (ps : List Text) : (prepend c ps).flatten = c :: ps.flatten := by
  unfold prepend; split
  · split <;> rfl
  · rfl

@[simp] theorem flatten_segments (t : Text) : (segments t).flatten = t := by
  induction t with
  | nil => rfl
  | cons c t ih => rw [segments_cons, flatten_prepend, ih]

theorem flatten_pieces (t : Text) : (pieces t).flatten = t := by
  unfold pieces; split
  · split
    · simp [List.takeWhile_append_dropWhile]
    · exact flatten_segments _
  · exact flatten_segments _

/-- No piece is empty. -/
theorem ne_nil_of_mem_prepend {c : Char} {ps : List Text} (hps : ∀ p ∈ ps, p ≠ []) {p : Text}
    (h : p ∈ prepend c ps) : p ≠ [] := by
  unfold prepend at h
  split at h
  · rename_i d word rest
    split at h
    · rcases List.mem_cons.1 h with rfl | h
      · exact List.cons_ne_nil _ _
      · exact hps p (List.mem_cons_of_mem _ h)
    · rcases List.mem_cons.1 h with rfl | h
      · exact List.cons_ne_nil _ _
      · exact hps p h
  · rcases List.mem_cons.1 h with rfl | h
    · exact List.cons_ne_nil _ _
    · exact hps p h

theorem ne_nil_of_mem_segments {t p : Text} (h : p ∈ segments t) : p ≠ [] := by
  induction t generalizing p with
  | nil => cases h
  | cons c t ih => exact ne_nil_of_mem_prepend (fun _ hp => ih hp) h

example : pieces "-12a*(x_1-3)".toList =
    ["-12a".toList, ['*'], ['('], "x_1".toList, ['-'], ['3'], [')']] := by decide

end Calculator.Token
