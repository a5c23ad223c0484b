/-
  The shape that the text of an expression must have before it is taken apart.

  1. The shape is  S A (O A)*.  S is a run of signs, possibly empty.  A is a word between any number
     of opening parentheses before it and any number of closing ones after it.  O is a non-empty run
     of signs, or one of `*`, `/`, `^`.
  2. Whether the parentheses match is no part of the shape; that comes out in `Expression.Postorder`.
  3. `isWellShaped` reads a text from left to right with a `Place` in the shape as its only memory.
     At each place a character leads to at most one other, so nothing is ever read twice.
-/
import Calculator.Text.Sign
import Calculator.Text.Word

namespace Calculator.Expression

open Text (isSign isWordChar)

/-- Where in its shape the reading of an expression stands. -/
inductive Place
  /-- At the beginning, or within the signs of an operator: more signs or an operand may follow. -/
  | signs
  /-- Before a word, where only an operand may follow. -/
  | openings
  /-- Within a word. -/
  | word
  /-- Behind a word that a parenthesis has closed. -/
  | closings
  deriving DecidableEq, Repr

namespace Place

/-- The characters that are an operator all by themselves. -/
def isSingle (c : Char) : Bool := c == '*' || c == '/' || c == '^'

/-- The place after an operand when an operator, or another closing parenthesis, follows it. -/
def afterOperand (c : Char) : Option Place :=
  if c = ')' then some closings
  else if isSign c then some signs
  else if isSingle c then some openings
  else none

/-- The place after one more character, if the shape allows the character here. -/
def next (place : Place) (c : Char) : Option Place :=
  match place with
  | signs =>
    if isSign c then some signs
    else if c = '(' then some openings
    else if isWordChar c then some word
    else none
  | openings =>
    if c = '(' then some openings
    else if isWordChar c then some word
    else none
  | word => if isWordChar c then some word else afterOperand c
  | closings => afterOperand c

/-- An expression may end behind an operand. -/
def isFinal : Place → Bool
  | word | closings => true
  | signs | openings => false

end Place

/-- Whether a text, which must be free of blanks, has the shape of an expression. -/
def isWellShaped (t : Text) : Bool :=
  match t.foldlM Place.next .signs with
  | some place => place.isFinal
  | none => false

example : isWellShaped "--(2a+-3)*((x".toList := by decide
example : isWellShaped "2*-3".toList = false := by decide
example : isWellShaped "()".toList = false := by decide

end Calculator.Expression
