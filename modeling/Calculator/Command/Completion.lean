/-
  Completion: what a line may become when the rest of it is left to the line editor.

  1. `offers` — the texts that are offered, a list of the editor's own.  What a session makes of them is
     no part of this module.
  2. `completing` — the offers that a typed text is the beginning of.  A line is a command only if it
     begins with a slash, so nothing is offered for any other.
  3. `Completion` — the position from which on the text is replaced, here always the beginning of the
     line, and the candidates to put there.
-/
import Calculator.Text

namespace Calculator.Command

/-- The texts that are offered, in this order. -/
def offers : List Text := ["/help".toList, "/exit".toList]

/-- The offers that a typed text, which must begin with a slash, is the beginning of. -/
def completing (typed : Text) : List Text :=
  offers.filter fun offer => typed.head? == some '/' && typed.isPrefixOf offer

theorem mem_completing {typed t : Text} :
    t ∈ completing typed ↔ t ∈ offers ∧ typed.head? = some '/' ∧ typed <+: t := by
  simp [completing]

/-- What a line may be completed to. -/
structure Completion where
  /-- The position, counted in bytes, from which on the line is replaced. -/
  start : Nat
  /-- The texts that may stand there. -/
  candidates : List Text
  deriving DecidableEq, Repr

/-- The completions of a line, of which what lies before a byte position is looked at. -/
def Completion.ofLine (line : Text) (position : Nat) : Completion :=
  ⟨0, completing (line.takeBytes position)⟩

example : Completion.ofLine "/e".toList 1 = ⟨0, ["/help".toList, "/exit".toList]⟩ := by decide
example : Completion.ofLine "/e".toList 2 = ⟨0, ["/exit".toList]⟩ := by decide

end Calculator.Command
