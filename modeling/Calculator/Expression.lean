/-
  From the text of an expression to its value.

  1. `ofText` — the tokens of a text: its blanks dropped, its runs of signs collapsed, the rest cut
     into pieces.
  2. `postorder` puts them in postorder, `evaluate` gives the value of that.  Neither asks for a shape,
     so both have an answer for every text.
  3. `result` is what a line of a session gets: the shape of the stripped text is checked first.
  4. `notes` — the events of an evaluation.  They depend on the text and the store alone, so they are a
     function beside `evaluate` and no part of it.
-/
import Calculator.Expression.Shape
import Calculator.Expression.Postorder
import Calculator.Expression.Value
import Calculator.Token.Pieces
import Calculator.Event

namespace Calculator.Expression

/-! ## The value of a text -/

/-- The tokens of a text. -/
def ofText (t : Text) : List Token := Token.ofExpression t.normalize

/-- The tokens of a text in postorder. -/
def postorder (t : Text) : Except Error (List Token) := toPostorder (ofText t)

/-- The value of a text, whatever its shape. -/
def evaluate (store : Store) (t : Text) : Except Error Int := postorder t >>= value store

/-- The value of an expression, whose stripped text must have the shape of one. -/
def result (store : Store) (t : Text) : Except Error Int :=
  if isWellShaped t.strip then evaluate store t.strip else .error (.malformed t.strip)

/-! ## What is noted down -/

/-- The note about values without an operator between them. -/
def surplusNotes (store : Store) (tokens : List Token) : List Event :=
  match surplus store tokens with
  | [] => []
  | values => [.surplus values]

/-- The notes of an evaluation. -/
def notes (store : Store) (t : Text) : List Event :=
  .normalized t t.normalize ::
    match postorder t with
    | .ok tokens => .postorder tokens :: surplusNotes store tokens
    | .error _ => []

/-- The notes of a line that is an expression; a text without the shape of one is not evaluated. -/
def resultNotes (store : Store) (t : Text) : List Event :=
  if isWellShaped t.strip then notes store t.strip else []

example : evaluate ∅ "2 * (3 -- 4) ^ 2".toList = .ok 98 := rfl

end Calculator.Expression
