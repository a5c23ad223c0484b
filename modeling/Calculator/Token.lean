/-
  Tokens, the units that expressions are made of.

  1. `Operand` — a number, or an identifier, which is any other text.  Whether an identifier is a
     variable's name is looked at only when its value is asked for.
  2. `Token` — an operand, an operator or a parenthesis.
  3. `Token.ofText` reads one unit: a symbol first, then a number, else an identifier.  `Token.text`
     writes it.  Writing is canonical and reading is not: `+07` and `7` are one number.
  4. A symbol is written as it was read (`text_of_symbol?`), and a number that was written is read
     again (`operandOfText_text_number`).
-/
import Calculator.Operator
import Calculator.Decimal

namespace Calculator

/-- What operators are applied to: a number, or an identifier of any text. -/
inductive Operand
  | number (value : Int)
  | identifier (name : Text)
  deriving DecidableEq, Repr

/-- The text of an operand: a number in canonical form, an identifier as it stands. -/
def Operand.text : Operand → Text
  | .number n => Decimal.text n
  | .identifier name => name

/-- The units of an expression. -/
inductive Token
  | operand (operand : Operand)
  | operator (op : Operator)
  | paren (paren : Paren)
  deriving DecidableEq, Repr

namespace Token

/-- The text of a token. -/
def text : Token → Text
  | .operand x => x.text
  | .operator op => [op.symbol]
  | .paren p => [p.symbol]

/-- The operator or parenthesis that a text of one character stands for. -/
def symbol? : Text → Option Token
  | [c] => (Operator.ofChar? c).map operator <|> (Paren.ofChar? c).map paren
  | _ => none

/-- The operand that a text stands for: a number if it is digits with an optional sign. -/
def operandOfText (t : Text) : Operand :=
  match Decimal.signed? t with
  | some n => .number n
  | none => .identifier t

/-- The token that a text stands for. -/
def ofText (t : Text) : Token := (symbol? t).getD (.operand (operandOfText t))

/-! ## Reading and writing -/

@[simp] theorem operandOfText_text_number (n : Int) :
    operandOfText (Operand.number n).text = .number n := by
  simp [operandOfText, Operand.text]

theorem text_of_symbol? {t : Text} {tok : Token} (h : symbol? t = some tok) : tok.text = t := by
  unfold symbol? at h
  split at h
  · rename_i c
    cases ho : Operator.ofChar? c with
    | some op => simp [ho] at h; simp [← h, text, Operator.symbol_of_ofChar? ho]
    | none =>
      cases hp : Paren.ofChar? c with
      | some p => simp [ho, hp] at h; simp [← h, text, Paren.symbol_of_ofChar? hp]
      | none => simp [ho, hp] at h
  · simp at h

/-- A text that is no symbol is an operand. -/
theorem ofText_of_symbol?_eq_none {t : Text} (h : symbol? t = none) :
    ofText t = .operand (operandOfText t) := by
  simp [ofText, h]

end Token

end Calculator
