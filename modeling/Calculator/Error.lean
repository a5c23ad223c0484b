/-
  What can go wrong with a line.

  1. `Error` — one constructor for each cause, carrying what the cause is about: the offending text,
     the operator without operands, the exponent.
  2. `Error.kind` — the seven kinds that causes fall into, and `Error.detail` — what an error says
     beyond its kind.
  3. `Error.message` — the words shown to the user: the title of the kind, then the detail.
-/
import Calculator.Operator
import Calculator.Decimal

namespace Calculator

/-- The causes for which a line is refused. -/
inductive Error
  /-- The stripped text of an expression does not have the shape of one. -/
  | malformed (text : Text)
  /-- A closing parenthesis has no opening one before it. -/
  | unmatchedClosing
  /-- An opening parenthesis is never closed. -/
  | unmatchedOpening
  /-- Fewer than two values stand before an operator. -/
  | missingOperand (op : Operator)
  /-- A parenthesis stands where only operands and operators may. -/
  | strayParen (paren : Paren)
  /-- There is nothing to evaluate. -/
  | noValue
  /-- More than one value is left at the end. -/
  | missingOperator
  /-- A text that should name a variable is not a name. -/
  | invalidName (text : Text)
  /-- The right side of a declaration is neither an integer nor a name. -/
  | invalidAssignment (text : Text)
  /-- A variable is read before it is defined. -/
  | unknownVariable (name : Text)
  /-- A line that begins with a slash is none of the commands. -/
  | unknownCommand (text : Text)
  | divisionByZero
  | negativeExponent (exponent : Int)
  | exponentTooLarge (exponent : Int)
  deriving DecidableEq, Repr

namespace Error

/-- The kinds of errors. -/
inductive Kind
  | invalidExpression | invalidIdentifier | invalidAssignment | unknownVariable | unknownCommand
  | divisionByZero | invalidExponent
  deriving DecidableEq, Repr

/-- The words that every message of a kind begins with. -/
def Kind.title : Kind → Text
  | .invalidExpression => "Invalid expression".toList
  | .invalidIdentifier => "Invalid identifier".toList
  | .invalidAssignment => "Invalid assignment".toList
  | .unknownVariable => "Unknown variable".toList
  | .unknownCommand => "Unknown command".toList
  | .divisionByZero => "Division by zero".toList
  | .invalidExponent => "Invalid exponent".toList

/-- The kind an error is of. -/
def kind : Error → Kind
  | .malformed _ | .unmatchedClosing | .unmatchedOpening | .missingOperand _ | .strayParen _
  | .noValue | .missingOperator => .invalidExpression
  | .invalidName _ => .invalidIdentifier
  | .invalidAssignment _ => .invalidAssignment
  | .unknownVariable _ => .unknownVariable
  | .unknownCommand _ => .unknownCommand
  | .divisionByZero => .divisionByZero
  | .negativeExponent _ | .exponentTooLarge _ => .invalidExponent

/-- What an error says beyond its kind; a division by zero says no more. -/
def detail : Error → Option Text
  | .malformed text | .invalidName text | .invalidAssignment text | .unknownVariable text
  | .unknownCommand text => some text
  | .unmatchedClosing => some "unmatched closing parenthesis".toList
  | .unmatchedOpening => some "unmatched opening parenthesis".toList
  | .missingOperand op => some ("missing operand for ".toList ++ [op.symbol])
  | .strayParen paren => some ("unexpected ".toList ++ paren.symbol :: " in postfix sequence".toList)
  | .noValue => some "expression has no value".toList
  | .missingOperator => some "missing operator between operands".toList
  | .divisionByZero => none
  | .negativeExponent n => some (Decimal.text n ++ " is negative".toList)
  | .exponentTooLarge n => some (Decimal.text n ++ " is too large".toList)

/-- The words an error is reported with: its title, a dash and its detail. -/
def message (e : Error) : Text :=
  match e.detail with
  | none => e.kind.title
  | some detail => e.kind.title ++ " - ".toList ++ detail

example : (invalidName "x1".toList).message = "Invalid identifier - x1".toList := by decide
example : (missingOperand .sub).message = "Invalid expression - missing operand for -".toList := by
  decide

end Error

end Calculator
