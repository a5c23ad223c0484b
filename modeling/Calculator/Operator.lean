/-
  The five binary operators and the two parentheses: what is written with one character of its own.

  1. `Operator` — sum, difference, product, quotient and power, each with its `symbol` and its
     `precedence`.  All five associate to the left, the power included.
  2. `Paren` — the opening and the closing parenthesis.
  3. `ofChar?` reads a symbol and is a left inverse of `symbol` (`ofChar?_symbol`); what it reads is
     the symbol of what it gives (`symbol_of_ofChar?`).
-/
import Calculator.Text

namespace Calculator

/-! ## Operators -/

/-- The binary operators. -/
inductive Operator
  | add | sub | mul | div | pow
  deriving DecidableEq, Repr

namespace Operator

/-- The character an operator is written with. -/
def symbol : Operator → Char
  | .add => '+'
  | .sub => '-'
  | .mul => '*'
  | .div => '/'
  | .pow => '^'

/-- The operator that a character stands for. -/
def ofChar? : Char → Option Operator
  | '+' => some .add
  | '-' => some .sub
  | '*' => some .mul
  | '/' => some .div
  | '^' => some .pow
  | _ => none

/-- How tightly an operator binds its operands: the greater, the tighter. -/
def precedence : Operator → Nat
  | .add | .sub => 0
  | .mul | .div => 1
  | .pow => 3

@[simp] theorem ofChar?_symbol (op : Operator) : ofChar? op.symbol = some op := by
  cases op <;> rfl

theorem symbol_of_ofChar? {c : Char} {op : Operator} (h : ofChar? c = some op) : op.symbol = c := by
  unfold ofChar? at h
  split at h <;> simp_all <;> subst h <;> rfl

/-- Operators are told apart by their symbols. -/
theorem eq_of_symbol_eq {op op' : Operator} (h : op.symbol = op'.symbol) : op = op' := by
  have hread : ofChar? op.symbol = ofChar? op'.symbol := by rw [h]
  simpa using hread

end Operator

/-! ## Parentheses -/

/-- The parentheses. -/
inductive Paren
  | opening | closing
  deriving DecidableEq, Repr

namespace Paren

/-- The character a parenthesis is written with. -/
def symbol : Paren → Char
  | .opening => '('
  | .closing => ')'

/-- The parenthesis that a character stands for. -/
def ofChar? : Char → Option Paren
  | '(' => some .opening
  | ')' => some .closing
  | _ => none

@[simp] theorem ofChar?_symbol (p : Paren) : ofChar? p.symbol = some p := by
  cases p <;> rfl

theorem symbol_of_ofChar? {c : Char} {p : Paren} (h : ofChar? c = some p) : p.symbol = c := by
  unfold ofChar? at h
  split at h <;> simp_all <;> subst h <;> rfl

end Paren

end Calculator
