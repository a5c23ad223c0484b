/-
  Tokens in postorder: every operator behind its two operands, and no parentheses.

  1. `Conversion` — the tokens already in postorder, latest first, and a stack of what waits: operators
     whose right operand is not complete yet, and opening parentheses that are not closed yet.
  2. `release` moves operators from the top of the stack to the output, as long as a condition holds
     of them; it never passes a parenthesis.
  3. `feed` takes one token.  An operand goes straight to the output.  An operator first releases those
     that bind at least as tightly as it does, which makes every operator associate to the left.  A
     closing parenthesis releases everything down to the opening one, and both disappear.
  4. `finish` releases the rest.  The only errors are parentheses without a partner.
-/
import Calculator.Token
import Calculator.Error

namespace Calculator.Expression

/-- What waits on the stack of a conversion. -/
inductive Pending
  | operator (op : Operator)
  | opening
  deriving DecidableEq, Repr

/-- A conversion under way. -/
structure Conversion where
  /-- The tokens in postorder so far, latest first. -/
  output : List Token
  /-- The operators and parentheses that wait, latest first. -/
  stack : List Pending
  deriving DecidableEq, Repr

namespace Conversion

/-- The conversion before its first token. -/
def start : Conversion := ⟨[], []⟩

/-- Moves operators from the top of the stack to the output while `yields` holds of them. -/
def release (yields : Operator → Bool) (output : List Token) : List Pending → Conversion
  | .operator top :: stack =>
    if yields top then release yields (.operator top :: output) stack
    else ⟨output, .operator top :: stack⟩
  | stack => ⟨output, stack⟩

/-- Whether a waiting operator goes before a new one: it does unless the new one binds tighter. -/
def yieldsTo (op top : Operator) : Bool := op.precedence ≤ top.precedence

/-- Takes one token. -/
def feed (c : Conversion) : Token → Except Error Conversion
  | .operand x => .ok { c with output := .operand x :: c.output }
  | .operator op =>
    let c := release (yieldsTo op) c.output c.stack
    .ok { c with stack := .operator op :: c.stack }
  | .paren .opening => .ok { c with stack := .opening :: c.stack }
  | .paren .closing =>
    match release (fun _ => true) c.output c.stack with
    | ⟨output, .opening :: stack⟩ => .ok ⟨output, stack⟩
    | _ => .error .unmatchedClosing

/-- Ends a conversion: the tokens in postorder, first to last. -/
def finish (c : Conversion) : Except Error (List Token) :=
  match release (fun _ => true) c.output c.stack with
  | ⟨output, []⟩ => .ok output.reverse
  | _ => .error .unmatchedOpening

/-! ## What a release leaves -/

@[simp] theorem release_nil (yields : Operator → Bool) (output : List Token) :
    release yields output [] = ⟨output, []⟩ := rfl

@[simp] theorem release_opening (yields : Operator → Bool) (output : List Token)
    (stack : List Pending) :
    release yields output (.opening :: stack) = ⟨output, .opening :: stack⟩ := rfl

end Conversion

/-! ## All tokens -/

/-- The tokens of an expression in postorder. -/
def toPostorder (tokens : List Token) : Except Error (List Token) :=
  tokens.foldlM Conversion.feed .start >>= Conversion.finish

end Calculator.Expression
