/-
  The value of tokens in postorder.

  1. `Operand.value` — a number is its own value; an identifier must be a name, and the store must bind
     it.
  2. `push` takes one token to a stack of values, latest first: an operand adds its value, an operator
     replaces the two values on top by its result.  A parenthesis has no place here.
  3. `value` runs over all tokens and asks for exactly one value at the end.  `surplus` is what is left
     below the last value otherwise.

  Any list of tokens may come in, so each way in which it fails to be a postorder has its error.
-/
import Calculator.Token
import Calculator.Operator.Arithmetic
import Calculator.Store
import Calculator.Text.Word

namespace Calculator

/-- The value of an operand: that of an identifier is what the store binds it to. -/
def Operand.value (store : Store) : Operand → Except Error Int
  | .number n => .ok n
  | .identifier name =>
    if name.isName then store.lookup name else .error (.invalidName name)

namespace Expression

/-- Takes one token to a stack of values. -/
def push (store : Store) (values : List Int) : Token → Except Error (List Int)
  | .operand x => do return (← x.value store) :: values
  | .operator op =>
    match values with
    | rhs :: lhs :: rest => do return (← op.apply lhs rhs) :: rest
    | _ => .error (.missingOperand op)
  | .paren p => .error (.strayParen p)

/-- The values that tokens leave on an empty stack, latest first. -/
def values (store : Store) (tokens : List Token) : Except Error (List Int) :=
  tokens.foldlM (push store) []

/-- The one value that tokens in postorder have. -/
def value (store : Store) (tokens : List Token) : Except Error Int :=
  values store tokens >>= fun
    | [] => .error .noValue
    | [n] => .ok n
    | _ => .error .missingOperator

/-- The values that are left below the last one, earliest first. -/
def surplus (store : Store) (tokens : List Token) : List Int :=
  match values store tokens with
  | .ok (_ :: below) => below.reverse
  | _ => []

end Expression

end Calculator
