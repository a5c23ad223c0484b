/-
  The log: what the calculator notes down about its own work.

  1. `Event` — one constructor for each thing worth noting.  The first three say how a line was
     understood, `define` goes before every change of the store, the others follow an expression
     through its evaluation.
  2. `Event.level` — how much an event matters.
  3. `Event.message` — the words of an event.
-/
import Calculator.Token
import Calculator.Text.Quoted

namespace Calculator

/-- The things that are noted down. -/
inductive Event
  /-- A trimmed line was taken as a command. -/
  | command (line : Text)
  /-- A trimmed line was taken as a declaration. -/
  | declaration (line : Text)
  /-- A trimmed line was taken as an expression. -/
  | expression (line : Text)
  /-- A name is about to be bound to a value. -/
  | define (name : Text) (value : Int)
  /-- A text was normalized. -/
  | normalized (before after : Text)
  /-- The tokens of an expression were put in postorder. -/
  | postorder (tokens : List Token)
  /-- An evaluation ended with values below the last one, given earliest first. -/
  | surplus (values : List Int)
  deriving DecidableEq, Repr

namespace Event

/-- How much an event matters. -/
inductive Level
  | trace | debug | warn
  deriving DecidableEq, Repr

/-- Values without an operator between them are a warning, the texts of normalization only a trace. -/
def level : Event → Level
  | .normalized .. => .trace
  | .surplus _ => .warn
  | _ => .debug

/-- The words of an event. -/
def message : Event → Text
  | .command line => "command: ".toList ++ line
  | .declaration line => "declaration: ".toList ++ line
  | .expression line => "expression: ".toList ++ line
  | .define name value => "define ".toList ++ name ++ " = ".toList ++ Decimal.text value
  | .normalized before after =>
    "normalized ".toList ++ Text.quoted before ++ " to ".toList ++ Text.quoted after
  | .postorder tokens => "postfix: ".toList ++ [' '].intercalate (tokens.map Token.text)
  | .surplus values =>
    "evaluation ended with surplus values [".toList ++
      [',', ' '].intercalate (values.map Decimal.text) ++ [']']

example : (surplus [1, -2]).message = "evaluation ended with surplus values [1, -2]".toList := by
  decide

end Event

end Calculator
