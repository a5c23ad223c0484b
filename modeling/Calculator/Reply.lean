/-
  Replies: what a session answers to a line in which nothing is wrong.

  1. `Reply` — the four replies.  A value is kept as the integer it is.
  2. `Reply.output?` — the text that a reply puts out, if any.
  3. `Command.reply` — the reply to each command.
-/
import Calculator.Command
import Calculator.Decimal

namespace Calculator

/-- What a session answers to a line that has no error. -/
inductive Reply
  /-- There is nothing to say. -/
  | silent
  /-- An expression has this value. -/
  | value (n : Int)
  /-- The user asked for help. -/
  | help
  /-- The session ends. -/
  | exit
  deriving DecidableEq, Repr

namespace Reply

/-- The lines of the help text. -/
def bannerLines : List String :=
  ["This program can add and subtract numbers.",
   "You can put as many pluses and minuses between numbers as you like: an even",
   "number of minuses is a plus, an odd number is a minus.",
   "Numbers can be multiplied (*), divided (/) and raised to a power (^), and",
   "parentheses group subexpressions.",
   "There is no limit on the size of numbers.",
   "Store values in variables with `name = value`, where value is a number or",
   "another variable, and use them in later expressions.",
   "Commands: /help shows this text, /exit ends the session."]

/-- The help text. -/
def banner : Text := ['\n'].intercalate (bannerLines.map String.toList)

/-- The text that a reply puts out. -/
def output? : Reply → Option Text
  | .value n => some (Decimal.text n)
  | .help => some banner
  | .silent | .exit => none

end Reply

/-- The reply to a command. -/
def Command.reply : Command → Reply
  | .help => .help
  | .exit => .exit

end Calculator
