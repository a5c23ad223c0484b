/-
  The command line: which way of working the arguments of the program ask for.

  1. `Argument` — what an argument is by its look.  A long option is its whole name, with a value after
     an equals sign if it has one.  A short option is one letter, and what follows the letter is its
     value, less an equals sign in front.
  2. `Choice` — the options given so far.  None may be given twice.
  3. `Invocation` — what is asked for in the end.  Arguments are read from left to right, and the first
     that decides the matter does: a wish for help or for the version, or a fault.
  4. The value of `-c` may be an argument of its own, which must not look like an option.

  The calculator declares the options `-c` and `--no-history` and what follows from them
  (`Choice.invocation`).  The options for help and for the version, and how arguments are told apart,
  joined, repeated and refused, are the documented rules of the library that reads the arguments.
-/
import Calculator.Text

namespace Calculator

/-- What the arguments of the program ask for. -/
inductive Invocation
  | version
  | help
  /-- Process this line and nothing else. -/
  | oneShot (line : Text)
  /-- Process lines from standard input; at a prompt, with a history or without one. -/
  | session (keepsHistory : Bool)
  /-- The arguments make no sense. -/
  | rejected
  deriving DecidableEq, Repr

namespace CommandLine

/-! ## One argument -/

/-- What an argument is by its look. -/
inductive Argument
  /-- The line to process, or the demand for the next argument to be it. -/
  | command (line? : Option Text)
  | noHistory
  | version
  | help
  /-- The mark behind which no argument is an option. -/
  | endOfOptions
  /-- Anything else, none of which the program knows. -/
  | unknown
  deriving DecidableEq, Repr

/-- The text behind the first equals sign, if there is one. -/
def valueOf? (t : Text) : Option Text := (t.dropWhile (· != '=')).tail?

/-- The argument that a long option is; only the line to process is a value. -/
def longOption (t : Text) : Argument :=
  let name := t.takeWhile (· != '=')
  let value? := valueOf? t
  if name = "command".toList then .command value?
  else if value?.isSome then .unknown
  else if name = "no-history".toList then .noHistory
  else if name = "version".toList then .version
  else if name = "help".toList then .help
  else .unknown

/-- The line that is written behind the letter of its option. -/
def attachedLine : Text → Option Text
  | [] => none
  | '=' :: t => some t
  | t => some t

/-- The argument that a short option with this letter is, and what follows the letter. -/
def shortOption (letter : Char) (t : Text) : Argument :=
  match letter with
  | 'c' => .command (attachedLine t)
  | 'V' => .version
  | 'h' => .help
  | _ => .unknown

/-- The argument that a text is. -/
def Argument.ofText : Text → Argument
  | ['-', '-'] => .endOfOptions
  | '-' :: '-' :: t => longOption t
  | '-' :: letter :: t => shortOption letter t
  | _ => .unknown

/-- Whether a text looks like an option; a single dash does not. -/
def looksLikeOption : Text → Bool
  | '-' :: _ :: _ => true
  | _ => false

/-! ## All arguments -/

/-- The options given so far. -/
structure Choice where
  line? : Option Text
  noHistory : Bool

/-- What is asked for when all arguments are read. -/
def Choice.invocation (choice : Choice) : Invocation :=
  match choice.line? with
  | some line => .oneShot line
  | none => .session !choice.noHistory

/-- What is asked for by the options given so far and the arguments that remain. -/
def parse (choice : Choice) : List Text → Invocation
  | [] => choice.invocation
  | argument :: rest =>
    match Argument.ofText argument with
    | .command (some line) =>
      if choice.line?.isSome then .rejected else parse { choice with line? := some line } rest
    | .command none =>
      match rest with
      | line :: rest =>
        if choice.line?.isSome || looksLikeOption line then .rejected
        else parse { choice with line? := some line } rest
      | [] => .rejected
    | .noHistory =>
      if choice.noHistory then .rejected else parse { choice with noHistory := true } rest
    | .version => .version
    | .help => .help
    | .endOfOptions => if rest.isEmpty then choice.invocation else .rejected
    | .unknown => .rejected

/-- What the arguments of the program ask for. -/
def invocation (arguments : List Text) : Invocation := parse ⟨none, false⟩ arguments

example : invocation ["-c=1".toList, "--no-history".toList] = .oneShot ['1'] := by decide
example : invocation ["--no-history".toList] = .session false := by decide
example : invocation ["-c".toList, ['1'], "--command=2".toList] = .rejected := by decide

end CommandLine

end Calculator
