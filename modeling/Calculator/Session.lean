/-
  A session: lines come in one after the other, each gets a reply and may change the variables.

  1. `declaredValue` — what the right side of a declaration stands for: an integer, or the present
     value of a variable.  No arithmetic is done there.
  2. `Step` — what a line comes to: its result, the store after it and what was noted down.  The store
     is the whole state of a session, and only a successful declaration changes it.
  3. `Session.step` processes one line, `Session.steps` any number of them.
-/
import Calculator.Line
import Calculator.Reply
import Calculator.Expression

namespace Calculator

/-! ## Steps -/

/-- What a line comes to. -/
structure Step where
  /-- The reply, or what is wrong with the line. -/
  result : Except Error Reply
  /-- The store after the line. -/
  store : Store
  /-- The notes made on the way, in order. -/
  events : List Event

namespace Session

/-! ## Declarations -/

/-- The value that the stripped right side of a declaration stands for.  A literal that could not be
    read would be refused with the reason; it always can be. -/
def declaredValue (store : Store) (t : Text) : Except Error Int :=
  if Decimal.isInteger t then
    (Decimal.read t).mapError fun e => .invalidAssignment (t ++ " - ".toList ++ e.reason)
  else if t.isName then store.lookup t
  else .error (.invalidAssignment t)

/-- The binding that the two stripped sides of a declaration stand for. -/
def binding (store : Store) (name value : Text) : Except Error (Text × Int) :=
  if name.isName then (declaredValue store value).map fun n => (name, n)
  else .error (.invalidName name)

/-! ## One line -/

/-- The step that a command is. -/
def obey (store : Store) (t : Text) : Step :=
  match Command.ofText? t with
  | some c => ⟨.ok c.reply, store, []⟩
  | none => ⟨.error (.unknownCommand t), store, []⟩

/-- The step that a declaration is. -/
def declare (store : Store) (name value : Text) : Step :=
  match binding store name.strip value.strip with
  | .ok (x, n) => ⟨.ok .silent, store.define x n, [.define x n]⟩
  | .error e => ⟨.error e, store, []⟩

/-- The step that an expression is. -/
def calculate (store : Store) (t : Text) : Step :=
  ⟨(Expression.result store t).map .value, store, Expression.resultNotes store t⟩

/-- The step that a line is, but for the note about what it was taken for. -/
def perform (store : Store) : Line → Step
  | .blank => ⟨.ok .silent, store, []⟩
  | .command t => obey store t
  | .declaration name value => declare store name value
  | .expression t => calculate store t

/-- Processes one line of text. -/
def step (store : Store) (t : Text) : Step :=
  let line := Line.ofText t
  let done := perform store line
  { done with events := line.notes ++ done.events }

/-! ## Many lines -/

/-- Processes lines of text one after the other, whatever their results. -/
def steps (store : Store) : List Text → List Step
  | [] => []
  | t :: ts =>
    let done := step store t
    done :: steps done.store ts

/-- The store after some lines. -/
def run (store : Store) (ts : List Text) : Store := ts.foldl (fun s t => (step s t).store) store

@[simp] theorem run_cons (store : Store) (t : Text) (ts : List Text) :
    run store (t :: ts) = run (step store t).store ts := rfl

theorem run_append (store : Store) (ts us : List Text) :
    run store (ts ++ us) = run (run store ts) us := List.foldl_append ..

end Session

end Calculator
