/-
  Dialogues: lines go in, text comes out on two channels, until one line or the other end stops it.

  1. `Turn` — what happens at one line, or over many: what is put out, what is reported, the state
     afterwards, and the exit code if the dialogue is over.
  2. `Turn.andThen` — one turn after another; a turn that ends the dialogue has none after it.
  3. `Turn.all` — the turns of many lines as one turn.  Lines behind the one that ends the dialogue
     have no effect (`all_of_ended`).
  4. `Turn.ofStep` — what a session's step is in a dialogue: an output goes to the one channel, the
     message of an error to the other, each on lines of its own, and an error ends nothing.
  5. `warnings` — the part of the log that is put out before an output, on the same channel.  That no
     step of a session has any is a theorem about dialogues (`warnings_step`), not an assumption here.
-/
import Calculator.Session
import Calculator.Bytes

namespace Calculator.Console

/-- What a program leaves behind: its exit code, its output and its reports. -/
structure Outcome where
  code : Nat
  out : Text
  err : Text
  deriving DecidableEq, Repr

/-- What happens at one line of a dialogue, or over many. -/
structure Turn (σ : Type) where
  /-- What is put out. -/
  out : Text
  /-- What is reported. -/
  err : Text
  /-- The state afterwards. -/
  state : σ
  /-- The exit code, if the dialogue is over. -/
  exit? : Option Nat

/-! ## The log -/

/-- What is put out of the log of a step, at the level that logs have by default: its warnings, each on
    a line of its own, and nothing that matters less.  The time and the place that the logging library
    writes in front of a warning are left out. -/
def warnings (done : Step) : Text :=
  (done.events.filter fun ev => ev.level == .warn).flatMap fun ev => ev.message.onLine

/-! ## Turns -/

namespace Turn

variable {σ : Type}

/-- The turn at which nothing happens. -/
def stay (state : σ) : Turn σ := ⟨[], [], state, none⟩

/-- A turn, and another after it unless the dialogue is over. -/
def andThen (t : Turn σ) (next : σ → Turn σ) : Turn σ :=
  match t.exit? with
  | some _ => t
  | none =>
    let u := next t.state
    ⟨t.out ++ u.out, t.err ++ u.err, u.state, u.exit?⟩

/-- The turns of lines, one after the other, as one turn. -/
def all (read : σ → Bytes → Turn σ) (state : σ) : List Bytes → Turn σ
  | [] => stay state
  | line :: lines => (read state line).andThen fun state => all read state lines

/-- What a dialogue leaves behind; one that is not ended from within has gone well. -/
def outcome (t : Turn σ) : Outcome := ⟨t.exit?.getD 0, t.out, t.err⟩

@[simp] theorem andThen_of_ended {t : Turn σ} {code : Nat} (h : t.exit? = some code)
    (next : σ → Turn σ) : t.andThen next = t := by
  simp [andThen, h]

/-- Lines behind the one that ends a dialogue have no effect. -/
theorem all_of_ended {read : σ → Bytes → Turn σ} {state : σ} {line : Bytes} {code : Nat}
    (h : (read state line).exit? = some code) (lines : List Bytes) :
    all read state (line :: lines) = read state line :=
  andThen_of_ended h _

/-- The turn that a session's step is.  Its warnings come first. -/
def ofStep (done : Step) : Turn Store :=
  match done.result with
  | .ok .exit => ⟨warnings done, [], done.store, some 0⟩
  | .ok reply =>
    ⟨warnings done ++ (reply.output?.map Text.onLine).getD [], [], done.store, none⟩
  | .error e => ⟨warnings done, e.message.onLine, done.store, none⟩

end Turn

end Calculator.Console
