/-
  Other operands in the same places.

  1. The conversion moves operands and never looks at them: it can be done before or after every
     operand is replaced by another one (`toPostorder_map`).
  2. `Transfers f g s s'` — in the store `s'` the operand `f x` is worth what `x` is worth in `s`, with
     `g` applied to the error if it has one.  Then so are all tokens, be they a postorder or not
     (`Transfers.value_map`), and all texts whose tokens differ in this way (`Transfers.evaluate_eq`).
  3. `Operand.resolve` puts in the value of a variable for its name.  So an evaluation in a store is one
     in the empty store, of tokens that hold all that was read from the store (`evaluate_resolve`).
-/
import Calculator.Proofs.Balance
import Calculator.Proofs.Evaluation

namespace Calculator

/-- Puts another operand in the place of an operand. -/
def Token.map (f : Operand → Operand) : Token → Token
  | .operand x => .operand (f x)
  | tok => tok

namespace Expression

open Conversion

/-! ## Conversions -/

/-- A conversion with other operands in its output. -/
def Conversion.map (f : Operand → Operand) (c : Conversion) : Conversion :=
  ⟨c.output.map (Token.map f), c.stack⟩

theorem map_append_operators (f : Operand → Operand) (ops : List Operator) (tokens : List Token) :
    ((ops.map Token.operator).reverse ++ tokens).map (Token.map f) =
      (ops.map Token.operator).reverse ++ tokens.map (Token.map f) := by
  rw [List.map_append, List.map_reverse, List.map_map]
  rfl

theorem release_map (f : Operand → Operand) (yields : Operator → Bool) (output : List Token)
    (stack : List Pending) :
    release yields (output.map (Token.map f)) stack = (release yields output stack).map f := by
  obtain ⟨ops, rest, -, -, -, hrel⟩ := exists_release yields stack
  rw [hrel, hrel, Conversion.map, map_append_operators]

/-- No step looks at an operand. -/
theorem feed_map (f : Operand → Operand) (c : Conversion) (tok : Token) :
    feed (c.map f) (tok.map f) = (feed c tok).map (Conversion.map f) := by
  cases tok with
  | operand x => rfl
  | operator op =>
    show feed (c.map f) (.operator op) = _
    simp only [feed]
    rw [Conversion.map, release_map]
    rfl
  | paren p =>
    cases p with
    | opening => rfl
    | closing =>
      show feed (c.map f) (.paren .closing) = _
      obtain ⟨output, stack⟩ := c
      obtain ⟨ops, rest, rfl, hrest, -⟩ := exists_release_all stack
      rcases hrest with rfl | ⟨below, rfl⟩
      · rw [List.append_nil, Conversion.map, feed_closing_of_operators, feed_closing_of_operators]
        rfl
      · rw [Conversion.map, feed_closing, feed_closing, ← map_append_operators]
        rfl

theorem foldlM_feed_map (f : Operand → Operand) (tokens : List Token) (c : Conversion) :
    (tokens.map (Token.map f)).foldlM feed (c.map f) =
      (tokens.foldlM feed c).map (Conversion.map f) :=
  Result.foldlM_map_of_step (feed_map f) tokens c

theorem finish_map (f : Operand → Operand) (c : Conversion) :
    finish (c.map f) = (finish c).map (List.map (Token.map f)) := by
  obtain ⟨output, stack⟩ := c
  obtain ⟨ops, rest, rfl, hrest, -⟩ := exists_release_all stack
  rcases hrest with rfl | ⟨below, rfl⟩
  · rw [List.append_nil, Conversion.map, finish_operators, finish_operators, ← map_append_operators,
      ← List.map_reverse]
    rfl
  · rw [Conversion.map, finish_opening, finish_opening]
    rfl

/-- Operands can be replaced before or after the conversion. -/
theorem toPostorder_map (f : Operand → Operand) (tokens : List Token) :
    toPostorder (tokens.map (Token.map f)) = (toPostorder tokens).map (List.map (Token.map f)) := by
  have hrun : (tokens.map (Token.map f)).foldlM feed start =
      (tokens.foldlM feed start).map (Conversion.map f) := foldlM_feed_map f tokens start
  rw [toPostorder, hrun, toPostorder]
  cases tokens.foldlM feed start with
  | error e => rfl
  | ok c => exact finish_map f c

end Expression

/-! ## Values -/

/-- The text of the line that an error repeats, if it repeats any. -/
def Error.text? : Error → Option Text
  | .malformed t | .invalidName t | .invalidAssignment t | .unknownVariable t | .unknownCommand t =>
    some t
  | _ => none

namespace Expression

/-- An operand in one store is worth its image in another one, errors being mapped as well; errors
    that repeat no text stay as they are. -/
structure Transfers (f : Operand → Operand) (g : Error → Error) (s s' : Store) : Prop where
  value_eq : ∀ x : Operand, (f x).value s' = (x.value s).mapError g
  error_eq : ∀ e : Error, e.text? = none → g e = e

theorem text?_of_apply_eq_error {op : Operator} {lhs rhs : Int} {e : Error}
    (h : op.apply lhs rhs = .error e) : e.text? = none := by
  rcases cases_of_apply_eq_error h with rfl | rfl | rfl <;> rfl

/-- A conversion fails for its parentheses, and repeats no text. -/
theorem text?_of_toPostorder_eq_error {tokens : List Token} {e : Error}
    (h : toPostorder tokens = .error e) : e.text? = none := by
  by_cases hover : Overclosed 0 (Token.parens tokens)
  · rw [toPostorder_of_overclosed hover] at h
    cases h
    rfl
  · rcases toPostorder_of_not_overclosed hover with ⟨-, herror⟩ | ⟨-, post, hok⟩
    · rw [herror] at h
      cases h
      rfl
    · rw [hok] at h
      cases h

namespace Transfers

variable {f : Operand → Operand} {g : Error → Error} {s s' : Store}

theorem apply_eq (h : Transfers f g s s') (op : Operator) (lhs rhs : Int) :
    op.apply lhs rhs = (op.apply lhs rhs).mapError g := by
  cases happly : op.apply lhs rhs with
  | ok n => rfl
  | error e =>
    show _ = Except.error (g e)
    rw [h.error_eq e (text?_of_apply_eq_error happly)]

theorem push_map (h : Transfers f g s s') (values : List Int) (tok : Token) :
    push s' values (tok.map f) = (push s values tok).mapError g := by
  cases tok with
  | operand x =>
    show ((f x).value s' >>= fun n => .ok (n :: values)) = _
    rw [h.value_eq x, push, Result.mapError_bind]
    rfl
  | operator op =>
    rcases values with _ | ⟨rhs, _ | ⟨lhs, rest⟩⟩
    · exact congrArg Except.error (h.error_eq (.missingOperand op) rfl).symm
    · exact congrArg Except.error (h.error_eq (.missingOperand op) rfl).symm
    · show (op.apply lhs rhs >>= fun n => .ok (n :: rest)) =
        (op.apply lhs rhs >>= fun n => .ok (n :: rest)).mapError g
      rw [Result.mapError_bind, ← h.apply_eq]
      rfl
  | paren p => exact congrArg Except.error (h.error_eq (.strayParen p) rfl).symm

/-- All tokens are worth what they were before, in the other store. -/
theorem value_map (h : Transfers f g s s') (tokens : List Token) :
    value s' (tokens.map (Token.map f)) = (value s tokens).mapError g := by
  have hvalues : values s' (tokens.map (Token.map f)) = (values s tokens).mapError g :=
    Result.foldlM_map_eq_mapError h.push_map tokens []
  rw [value, hvalues, value, Result.mapError_bind]
  congr 1
  funext ns
  rcases ns with _ | ⟨n, _ | ⟨m, ns⟩⟩
  · exact congrArg Except.error (h.error_eq .noValue rfl).symm
  · rfl
  · exact congrArg Except.error (h.error_eq .missingOperator rfl).symm

theorem toPostorder_bind_map (h : Transfers f g s s') (tokens : List Token) :
    toPostorder (tokens.map (Token.map f)) >>= value s' =
      (toPostorder tokens >>= value s).mapError g := by
  rw [toPostorder_map]
  cases hpost : toPostorder tokens with
  | error e => exact congrArg Except.error (h.error_eq e (text?_of_toPostorder_eq_error hpost)).symm
  | ok post => exact h.value_map post

/-- So are texts whose tokens differ in their operands only. -/
theorem evaluate_eq (h : Transfers f g s s') {t t' : Text}
    (ht : ofText t' = (ofText t).map (Token.map f)) :
    evaluate s' t' = (evaluate s t).mapError g := by
  rw [evaluate, postorder, ht]
  exact h.toPostorder_bind_map (ofText t)

end Transfers

end Expression

/-! ## Variables by their values -/

/-- Puts the value of a variable in the place of its name. -/
def Operand.resolve (s : Store) : Operand → Operand
  | .number n => .number n
  | .identifier x =>
    match if x.isName then s.get? x else none with
    | some n => .number n
    | none => .identifier x

namespace Expression

/-- What is resolved needs no store, unless it has no value in any case. -/
theorem transfers_resolve (s : Store) : Transfers (Operand.resolve s) id s ∅ where
  value_eq x := by
    rw [Result.mapError_id]
    cases x with
    | number n => rfl
    | identifier x =>
      cases hname : x.isName with
      | false => simp [Operand.resolve, Operand.value, hname]
      | true =>
        cases hx : s.get? x with
        | none => simp [Operand.resolve, Operand.value, Store.lookup, hname, hx]
        | some n => simp [Operand.resolve, Operand.value, Store.lookup, hname, hx]
  error_eq _ _ := rfl

/-- An evaluation can look up all variables before it begins. -/
theorem evaluate_resolve (s : Store) (t : Text) :
    evaluate s t = toPostorder ((ofText t).map (Token.map (Operand.resolve s))) >>= value ∅ := by
  rw [(transfers_resolve s).toPostorder_bind_map, Result.mapError_id]
  rfl

end Expression

end Calculator
