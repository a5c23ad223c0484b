/-
  Sessions with other names for the variables.

  1. `Line.rename r t` — the line without its blanks, its variables renamed.  A line that begins with a
     slash stays as it is.  A renamed line is of the kind that the line is (`Declares.rename`,
     `IsExpression.rename`).
  2. `Error.rename r e` — the error that the renamed line gets in the place of `e`: the text that `e`
     repeats is renamed, everything else about it stays (`Error.kind_rename`, `Error.detail_rename`).
  3. `Store.Corresponds r s s'` — what is bound to `x` in `s` is bound to `r x` in `s'`, and nothing
     else is bound there.  Operands are then worth the same in both (`Corresponds.transfers`), and a
     definition on each side keeps the correspondence because `r` is injective (`Corresponds.define`).
  4. One line and its renamed form lead from stores that correspond to stores that correspond, with
     results that differ in the names only (`Corresponds.step_rename`).  By induction so do any number
     of lines (`Session.run_renamed`).
-/
import Calculator.Proofs.Renaming
import Calculator.Proofs.Step
import Calculator.Proofs.Result

namespace Calculator

open Text (Name)

variable {r : Name ↪ Name}

/-! ## Lines -/

namespace Line

open Text

/-- The line without its blanks and with new names for its variables, unless a slash begins it. -/
def rename (r : Name ↪ Name) (t : Text) : Text :=
  if t.strip.head? = some '/' then t else t.strip.rename r

theorem rename_of_slash {t : Text} (h : t.strip.head? = some '/') : rename r t = t := if_pos h

theorem rename_of_not_slash {t : Text} (h : t.strip.head? ≠ some '/') :
    rename r t = t.strip.rename r := if_neg h

theorem strip_rename {t : Text} (h : t.strip.head? ≠ some '/') :
    (rename r t).strip = t.strip.rename r := by
  rw [rename_of_not_slash h, strip_rename_strip]

/-- The two sides of a declaration are renamed separately. -/
theorem Declares.rename {t name value : Text} (h : Declares t name value) :
    Declares (rename r t) (name.strip.rename r) (value.strip.rename r) where
  eq_append := by rw [rename_of_not_slash h.head?_ne, h.strip_eq, rename_append_cons (by decide)]
  equals_notMem hmem := h.equals_notMem (mem_strip.1 (mem_of_mem_rename hmem (by decide))).1
  head?_ne := by
    rw [strip_rename h.head?_ne, Ne, head?_rename (by decide)]
    exact h.head?_ne

theorem IsExpression.rename {t : Text} (h : IsExpression t) : IsExpression (rename r t) := by
  obtain ⟨hne, hslash, hequals⟩ := isExpression_iff.1 h
  rw [isExpression_iff, strip_rename hslash, Ne, rename_eq_nil_iff, Ne, head?_rename (by decide)]
  exact ⟨hne, hslash, fun hmem => hequals (mem_of_mem_rename hmem (by decide))⟩

end Line

/-! ## Errors -/

namespace Error

/-- The error with new names in the text that it repeats.  Lines that begin with a slash keep their
    text, and so do the errors about them. -/
def rename (r : Name ↪ Name) : Error → Error
  | .malformed t => .malformed (t.rename r)
  | .invalidName t => .invalidName (t.rename r)
  | .invalidAssignment t => .invalidAssignment (t.rename r)
  | .unknownVariable x => .unknownVariable (x.rename r)
  | e => e

theorem kind_rename (e : Error) : (e.rename r).kind = e.kind := by
  cases e <;> rfl

/-- An error without any text of the line is a fixed message. -/
theorem rename_of_text?_eq_none {e : Error} (h : e.text? = none) : e.rename r = e := by
  cases e with
  | malformed | invalidName | invalidAssignment | unknownVariable | unknownCommand => cases h
  | unmatchedClosing | unmatchedOpening | missingOperand | strayParen | noValue | missingOperator
  | divisionByZero | negativeExponent | exponentTooLarge => rfl

theorem detail_rename (e : Error) :
    (e.rename r).detail =
      if e.text? = none ∨ e.kind = .unknownCommand then e.detail
      else e.detail.map (Text.rename r) := by
  cases e <;> rfl

end Error

/-! ## Stores -/

namespace Store

/-- The second store binds the new names to what the first one binds the old names to, and it binds
    nothing else. -/
structure Corresponds (r : Name ↪ Name) (s s' : Store) : Prop where
  get?_eq : ∀ x : Name, s'.get? (r x) = s.get? x
  exists_name : ∀ y, (s'.get? y).isSome → ∃ x : Name, y = r x

theorem corresponds_empty : Corresponds r ∅ ∅ where
  get?_eq x := by rw [get?_empty, get?_empty]
  exists_name y h := by rw [get?_empty] at h; cases h

namespace Corresponds

variable {s s' : Store}

/-- Different names stay different, so one definition on each side keeps the correspondence. -/
theorem define (h : Corresponds r s s') {x : Text} (hx : x.isName) (n : Int) :
    Corresponds r (s.define x n) (s'.define (x.rename r) n) where
  get?_eq y := by
    have hiff : (r y : Text) = r ⟨x, hx⟩ ↔ (y : Text) = x := by
      rw [Subtype.coe_inj, r.apply_eq_iff_eq, Subtype.ext_iff]
    rw [get?_define, get?_define, Text.rename_of_isName hx, h.get?_eq]
    simp only [hiff]
  exists_name y hy := by
    rw [get?_define] at hy
    split at hy
    · rename_i heq
      exact ⟨⟨x, hx⟩, by rw [heq, Text.rename_of_isName hx]⟩
    · exact h.exists_name y hy

theorem lookup_rename (h : Corresponds r s s') {x : Text} (hx : x.isName) :
    s'.lookup (x.rename r) = (s.lookup x).mapError (Error.rename r) := by
  have hget : s'.get? (x.rename r) = s.get? x := by
    rw [Text.rename_of_isName hx, h.get?_eq ⟨x, hx⟩]
  rw [lookup, hget, lookup]
  cases s.get? x <;> rfl

/-- Operands are worth the same under their new names. -/
theorem transfers (h : Corresponds r s s') :
    Expression.Transfers (Operand.rename r) (Error.rename r) s s' where
  value_eq x := by
    cases x with
    | number n => rfl
    | identifier x =>
      show Operand.value s' (.identifier (x.rename r)) = _
      rw [Operand.value, Text.isName_rename, Operand.value]
      cases hname : x.isName with
      | false => rfl
      | true => exact h.lookup_rename hname
  error_eq _ := Error.rename_of_text?_eq_none

end Corresponds

end Store

/-! ## Results -/

namespace Store.Corresponds

open Session Line

variable {s s' : Store}

theorem result_rename (h : Corresponds r s s') {t : Text} (hslash : t.strip.head? ≠ some '/') :
    Expression.result s' (Line.rename r t) =
      (Expression.result s t).mapError (Error.rename r) := by
  rw [Expression.result, strip_rename hslash, Expression.isWellShaped_rename, Expression.result]
  by_cases hshape : Expression.isWellShaped t.strip
  · rw [if_pos hshape, if_pos hshape]
    exact h.transfers.evaluate_eq (Expression.ofText_rename t)
  · rw [if_neg hshape, if_neg hshape]
    rfl

theorem declaredValue_rename (h : Corresponds r s s') (v : Text) :
    declaredValue s' (v.rename r) = (declaredValue s v).mapError (Error.rename r) := by
  by_cases hliteral : ∃ n, Decimal.Literal v n
  · obtain ⟨n, hn⟩ := hliteral
    rw [declaredValue_of_literal (Text.literal_rename_iff.2 hn), declaredValue_of_literal hn]
    rfl
  · have hrenamed : ∀ n, ¬ Decimal.Literal (v.rename r) n := fun n hn =>
      hliteral ⟨n, Text.literal_rename_iff.1 hn⟩
    rw [declaredValue_of_not_literal hrenamed, Text.isName_rename,
      declaredValue_of_not_literal (not_exists.1 hliteral)]
    cases hname : v.isName with
    | false => rfl
    | true => exact h.lookup_rename hname

/-! ## Steps -/

theorem declare_rename (h : Corresponds r s s') (name value : Text) :
    (declare s' (name.strip.rename r) (value.strip.rename r)).result =
        (declare s name value).result.mapError (Error.rename r) ∧
      Corresponds r (declare s name value).store
        (declare s' (name.strip.rename r) (value.strip.rename r)).store := by
  rw [declare, binding, Text.strip_rename_strip, Text.strip_rename_strip, Text.isName_rename,
    h.declaredValue_rename, declare, binding]
  cases hname : name.strip.isName with
  | false => exact ⟨rfl, h⟩
  | true =>
    cases declaredValue s value.strip with
    | error e => exact ⟨rfl, h⟩
    | ok n => exact ⟨rfl, h.define hname n⟩

/-- **One line.**  The renamed line gets the result that the line gets, with the new names in its error,
    and the stores go on corresponding. -/
theorem step_rename (h : Corresponds r s s') (t : Text) :
    (step s' (Line.rename r t)).result = (step s t).result.mapError (Error.rename r) ∧
      Corresponds r (step s t).store (step s' (Line.rename r t)).store := by
  rcases kind_cases t with hblank | hslash | ⟨name, value, hdeclares⟩ | hexpression
  · have hrename : (Line.rename r t).strip = [] := by
      rw [strip_rename (by rw [hblank]; decide), hblank, Text.rename_nil]
    rw [step_of_strip_eq_nil hrename, step_of_strip_eq_nil hblank]
    exact ⟨rfl, h⟩
  · rw [rename_of_slash hslash, step_of_slash hslash, step_of_slash hslash, obey, obey]
    split
    · exact ⟨rfl, h⟩
    · exact ⟨rfl, h⟩
  · rw [step_of_declares hdeclares.rename, step_of_declares hdeclares]
    exact h.declare_rename name value
  · have hslash : t.strip.head? ≠ some '/' := (isExpression_iff.1 hexpression).2.1
    rw [step_of_isExpression hexpression.rename, step_of_isExpression hexpression,
      h.result_rename hslash, Result.mapError_map]
    exact ⟨rfl, h⟩

/-! ## Runs -/

/-- **Many lines**, by induction: each of them finds stores that correspond. -/
theorem run_rename (h : Corresponds r s s') (ts : List Text) :
    results s' (ts.map (Line.rename r)) = (results s ts).map (Except.mapError (Error.rename r)) ∧
      Corresponds r (run s ts) (run s' (ts.map (Line.rename r))) := by
  induction ts generalizing s s' with
  | nil => exact ⟨rfl, h⟩
  | cons t ts ih =>
    obtain ⟨hresult, hstore⟩ := h.step_rename t
    obtain ⟨hresults, hrun⟩ := ih hstore
    refine ⟨?_, hrun⟩
    rw [List.map_cons, results_cons, hresult, hresults, results_cons, List.map_cons]

end Store.Corresponds

/-- **Renaming.**  A fresh session that is given all lines with other names for the variables replies
    step by step as it does to the lines themselves.  An error is of the same kind, with the new names
    in the text that it repeats and with the same words if it is a fixed message.  In the end the new
    names have the values of the old ones, and nothing else has a value. -/
theorem Session.run_renamed (r : Name ↪ Name) (ts : List Text) :
    results ∅ (ts.map (Line.rename r)) = (results ∅ ts).map (Except.mapError (Error.rename r)) ∧
      (∀ e : Error, (e.rename r).kind = e.kind ∧
        (e.rename r).detail =
          if e.text? = none ∨ e.kind = .unknownCommand then e.detail
          else e.detail.map (Text.rename r)) ∧
      (∀ x : Name, (run ∅ (ts.map (Line.rename r))).get? (r x) = (run ∅ ts).get? x) ∧
      ∀ y, ((run ∅ (ts.map (Line.rename r))).get? y).isSome → ∃ x : Name, y = r x := by
  obtain ⟨hresults, hrun⟩ := Store.corresponds_empty.run_rename (r := r) ts
  exact ⟨hresults, fun e => ⟨e.kind_rename, e.detail_rename⟩, hrun.get?_eq, hrun.exists_name⟩

end Calculator
