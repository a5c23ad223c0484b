/-
  The evaluation of postorders: one token, many tokens, one value at the end.

  1. `value_eq_ok_iff` — tokens have a value when they leave exactly that value on an empty stack.
  2. A token that is taken adds a value or replaces two by one (`push_cases`).  No step looks further
     down than its operands: what succeeds on some values succeeds above any others and leaves them
     alone (`foldlM_push_append`).
  3. So tokens with a value add it to whatever is on the stack (`foldlM_push_of_value`).
  4. Trees fail for what their operands and operators mean (`Tree.computational_of_value_eq_error`),
     never for the way they are written (`Tree.kind_of_value_eq_error`).
-/
import Calculator.Expression.Tree
import Calculator.Proofs.Result

namespace Calculator

namespace Error

/-- The errors that a computation ends in, for what an operand stands for or what an operator admits. -/
inductive Computational : Error → Prop
  | invalidName {name : Text} : Computational (.invalidName name)
  | unknownVariable {name : Text} : Computational (.unknownVariable name)
  | divisionByZero : Computational .divisionByZero
  | negativeExponent {n : Int} : Computational (.negativeExponent n)
  | exponentTooLarge {n : Int} : Computational (.exponentTooLarge n)

theorem Computational.kind_ne {e : Error} (h : e.Computational) :
    e.kind ≠ .invalidExpression ∧ e.kind ≠ .invalidAssignment := by
  cases h <;> exact ⟨nofun, nofun⟩

end Error

namespace Expression

/-! ## One value -/

theorem value_eq_ok_iff {store : Store} {tokens : List Token} {n : Int} :
    value store tokens = .ok n ↔ values store tokens = .ok [n] := by
  rw [value, Result.bind_eq_ok_iff]
  constructor
  · rintro ⟨ns, hns, h⟩
    -- only a single value is the value of the tokens
    rcases ns with _ | ⟨m, _ | ⟨m', ns⟩⟩
    · cases h
    · cases h; exact hns
    · cases h
  · intro h
    exact ⟨[n], h, rfl⟩

/-- The value depends on what is left on the stack alone. -/
theorem value_congr {store : Store} {tokens tokens' : List Token}
    (h : values store tokens = values store tokens') :
    value store tokens = value store tokens' := by
  rw [value, value, h]

/-! ## One token -/

/-- All that a token can do to the values: an operand adds its own, an operator replaces two by one. -/
theorem push_cases {store : Store} {values values' : List Int} {tok : Token}
    (h : push store values tok = .ok values') :
    (∃ x n, tok = .operand x ∧ x.value store = .ok n ∧ values' = n :: values) ∨
      ∃ op lhs rhs rest n, tok = .operator op ∧ values = rhs :: lhs :: rest ∧
        op.apply lhs rhs = .ok n ∧ values' = n :: rest := by
  cases tok with
  | operand x =>
    obtain ⟨n, hn, hvalues⟩ := Result.bind_eq_ok_iff.1 h
    cases hvalues
    exact Or.inl ⟨x, n, rfl, hn, rfl⟩
  | operator op =>
    rcases values with _ | ⟨rhs, _ | ⟨lhs, rest⟩⟩
    · cases h
    · cases h
    · obtain ⟨n, hn, hvalues⟩ := Result.bind_eq_ok_iff.1 h
      cases hvalues
      exact Or.inr ⟨op, lhs, rhs, rest, n, rfl, rfl, hn, rfl⟩
  | paren p => cases h

/-! ## What lies below -/

/-- A step that succeeds leaves alone what lies below its operands. -/
theorem push_append {store : Store} {values values' : List Int} {tok : Token}
    (h : push store values tok = .ok values') (below : List Int) :
    push store (values ++ below) tok = .ok (values' ++ below) := by
  rcases push_cases h with ⟨x, n, rfl, hn, rfl⟩ | ⟨op, lhs, rhs, rest, n, rfl, rfl, hn, rfl⟩
  · exact Result.bind_eq_ok_iff.2 ⟨n, hn, rfl⟩
  · exact Result.bind_eq_ok_iff.2 ⟨n, hn, rfl⟩

theorem foldlM_push_append {store : Store} {tokens : List Token} {values values' : List Int}
    (h : tokens.foldlM (push store) values = .ok values') (below : List Int) :
    tokens.foldlM (push store) (values ++ below) = .ok (values' ++ below) :=
  Result.foldlM_of_step (fun _ _ _ hstep => push_append hstep below) h

/-- Tokens with a value add it to any stack. -/
theorem foldlM_push_of_value {store : Store} {tokens : List Token} {n : Int}
    (h : value store tokens = .ok n) (below : List Int) :
    tokens.foldlM (push store) below = .ok (n :: below) :=
  foldlM_push_append (value_eq_ok_iff.1 h) below

/-! ## Why trees fail -/

/-- An operator fails for its right operand. -/
theorem cases_of_apply_eq_error {op : Operator} {lhs rhs : Int} {e : Error}
    (h : op.apply lhs rhs = .error e) :
    e = .divisionByZero ∨ e = .negativeExponent rhs ∨ e = .exponentTooLarge rhs := by
  cases op with
  | add | sub | mul => cases h
  | div =>
    simp only [Operator.apply] at h
    split at h
    · cases h; exact Or.inl rfl
    · cases h
  | pow =>
    simp only [Operator.apply] at h
    split at h
    · cases h; exact Or.inr (Or.inl rfl)
    · split at h
      · cases h; exact Or.inr (Or.inr rfl)
      · cases h

theorem computational_of_apply_eq_error {op : Operator} {lhs rhs : Int} {e : Error}
    (h : op.apply lhs rhs = .error e) : e.Computational := by
  rcases cases_of_apply_eq_error h with rfl | rfl | rfl
  · exact .divisionByZero
  · exact .negativeExponent
  · exact .exponentTooLarge

theorem computational_of_operand_value_eq_error {x : Operand} {store : Store} {e : Error}
    (h : x.value store = .error e) : e.Computational := by
  cases x with
  | number n => cases h
  | identifier name =>
    simp only [Operand.value, Store.lookup] at h
    split at h
    · split at h
      · cases h
      · cases h; exact .unknownVariable
    · cases h; exact .invalidName

/-- The errors of a tree are those of its operands and operators. -/
theorem Tree.computational_of_value_eq_error {t : Tree} {store : Store} {e : Error}
    (h : t.value store = .error e) : e.Computational := by
  induction t with
  | leaf x => exact computational_of_operand_value_eq_error h
  | node op left right ihl ihr =>
    rw [Tree.value] at h
    rcases Result.bind_eq_error_iff.1 h with hleft | ⟨lhs, -, h⟩
    · exact ihl hleft
    · rcases Result.bind_eq_error_iff.1 h with hright | ⟨rhs, -, h⟩
      · exact ihr hright
      · exact computational_of_apply_eq_error h

/-- The error of a tree is never about the way it is written. -/
theorem Tree.kind_of_value_eq_error {t : Tree} {store : Store} {e : Error}
    (h : t.value store = .error e) : e.kind ≠ .invalidExpression :=
  (computational_of_value_eq_error h).kind_ne.1

end Expression

end Calculator
