/-
  What a conversion keeps of its tokens, whatever they are.

  1. The operands and the operators among tokens, each in order (`Token.operands`, `Token.operators`),
     and the tokens before one of the operands (`Token.upToOperand`).
  2. `Kept tokens c` — what holds of a conversion that has taken these tokens: no parenthesis is in its
     output, the operands are there in their order, and every operator is there or still waits.
     Releasing operators keeps this (`Kept.release`), and so does every token that is taken
     (`Kept.feed`), also one that makes an opening parenthesis disappear.
  3. An operand that is taken goes to the output right behind all that is there by then
     (`exists_kept_before`).  So what stands before it in the postorder are operators that stood before
     it at first (`toPostorder_conserves`).
-/
import Calculator.Proofs.Balance
import Calculator.Proofs.Substitution
import Mathlib.Data.List.Perm.Subperm

namespace Calculator

namespace Token

/-! ## Operands and operators among tokens -/

/-- The operand that a token is. -/
def operand? : Token → Option Operand
  | .operand x => some x
  | _ => none

/-- The operator that a token is. -/
def operator? : Token → Option Operator
  | .operator op => some op
  | _ => none

/-- The operands among tokens, in order. -/
def operands (tokens : List Token) : List Operand := tokens.filterMap operand?

/-- The operators among tokens, in order. -/
def operators (tokens : List Token) : List Operator := tokens.filterMap operator?

/-- The tokens before the operand that has `k` operands before it; all tokens if there is none. -/
def upToOperand : Nat → List Token → List Token
  | _, [] => []
  | 0, .operand _ :: _ => []
  | k + 1, .operand x :: tokens => .operand x :: upToOperand k tokens
  | k, .operator op :: tokens => .operator op :: upToOperand k tokens
  | k, .paren p :: tokens => .paren p :: upToOperand k tokens

/-- The operators before the third operand of `7 - (x + 2)` are two. -/
example : operators (upToOperand 2 [.operand (.number 7), .operator .sub, .paren .opening,
    .operand (.identifier ['x']), .operator .add, .operand (.number 2), .paren .closing]) =
    [.sub, .add] := rfl

theorem operands_append (s t : List Token) : operands (s ++ t) = operands s ++ operands t :=
  List.filterMap_append

theorem operators_append (s t : List Token) : operators (s ++ t) = operators s ++ operators t :=
  List.filterMap_append

theorem operators_reverse (tokens : List Token) :
    operators tokens.reverse = (operators tokens).reverse := List.filterMap_reverse

theorem operands_map_operator (ops : List Operator) : operands (ops.map operator) = [] := by
  rw [operands, List.filterMap_map]
  exact List.filterMap_eq_nil_iff.2 fun _ _ => rfl

theorem operators_map_operator (ops : List Operator) : operators (ops.map operator) = ops := by
  rw [operators, List.filterMap_map]
  exact List.filterMap_some

/-! ## Before an operand -/

theorem upToOperand_append (s : List Token) (x : Operand) (t : List Token) :
    upToOperand (operands s).length (s ++ .operand x :: t) = s := by
  induction s with
  | nil => rfl
  | cons tok s ih =>
    cases tok with
    | operand y => exact congrArg (Token.operand y :: ·) ih
    | operator op =>
      show upToOperand (operands s).length (.operator op :: (s ++ .operand x :: t)) = _
      rw [upToOperand, ih]
    | paren p =>
      show upToOperand (operands s).length (.paren p :: (s ++ .operand x :: t)) = _
      rw [upToOperand, ih]

/-- Either the operand is there, or there are no more operands than asked for. -/
theorem exists_operand_or_length_le (k : Nat) (tokens : List Token) :
    (∃ s x t, tokens = s ++ .operand x :: t ∧ (operands s).length = k) ∨
      (operands tokens).length ≤ k := by
  rcases Nat.lt_or_ge k (operands tokens).length with hlt | hle
  · obtain ⟨front, x, back, hsplit, rfl⟩ :
        ∃ front x back, operands tokens = front ++ x :: back ∧ front.length = k := by
      refine ⟨(operands tokens).take k, (operands tokens)[k], (operands tokens).drop (k + 1), ?_,
        List.length_take_of_le (Nat.le_of_lt hlt)⟩
      rw [← List.drop_eq_getElem_cons hlt, List.take_append_drop]
    obtain ⟨s, rest, rfl, hs, hrest⟩ := List.filterMap_eq_append_iff.1 hsplit
    obtain ⟨others, tok, t, rfl, hothers, htok, -⟩ := List.filterMap_eq_cons_iff.1 hrest
    -- nothing between the operands in front and this one is an operand
    have hnone : operands others = [] := List.filterMap_eq_nil_iff.2 hothers
    have hx : tok = .operand x := by
      cases tok with
      | operand y => cases htok; rfl
      | operator op => cases htok
      | paren p => cases htok
    refine Or.inl ⟨s ++ others, x, t, by rw [hx, List.append_assoc], ?_⟩
    rw [operands_append, hnone, List.append_nil, operands, hs]
  · exact Or.inr hle

theorem upToOperand_of_length_le {k : Nat} {tokens : List Token}
    (h : (operands tokens).length ≤ k) : upToOperand k tokens = tokens := by
  induction tokens generalizing k with
  | nil => rw [upToOperand]
  | cons tok tokens ih =>
    cases tok with
    | operand x =>
      cases k with
      | zero => cases h
      | succ k => rw [upToOperand, ih (Nat.le_of_succ_le_succ h)]
    | operator op => rw [upToOperand, ih h]
    | paren p => rw [upToOperand, ih h]

end Token

namespace Expression

open Conversion

/-! ## One step, and many -/

namespace Conversion

/-- The operators on a stack, latest first. -/
def waiting (stack : List Pending) : List Operator :=
  stack.filterMap fun
    | .operator op => some op
    | .opening => none

theorem waiting_append (ops : List Operator) (stack : List Pending) :
    waiting (ops.map .operator ++ stack) = ops ++ waiting stack := by
  rw [waiting, List.filterMap_append, List.filterMap_map]
  congr 1
  exact List.filterMap_some

theorem waiting_opening (stack : List Pending) : waiting (.opening :: stack) = waiting stack := rfl

/-- What has become of the tokens that a conversion has taken. -/
structure Kept (tokens : List Token) (c : Conversion) : Prop where
  parens : ∀ p, .paren p ∉ c.output
  operands : Token.operands c.output.reverse = Token.operands tokens
  operators : (Token.operators c.output ++ waiting c.stack).Perm (Token.operators tokens)

namespace Kept

variable {tokens : List Token}

theorem start : Kept [] start := ⟨by simp [Conversion.start], rfl, .refl _⟩

/-- Operators that wait may go to the output. -/
theorem release {ops : List Operator} {output : List Token} {stack : List Pending}
    (h : Kept tokens ⟨output, ops.map .operator ++ stack⟩) :
    Kept tokens ⟨(ops.map Token.operator).reverse ++ output, stack⟩ where
  parens := by
    intro p hp
    rcases List.mem_append.1 hp with hp | hp
    · simp at hp
    · exact h.parens p hp
  operands := by
    rw [List.reverse_append, List.reverse_reverse, Token.operands_append,
      Token.operands_map_operator, List.append_nil]
    exact h.operands
  operators := by
    have hoperators := h.operators
    rw [waiting_append, ← List.append_assoc] at hoperators
    rw [Token.operators_append, Token.operators_reverse, Token.operators_map_operator]
    have hrev : (ops.reverse ++ Token.operators output).Perm (Token.operators output ++ ops) :=
      ((List.reverse_perm ops).append_right _).trans List.perm_append_comm
    exact (hrev.append_right (waiting stack)).trans hoperators

theorem operand {c : Conversion} (h : Kept tokens c) (x : Operand) :
    Kept (tokens ++ [.operand x]) ⟨.operand x :: c.output, c.stack⟩ where
  parens := by
    intro p hp
    rcases List.mem_cons.1 hp with hp | hp
    · cases hp
    · exact h.parens p hp
  operands := by
    rw [List.reverse_cons, Token.operands_append, Token.operands_append, h.operands]
  operators := by
    rw [Token.operators_append]
    show (Token.operators c.output ++ waiting c.stack).Perm (Token.operators tokens ++ [])
    rw [List.append_nil]
    exact h.operators

theorem operator {c : Conversion} (h : Kept tokens c) (op : Operator) :
    Kept (tokens ++ [.operator op]) ⟨c.output, .operator op :: c.stack⟩ where
  parens := h.parens
  operands := by
    rw [h.operands, Token.operands_append]
    exact (List.append_nil _).symm
  operators := by
    rw [Token.operators_append]
    show (Token.operators c.output ++ op :: waiting c.stack).Perm (Token.operators tokens ++ [op])
    have hfront : (op :: (Token.operators c.output ++ waiting c.stack)).Perm
        (op :: Token.operators tokens) := h.operators.cons op
    exact (List.perm_middle.trans hfront).trans (List.perm_append_singleton op _).symm

/-- A parenthesis leaves no trace but on the stack, and there it does not count. -/
theorem paren {c : Conversion} {stack : List Pending} (h : Kept tokens c)
    (hstack : waiting stack = waiting c.stack) (p : Paren) :
    Kept (tokens ++ [.paren p]) ⟨c.output, stack⟩ where
  parens := h.parens
  operands := by
    rw [h.operands, Token.operands_append]
    exact (List.append_nil _).symm
  operators := by
    rw [Token.operators_append, hstack]
    show (Token.operators c.output ++ waiting c.stack).Perm (Token.operators tokens ++ [])
    rw [List.append_nil]
    exact h.operators

/-- **One token.**  Whatever it is, the conversion that has taken it has kept it. -/
theorem feed {c d : Conversion} {tok : Token} (h : Kept tokens c) (hfeed : feed c tok = .ok d) :
    Kept (tokens ++ [tok]) d := by
  cases feed_eq_ok_iff.1 hfeed with
  | operand output stack x => exact h.operand x
  | @operator op ops rest hops hrest output => exact h.release.operator op
  | opening output stack => exact h.paren (waiting_opening stack) .opening
  | closing ops output stack => exact h.release.paren (waiting_opening stack).symm .closing

/-- **All tokens.** -/
theorem foldlM {before : List Token} {c d : Conversion} (h : Kept before c)
    (hrun : tokens.foldlM Conversion.feed c = .ok d) : Kept (before ++ tokens) d :=
  Result.foldlM_keeps (fun _ _ _ _ hkept hfeed => hkept.feed hfeed) h hrun

end Kept

end Conversion

/-! ## The whole conversion -/

theorem kept_of_toPostorder {tokens post : List Token} (h : toPostorder tokens = .ok post) :
    Kept tokens ⟨post.reverse, []⟩ := by
  obtain ⟨⟨output, stack⟩, hrun, hfinish⟩ := exists_of_toPostorder_eq_ok h
  obtain ⟨ops, rfl, hpost⟩ := operators_of_finish hfinish
  have hkept : Kept tokens ⟨output, ops.map .operator⟩ := Kept.start.foldlM hrun
  rw [← List.append_nil (ops.map Pending.operator)] at hkept
  rw [hpost]
  exact hkept.release

theorem operators_perm {tokens post : List Token} (h : toPostorder tokens = .ok post) :
    (Token.operators post).Perm (Token.operators tokens) := by
  have hkept : (Token.operators post.reverse ++ []).Perm (Token.operators tokens) :=
    (kept_of_toPostorder h).operators
  rw [List.append_nil, Token.operators_reverse] at hkept
  exact (List.reverse_perm _).symm.trans hkept

theorem operands_eq {tokens post : List Token} (h : toPostorder tokens = .ok post) :
    Token.operands post = Token.operands tokens := by
  have hkept : Token.operands post.reverse.reverse = Token.operands tokens :=
    (kept_of_toPostorder h).operands
  rwa [List.reverse_reverse] at hkept

/-- What stands before an operand in the postorder is on the output when the operand is taken. -/
theorem exists_kept_before {s t post : List Token} {x : Operand}
    (h : toPostorder (s ++ .operand x :: t) = .ok post) :
    ∃ c rest, Kept s c ∧ post = c.output.reverse ++ .operand x :: rest := by
  have hconverts : Converts [.operand x] [.operand x] := fun _ => rfl
  rw [← List.singleton_append, ← List.append_assoc, toPostorder_around hconverts] at h
  obtain ⟨c, hrun, hrest⟩ := Result.bind_eq_ok_iff.1 h
  obtain ⟨rest, -, rfl⟩ := Result.map_eq_ok_iff.1 hrest
  exact ⟨c, rest, Kept.start.foldlM hrun, by rw [List.append_assoc]; rfl⟩

/-- Before an operand, the postorder has no operators but those that stood there at first. -/
theorem operators_upToOperand_subperm {tokens post : List Token} (h : toPostorder tokens = .ok post)
    (k : Nat) : (Token.operators (Token.upToOperand k post)).Subperm
      (Token.operators (Token.upToOperand k tokens)) := by
  rcases Token.exists_operand_or_length_le k tokens with ⟨s, x, t, rfl, rfl⟩ | hle
  · obtain ⟨c, rest, hkept, rfl⟩ := exists_kept_before h
    have hlength : (Token.operands c.output.reverse).length = (Token.operands s).length := by
      rw [hkept.operands]
    have houtput : (Token.operators c.output).Subperm (Token.operators s) :=
      (List.sublist_append_left _ _).subperm.trans hkept.operators.subperm
    rw [Token.upToOperand_append, ← hlength, Token.upToOperand_append, Token.operators_reverse]
    exact (List.reverse_perm _).subperm.trans houtput
  · -- there is no such operand, and all tokens count
    rw [Token.upToOperand_of_length_le hle,
      Token.upToOperand_of_length_le (operands_eq h ▸ hle)]
    exact (operators_perm h).subperm

/-- **Conversion conserves.**  When tokens are converted, well-formed or not, the parentheses are gone,
    the operands are there in their order, and so is each operator, as often as it was.  The operators
    before any operand are among those that stood before it at first: operators move behind operands
    and never before them. -/
theorem toPostorder_conserves {tokens post : List Token} (h : toPostorder tokens = .ok post) :
    (∀ p, .paren p ∉ post) ∧
    Token.operands post = Token.operands tokens ∧
    (Token.operators post).Perm (Token.operators tokens) ∧
    ∀ k, (Token.operators (Token.upToOperand k post)).Subperm
      (Token.operators (Token.upToOperand k tokens)) :=
  ⟨fun p hp => (kept_of_toPostorder h).parens p (List.mem_reverse.2 hp), operands_eq h,
    operators_perm h, operators_upToOperand_subperm h⟩

/-- `* 2 - ( 3 + ) 4` is no expression, and is converted to `2 * 3 + 4 -`.  Before the `4` stand two of
    the three operators that stood there. -/
theorem toPostorder_conserves_of_malformed :
    toPostorder [.operator .mul, .operand (.number 2), .operator .sub, .paren .opening,
        .operand (.number 3), .operator .add, .paren .closing, .operand (.number 4)] =
      .ok [.operand (.number 2), .operator .mul, .operand (.number 3), .operator .add,
        .operand (.number 4), .operator .sub] ∧
    [Operator.mul, .add, .sub].Perm [.mul, .sub, .add] ∧
    [Operator.mul, .add].Subperm [.mul, .sub, .add] := by
  have h : toPostorder [.operator .mul, .operand (.number 2), .operator .sub, .paren .opening,
        .operand (.number 3), .operator .add, .paren .closing, .operand (.number 4)] =
      .ok [.operand (.number 2), .operator .mul, .operand (.number 3), .operator .add,
        .operand (.number 4), .operator .sub] := rfl
  obtain ⟨-, -, hperm, hbefore⟩ := toPostorder_conserves h
  exact ⟨h, hperm, hbefore 2⟩

end Expression

end Calculator
