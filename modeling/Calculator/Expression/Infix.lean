/-
  Infix notation: which tokens spell which tree.

  1. `Infix p tokens t` — the tokens spell the tree `t`, and every operator of theirs that stands outside
     of parentheses has a precedence of at least `p`.
  2. An operand spells itself at every precedence, and so does anything in parentheses.
  3. The left operand of an operator may hold operators of the same precedence, the right one only
     tighter ones; so operators of one precedence associate to the left.
  4. What is spelled at a precedence is spelled at every smaller one (`Infix.mono`).
-/
import Calculator.Expression.Tree

namespace Calculator.Expression

/-- The tokens spell the tree, with operators of at least this precedence outside of parentheses. -/
inductive Infix : Nat → List Token → Tree → Prop
  | operand {p : Nat} (x : Operand) : Infix p [.operand x] (.leaf x)
  | parens {p : Nat} {tokens : List Token} {t : Tree} (inner : Infix 0 tokens t) :
      Infix p (.paren .opening :: tokens ++ [.paren .closing]) t
  | apply {p : Nat} {op : Operator} {lhs rhs : List Token} {left right : Tree}
      (le : p ≤ op.precedence) (l : Infix op.precedence lhs left)
      (r : Infix (op.precedence + 1) rhs right) :
      Infix p (lhs ++ .operator op :: rhs) (.node op left right)

namespace Infix

theorem mono {p q : Nat} {tokens : List Token} {t : Tree} (h : Infix p tokens t) (hq : q ≤ p) :
    Infix q tokens t := by
  cases h with
  | operand x => exact .operand x
  | parens inner => exact .parens inner
  | apply le l r => exact .apply (Nat.le_trans hq le) l r

/-- `2 - 3 - 4` is `(2 - 3) - 4`. -/
example : Infix 0 [.operand (.number 2), .operator .sub, .operand (.number 3), .operator .sub,
      .operand (.number 4)]
    (.node .sub (.node .sub (.leaf (.number 2)) (.leaf (.number 3))) (.leaf (.number 4))) :=
  .apply (Nat.zero_le _) (.apply (Nat.le_refl _) (.operand _) (.operand _)) (.operand _)

end Infix

end Calculator.Expression
