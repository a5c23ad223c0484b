/-
  Expressions as trees.

  1. `Tree` — an operand, or an operator over two trees.  A tree says which operator takes what without
     parentheses and without an order of precedence.
  2. `Tree.value` — the left operand first, then the right one, then the operator; the first error is
     the error of the whole.
  3. `Tree.postorder` — the tokens of a tree, every operator behind its operands.
  4. The value of the postorder is the value of the tree (`value_postorder`), errors included.  More
     generally a postorder adds the value of its tree to any stack (`foldlM_push_postorder`), and that
     is what makes the induction go through.
-/
import Calculator.Expression.Value

namespace Calculator.Expression

/-- An expression, its structure laid open. -/
inductive Tree
  | leaf (x : Operand)
  | node (op : Operator) (left right : Tree)
  deriving DecidableEq, Repr

namespace Tree

/-- The value of a tree. -/
def value (store : Store) : Tree → Except Error Int
  | leaf x => x.value store
  | node op left right => do
    let lhs ← left.value store
    let rhs ← right.value store
    op.apply lhs rhs

/-- The tokens of a tree, every operator behind its two operands. -/
def postorder : Tree → List Token
  | leaf x => [.operand x]
  | node op left right => left.postorder ++ right.postorder ++ [.operator op]

/-! ## The value of a postorder -/

/-- A postorder adds the value of its tree to the stack, or fails as the tree does. -/
theorem foldlM_push_postorder (store : Store) (t : Tree) (values : List Int) :
    t.postorder.foldlM (push store) values = (t.value store).map (· :: values) := by
  induction t generalizing values with
  | leaf x =>
    simp only [postorder, value, List.foldlM_cons, List.foldlM_nil, push]
    cases x.value store <;> rfl
  | node op left right ihl ihr =>
    rw [postorder, List.foldlM_append, List.foldlM_append, ihl, value]
    cases left.value store with
    | error e => rfl
    | ok lhs =>
      change (right.postorder.foldlM (push store) (lhs :: values) >>= _) = _
      rw [ihr]
      cases right.value store with
      | error e => rfl
      | ok rhs =>
        change [Token.operator op].foldlM (push store) (rhs :: lhs :: values) = _
        simp only [List.foldlM_cons, List.foldlM_nil, push]
        change _ = (op.apply lhs rhs).map _
        cases op.apply lhs rhs <;> rfl

/-- The value of a tree is the value of its postorder. -/
theorem value_postorder (store : Store) (t : Tree) :
    Expression.value store t.postorder = t.value store := by
  rw [Expression.value, values, foldlM_push_postorder]
  cases t.value store <;> rfl

end Tree

end Calculator.Expression
