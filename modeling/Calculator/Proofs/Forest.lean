/-
  Which tokens have a value: the postorders of trees, and no others.

  1. A forest is a list of trees, the latest first, as they lie on the stack of an evaluation.
     `postorders` are the tokens of all of them, and `Valued` says that each has a value.
  2. One token makes a forest grow by a leaf, or joins its two latest trees (`push_valued`), so a run
     that succeeds has read the postorders of a forest and leaves its values (`foldlM_push_valued`).
     The converse holds as well (`values_eq_ok_iff`).
  3. A postorder tells where it begins and what its tree is (`Tree.postorder_append_inj`), so the trees
     that a list of tokens is read as are determined.
  4. Exactly one value is left for exactly one tree, and a tree that fails makes its postorder fail in
     the same way (`value_of_postorder`).
-/
import Calculator.Proofs.Evaluation
import Mathlib.Data.List.Forall2

namespace Calculator.Expression

/-! ## Forests -/

/-- The tokens of a forest, the postorder of its earliest tree first. -/
def postorders (forest : List Tree) : List Token := forest.reverse.flatMap Tree.postorder

/-- The trees of a forest have these values. -/
def Valued (store : Store) : List Tree → List Int → Prop :=
  List.Forall₂ fun t n => t.value store = .ok n

theorem postorders_cons (t : Tree) (forest : List Tree) :
    postorders (t :: forest) = postorders forest ++ t.postorder := by
  rw [postorders, List.reverse_cons, List.flatMap_append, List.flatMap_singleton]
  rfl

theorem value_node_eq_ok {store : Store} {op : Operator} {l r : Tree} {lhs rhs n : Int}
    (hl : l.value store = .ok lhs) (hr : r.value store = .ok rhs) (hop : op.apply lhs rhs = .ok n) :
    (Tree.node op l r).value store = .ok n := by
  rw [Tree.value, hl]
  show r.value store >>= _ = _
  rw [hr]
  exact hop

/-! ## One token, and many -/

/-- The values on a stack are those of a forest, and one more token makes it the stack of another. -/
theorem push_valued {store : Store} {forest : List Tree} {values values' : List Int} {tok : Token}
    (h : Valued store forest values) (hpush : push store values tok = .ok values') :
    ∃ forest', Valued store forest' values' ∧ postorders forest' = postorders forest ++ [tok] := by
  rcases push_cases hpush with ⟨x, n, rfl, hn, rfl⟩ | ⟨op, lhs, rhs, rest, n, rfl, rfl, hn, rfl⟩
  · exact ⟨.leaf x :: forest, .cons hn h, postorders_cons _ _⟩
  · -- there are two values on top, so there are two trees to be joined
    obtain ⟨r, others, hr, hothers, rfl⟩ := List.forall₂_cons_right_iff.1 h
    obtain ⟨l, forest, hl, hbelow, rfl⟩ := List.forall₂_cons_right_iff.1 hothers
    refine ⟨.node op l r :: forest, .cons (value_node_eq_ok hl hr hn) hbelow, ?_⟩
    simp only [postorders_cons, Tree.postorder, List.append_assoc]

/-- What a run adds to a stack is what it has read. -/
theorem foldlM_push_valued {store : Store} {tokens : List Token} {forest : List Tree}
    {values values' : List Int} (h : Valued store forest values)
    (hrun : tokens.foldlM (push store) values = .ok values') :
    ∃ forest', Valued store forest' values' ∧ postorders forest' = postorders forest ++ tokens := by
  refine Result.foldlM_keeps
    (P := fun taken vs => ∃ forest', Valued store forest' vs ∧
      postorders forest' = postorders forest ++ taken) ?_ ⟨forest, h, (List.append_nil _).symm⟩ hrun
  rintro taken vs tok vs' ⟨grown, hgrown, htaken⟩ hstep
  obtain ⟨forest', hvalued, htok⟩ := push_valued hgrown hstep
  refine ⟨forest', hvalued, ?_⟩
  rw [htok, htaken, List.append_assoc]

theorem values_postorders {store : Store} {forest : List Tree} {ns : List Int}
    (h : Valued store forest ns) : values store (postorders forest) = .ok ns := by
  induction h with
  | nil => rfl
  | @cons t n forest ns ht _ ih =>
    rw [values] at ih ⊢
    rw [postorders_cons, List.foldlM_append, ih]
    show t.postorder.foldlM (push store) ns = _
    rw [Tree.foldlM_push_postorder, ht]
    rfl

/-- **What is left.**  Tokens leave exactly the values of the forests that they are the postorders of. -/
theorem values_eq_ok_iff {store : Store} {tokens : List Token} {ns : List Int} :
    values store tokens = .ok ns ↔
      ∃ forest, Valued store forest ns ∧ postorders forest = tokens := by
  constructor
  · intro h
    have hnothing : Valued store [] [] := .nil
    exact foldlM_push_valued hnothing h
  · rintro ⟨forest, h, rfl⟩
    exact values_postorders h

/-! ## One tree -/

namespace Tree

/-- A postorder tells where it begins, and what its tree is. -/
theorem postorder_append_inj {x y : Tree} {s t : List Token}
    (h : s ++ x.postorder = t ++ y.postorder) : s = t ∧ x = y := by
  -- the last token is an operand or an operator, and says what kind of tree it is
  have hnode : ∀ (s : List Token) (op : Operator) (l r : Tree),
      s ++ (Tree.node op l r).postorder = (s ++ l.postorder) ++ r.postorder ++ [.operator op] :=
    fun s op l r => by simp [Tree.postorder]
  induction x generalizing y s t with
  | leaf a =>
    cases y with
    | leaf b =>
      obtain ⟨hst, hab⟩ := List.append_inj' h rfl
      cases hab
      exact ⟨hst, rfl⟩
    | node op l r =>
      rw [hnode] at h
      cases (List.append_inj' h rfl).2
  | node op l r ihl ihr =>
    rw [hnode] at h
    cases y with
    | leaf b => cases (List.append_inj' h rfl).2
    | node op' l' r' =>
      rw [hnode] at h
      obtain ⟨hoperands, hop⟩ := List.append_inj' h rfl
      obtain ⟨hleft, rfl⟩ := ihr hoperands
      obtain ⟨hst, rfl⟩ := ihl hleft
      cases hop
      exact ⟨hst, rfl⟩

theorem postorder_inj {x y : Tree} (h : x.postorder = y.postorder) : x = y :=
  (postorder_append_inj (s := []) (t := []) h).2

end Tree

/-- **Evaluation and trees.**  Tokens have a value just when they are the postorder of a tree with that
    value; they may be any tokens, parentheses among them.  There is one such tree at most.  When the
    tree of a postorder fails, its first error is the error of the tokens. -/
theorem value_of_postorder (store : Store) (tokens : List Token) :
    (∀ n, value store tokens = .ok n ↔ ∃ t : Tree, t.postorder = tokens ∧ t.value store = .ok n) ∧
    (∀ t t' : Tree, t.postorder = tokens → t'.postorder = tokens → t = t') ∧
    ∀ (t : Tree) (e : Error), t.postorder = tokens → t.value store = .error e →
      value store tokens = .error e := by
  refine ⟨?_, ?_, ?_⟩
  · intro n
    constructor
    · intro h
      obtain ⟨forest, hvalued, htokens⟩ := values_eq_ok_iff.1 (value_eq_ok_iff.1 h)
      -- one value is left, so the forest is one tree
      obtain ⟨t, rest, ht, hrest, rfl⟩ := List.forall₂_cons_right_iff.1 hvalued
      cases hrest
      exact ⟨t, (postorders_cons t []).symm.trans htokens, ht⟩
    · rintro ⟨t, rfl, ht⟩
      rw [Tree.value_postorder, ht]
  · rintro t t' ht rfl
    exact Tree.postorder_inj ht
  · rintro t e rfl he
    rw [Tree.value_postorder, he]

example : value ∅ [.operand (.number 7), .operand (.number 0), .operator .div] =
    .error .divisionByZero := rfl

end Calculator.Expression
