/-
  The grammar of expressions, told on tokens, and what the conversion makes of its derivations.

  1. `Derivation phrase` — how tokens are derived as a phrase of this kind:

       expression ::= term  |  expression (`+` or `-`) term
       term       ::= power |  term (`*` or `/`) power
       power      ::= atom  |  power `^` atom
       atom       ::= operand  |  `(` expression `)`

     A derivation knows its tokens, and the tree that they are meant to stand for.  The parentheses are
     gone from the tree, so derivations with one tree differ in redundant parentheses only.
  2. A derivation of a phrase is an infix spelling with operators of the phrase's level
     (`Derivation.spells`), and so its conversion is the postorder of its tree.
  3. Powers that follow each other are derived from the left, however many they are
     (`tokens_foldl_pow`, `tree_foldl_pow`).
  4. `toPostorder_of_derivation` puts this together.
-/
import Calculator.Proofs.Spelling
import Calculator.Proofs.Forest

namespace Calculator.Expression

/-! ## Derivations -/

/-- How tokens are derived as a phrase. -/
inductive Derivation : Phrase → Type
  | operand (x : Operand) : Derivation .atom
  | group (inner : Derivation .expression) : Derivation .atom
  | atom (base : Derivation .atom) : Derivation .power
  | pow (base : Derivation .power) (exponent : Derivation .atom) : Derivation .power
  | power (factor : Derivation .power) : Derivation .term
  | product (op : Operator) (hop : op = .mul ∨ op = .div) (lhs : Derivation .term)
      (rhs : Derivation .power) : Derivation .term
  | term (summand : Derivation .term) : Derivation .expression
  | sum (op : Operator) (hop : op = .add ∨ op = .sub) (lhs : Derivation .expression)
      (rhs : Derivation .term) : Derivation .expression

namespace Derivation

/-- The tokens that are derived. -/
def tokens : {phrase : Phrase} → Derivation phrase → List Token
  | _, operand x => [.operand x]
  | _, group inner => .paren .opening :: inner.tokens ++ [.paren .closing]
  | _, atom d => d.tokens
  | _, pow base exponent => base.tokens ++ .operator .pow :: exponent.tokens
  | _, power d => d.tokens
  | _, product op _ lhs rhs => lhs.tokens ++ .operator op :: rhs.tokens
  | _, term d => d.tokens
  | _, sum op _ lhs rhs => lhs.tokens ++ .operator op :: rhs.tokens

/-- The tree of the operators and operands, without the parentheses. -/
def tree : {phrase : Phrase} → Derivation phrase → Tree
  | _, operand x => .leaf x
  | _, group inner => inner.tree
  | _, atom d => d.tree
  | _, pow base exponent => .node .pow base.tree exponent.tree
  | _, power d => d.tree
  | _, product op _ lhs rhs => .node op lhs.tree rhs.tree
  | _, term d => d.tree
  | _, sum op _ lhs rhs => .node op lhs.tree rhs.tree

/-- The operators of a phrase outside of its parentheses have at least the level of the phrase. -/
theorem spells {phrase : Phrase} (d : Derivation phrase) : Infix phrase.level d.tokens d.tree := by
  induction d with
  | operand x => exact .operand x
  | group inner ih => exact .parens ih
  | atom d ih => exact ih.mono (by decide)
  | pow base exponent ihl ihr => exact .apply (Nat.le_refl _) ihl ihr
  | power d ih => exact ih.mono (by decide)
  | product op hop lhs rhs ihl ihr =>
    have hprec : op.precedence = 1 := by rcases hop with rfl | rfl <;> rfl
    refine .apply (Nat.le_of_eq hprec.symm) ?_ ?_
    · rw [hprec]; exact ihl
    · rw [hprec]; exact ihr.mono (by decide)
  | term d ih => exact ih.mono (Nat.zero_le _)
  | sum op hop lhs rhs ihl ihr =>
    have hprec : op.precedence = 0 := by rcases hop with rfl | rfl <;> rfl
    refine .apply (Nat.zero_le _) ?_ ?_
    · rw [hprec]; exact ihl
    · rw [hprec]; exact ihr

/-! ## Powers of powers -/

theorem tokens_foldl_pow (base : Derivation .power) (exponents : List (Derivation .atom)) :
    (exponents.foldl pow base).tokens =
      base.tokens ++ exponents.flatMap fun d => .operator .pow :: d.tokens := by
  induction exponents generalizing base with
  | nil => exact (List.append_nil _).symm
  | cons d exponents ih =>
    rw [List.foldl_cons, ih, List.flatMap_cons, ← List.append_assoc]
    rfl

theorem tree_foldl_pow (base : Derivation .power) (exponents : List (Derivation .atom)) :
    (exponents.foldl pow base).tree =
      exponents.foldl (fun t d => .node .pow t d.tree) base.tree := by
  induction exponents generalizing base with
  | nil => rfl
  | cons d exponents ih =>
    rw [List.foldl_cons, List.foldl_cons, ih]
    rfl

/-! ## The conversion -/

/-- The postorder of its tree is what a derivation is converted to. -/
theorem toPostorder_tokens (d : Derivation .expression) :
    toPostorder d.tokens = .ok d.tree.postorder := toPostorder_of_infix d.spells

end Derivation

/-- **The conversion and the grammar.**  Tokens that are derived from the grammar are converted to the
    postorder of the tree of their derivation.  Two derivations are converted to the same tokens just
    when they have one tree, that is when they differ in redundant parentheses only.  A power whose
    base is a power is written without parentheses: powers associate to the left. -/
theorem toPostorder_of_derivation :
    (∀ d : Derivation .expression, toPostorder d.tokens = .ok d.tree.postorder) ∧
    (∀ d d' : Derivation .expression,
      toPostorder d.tokens = toPostorder d'.tokens ↔ d.tree = d'.tree) ∧
    ∀ (base : Derivation .power) (exponents : List (Derivation .atom)),
      toPostorder (base.tokens ++ exponents.flatMap fun d => .operator .pow :: d.tokens) =
        .ok (exponents.foldl (fun t d => .node .pow t d.tree) base.tree).postorder := by
  refine ⟨Derivation.toPostorder_tokens, ?_, ?_⟩
  · intro d d'
    rw [d.toPostorder_tokens, d'.toPostorder_tokens]
    constructor
    · intro h
      exact Tree.postorder_inj (Except.ok.inj h)
    · intro h
      rw [h]
  · intro base exponents
    have h : toPostorder (exponents.foldl .pow base).tokens = .ok _ :=
      Derivation.toPostorder_tokens (.term (.power (exponents.foldl .pow base)))
    rw [Derivation.tokens_foldl_pow] at h
    rw [h]
    show Except.ok (exponents.foldl Derivation.pow base).tree.postorder = _
    rw [Derivation.tree_foldl_pow]

/-- `2 ^ (3) ^ 2` is `(2 ^ 3) ^ 2`. -/
example : toPostorder [.operand (.number 2), .operator .pow, .paren .opening, .operand (.number 3),
      .paren .closing, .operator .pow, .operand (.number 2)] =
    .ok (Tree.node .pow (.node .pow (.leaf (.number 2)) (.leaf (.number 3)))
      (.leaf (.number 2))).postorder := rfl

end Calculator.Expression
