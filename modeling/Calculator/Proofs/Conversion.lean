/-
  The conversion to postorder: what a step can do, and what it cannot see.

  1. **Release** — whatever the condition, a release takes the operators on top of the stack that
     satisfy it, up to the first entry that does not (`exists_release`).
  2. **Steps** — `Fed c tok d` says all that taking one token can do, case by case, and a step that
     succeeds did it (`feed_eq_ok_iff`).
  3. **Frames** — no step looks at the output (`foldlM_feed_onto`), and as long as a run succeeds by
     itself it does not look below an opening parenthesis that lies under it
     (`foldlM_feed_within`).
  4. **Infix spellings** — in front of operators that bind less tightly, a spelling of a tree leaves
     the postorder of the tree, all but some operators that still wait (`foldlM_feed_infix`).  So the
     conversion of a spelling is the postorder of its tree (`toPostorder_of_infix`).
-/
import Calculator.Expression.Postorder
import Calculator.Expression.Infix
import Calculator.Proofs.Result

namespace Calculator.Expression

namespace Conversion

/-! ## What a release takes -/

/-- Operators that satisfy the condition go to the output, the topmost first. -/
theorem release_append (yields : Operator → Bool) {ops : List Operator}
    (h : ∀ op ∈ ops, yields op) (output : List Token) (stack : List Pending) :
    release yields output (ops.map .operator ++ stack) =
      release yields ((ops.map Token.operator).reverse ++ output) stack := by
  induction ops generalizing output with
  | nil => rfl
  | cons op ops ih =>
    have hop : yields op := h op (List.mem_cons_self ..)
    rw [List.map_cons, List.cons_append, release, if_pos hop,
      ih fun o ho => h o (List.mem_cons_of_mem op ho)]
    simp

/-- Nothing is released from a stack whose top is no operator or does not satisfy the condition. -/
theorem release_of_head? {yields : Operator → Bool} {stack : List Pending}
    (h : ∀ op, stack.head? = some (.operator op) → yields op = false) (output : List Token) :
    release yields output stack = ⟨output, stack⟩ := by
  cases stack with
  | nil => rfl
  | cons p stack =>
    cases p with
    | operator op => simp [release, h op rfl]
    | opening => rfl

/-- Every release, in full: the operators it takes, and why it stops. -/
theorem exists_release (yields : Operator → Bool) (stack : List Pending) :
    ∃ (ops : List Operator) (rest : List Pending), stack = ops.map .operator ++ rest ∧
      (∀ op ∈ ops, yields op) ∧
      (∀ op, rest.head? = some (.operator op) → yields op = false) ∧
      ∀ output, release yields output stack = ⟨(ops.map Token.operator).reverse ++ output, rest⟩ := by
  induction stack with
  | nil => exact ⟨[], [], rfl, by simp, by simp, fun _ => rfl⟩
  | cons p stack ih =>
    cases p with
    | opening => exact ⟨[], _, rfl, by simp, by simp, fun _ => rfl⟩
    | operator op =>
      by_cases hop : yields op
      · obtain ⟨ops, rest, rfl, hops, hrest, hrel⟩ := ih
        refine ⟨op :: ops, rest, rfl, ?_, hrest, fun output => ?_⟩
        · intro o ho
          rcases List.mem_cons.1 ho with rfl | ho
          · exact hop
          · exact hops o ho
        · rw [release, if_pos hop, hrel]
          simp
      · refine ⟨[], _, rfl, by simp, ?_, fun output => ?_⟩
        · intro o ho
          cases ho
          simpa using hop
        · rw [release, if_neg hop]
          rfl

/-- A full release ends at the bottom of the stack or at a parenthesis. -/
theorem exists_release_all (stack : List Pending) :
    ∃ (ops : List Operator) (rest : List Pending), stack = ops.map .operator ++ rest ∧
      (rest = [] ∨ ∃ below, rest = .opening :: below) ∧
      ∀ output, release (fun _ => true) output stack =
        ⟨(ops.map Token.operator).reverse ++ output, rest⟩ := by
  obtain ⟨ops, rest, hstack, -, hrest, hrel⟩ := exists_release (fun _ => true) stack
  refine ⟨ops, rest, hstack, ?_, hrel⟩
  cases rest with
  | nil => exact Or.inl rfl
  | cons p below =>
    cases p with
    | opening => exact Or.inr ⟨below, rfl⟩
    | operator op => exact absurd (hrest op rfl) (by decide)

/-! ## One token -/

theorem feed_opening (c : Conversion) :
    feed c (.paren .opening) = .ok ⟨c.output, .opening :: c.stack⟩ := rfl

/-- An operator releases those that bind at least as tightly, down to one that does not. -/
theorem feed_operator {op : Operator} {ops : List Operator} {stack : List Pending}
    (hops : ∀ o ∈ ops, op.precedence ≤ o.precedence)
    (hstack : ∀ o, stack.head? = some (.operator o) → o.precedence < op.precedence)
    (output : List Token) :
    feed ⟨output, ops.map .operator ++ stack⟩ (.operator op) =
      .ok ⟨(ops.map Token.operator).reverse ++ output, .operator op :: stack⟩ := by
  have hyields : ∀ o ∈ ops, yieldsTo op o := fun o ho => by simpa [yieldsTo] using hops o ho
  have hrest : ∀ o, stack.head? = some (.operator o) → yieldsTo op o = false := by
    intro o ho
    simpa [yieldsTo] using hstack o ho
  simp only [feed, release_append _ hyields, release_of_head? hrest]

/-- A closing parenthesis releases all operators above its opening one. -/
theorem feed_closing (ops : List Operator) (output : List Token) (stack : List Pending) :
    feed ⟨output, ops.map .operator ++ .opening :: stack⟩ (.paren .closing) =
      .ok ⟨(ops.map Token.operator).reverse ++ output, stack⟩ := by
  simp only [feed, release_append (fun _ => true) (fun _ _ => rfl), release_opening]

/-- Without an opening one it is an error. -/
theorem feed_closing_of_operators (ops : List Operator) (output : List Token) :
    feed ⟨output, ops.map .operator⟩ (.paren .closing) = .error .unmatchedClosing := by
  have h : release (fun _ => true) output (ops.map .operator ++ []) = _ :=
    release_append (fun _ => true) (fun _ _ => rfl) output []
  rw [List.append_nil] at h
  simp only [feed, h, release_nil]

/-- All that taking a token can do. -/
inductive Fed : Conversion → Token → Conversion → Prop
  | operand (output : List Token) (stack : List Pending) (x : Operand) :
      Fed ⟨output, stack⟩ (.operand x) ⟨.operand x :: output, stack⟩
  | operator {op : Operator} {ops : List Operator} {rest : List Pending}
      (hops : ∀ o ∈ ops, op.precedence ≤ o.precedence)
      (hrest : ∀ o, rest.head? = some (.operator o) → o.precedence < op.precedence)
      (output : List Token) :
      Fed ⟨output, ops.map .operator ++ rest⟩ (.operator op)
        ⟨(ops.map Token.operator).reverse ++ output, .operator op :: rest⟩
  | opening (output : List Token) (stack : List Pending) :
      Fed ⟨output, stack⟩ (.paren .opening) ⟨output, .opening :: stack⟩
  | closing (ops : List Operator) (output : List Token) (stack : List Pending) :
      Fed ⟨output, ops.map .operator ++ .opening :: stack⟩ (.paren .closing)
        ⟨(ops.map Token.operator).reverse ++ output, stack⟩

/-- A step that succeeds has done one of these things. -/
theorem feed_eq_ok_iff {c d : Conversion} {tok : Token} : feed c tok = .ok d ↔ Fed c tok d := by
  constructor
  · intro h
    obtain ⟨output, stack⟩ := c
    cases tok with
    | operand x =>
      cases h
      exact .operand output stack x
    | operator op =>
      obtain ⟨ops, rest, rfl, hops, hrest, -⟩ := exists_release (yieldsTo op) stack
      have hops' : ∀ o ∈ ops, op.precedence ≤ o.precedence := by
        intro o ho
        simpa [yieldsTo] using hops o ho
      have hrest' : ∀ o, rest.head? = some (.operator o) → o.precedence < op.precedence :=
        fun o ho => by simpa [yieldsTo] using hrest o ho
      rw [feed_operator hops' hrest'] at h
      cases h
      exact .operator hops' hrest' output
    | paren p =>
      cases p with
      | opening =>
        cases h
        exact .opening output stack
      | closing =>
        obtain ⟨ops, rest, rfl, hrest, -⟩ := exists_release_all stack
        rcases hrest with rfl | ⟨below, rfl⟩
        · rw [List.append_nil, feed_closing_of_operators] at h
          cases h
        · rw [feed_closing] at h
          cases h
          exact .closing ops output below
  · intro h
    cases h with
    | operand output stack x => rfl
    | operator hops hrest output => exact feed_operator hops hrest output
    | opening output stack => rfl
    | closing ops output stack => exact feed_closing ops output stack

theorem finish_operators (ops : List Operator) (output : List Token) :
    finish ⟨output, ops.map .operator⟩ =
      .ok ((ops.map Token.operator).reverse ++ output).reverse := by
  have h : release (fun _ => true) output (ops.map .operator ++ []) = _ :=
    release_append (fun _ => true) (fun _ _ => rfl) output []
  rw [List.append_nil] at h
  simp only [finish, h, release_nil]

theorem finish_opening (ops : List Operator) (output : List Token) (stack : List Pending) :
    finish ⟨output, ops.map .operator ++ .opening :: stack⟩ = .error .unmatchedOpening := by
  simp only [finish, release_append (fun _ => true) (fun _ _ => rfl), release_opening]

/-- A conversion that ends without error has nothing but operators on its stack. -/
theorem operators_of_finish {c : Conversion} {tokens : List Token} (h : finish c = .ok tokens) :
    ∃ ops : List Operator, c.stack = ops.map .operator ∧
      tokens.reverse = (ops.map Token.operator).reverse ++ c.output := by
  obtain ⟨output, stack⟩ := c
  obtain ⟨ops, rest, rfl, hrest, -⟩ := exists_release_all stack
  rcases hrest with rfl | ⟨below, rfl⟩
  · rw [List.append_nil, finish_operators] at h
    cases h
    exact ⟨ops, List.append_nil _, List.reverse_reverse _⟩
  · rw [finish_opening] at h
    cases h

/-! ## Frames: what a step cannot see -/

/-- A conversion with more output before its own. -/
def onto (c : Conversion) (output : List Token) : Conversion := ⟨c.output ++ output, c.stack⟩

/-- A conversion inside a group, with a stack below the parenthesis that opens it. -/
def within (c : Conversion) (stack : List Pending) : Conversion :=
  ⟨c.output, c.stack ++ .opening :: stack⟩

theorem release_onto (yields : Operator → Bool) (own output : List Token) (stack : List Pending) :
    release yields (own ++ output) stack = (release yields own stack).onto output := by
  obtain ⟨ops, rest, -, -, -, hrel⟩ := exists_release yields stack
  rw [hrel, hrel, onto, List.append_assoc]

/-- No step looks at the output. -/
theorem feed_onto (c : Conversion) (output : List Token) (tok : Token) :
    feed (c.onto output) tok = (feed c tok).map fun d => d.onto output := by
  cases tok with
  | operand x => rfl
  | operator op =>
    simp only [feed]
    rw [onto, release_onto]
    rfl
  | paren p =>
    cases p with
    | opening => rfl
    | closing =>
      obtain ⟨own, stack⟩ := c
      obtain ⟨ops, rest, rfl, hrest, -⟩ := exists_release_all stack
      rcases hrest with rfl | ⟨below, rfl⟩
      · rw [List.append_nil, onto, feed_closing_of_operators, feed_closing_of_operators]
        rfl
      · rw [onto, feed_closing, feed_closing, ← List.append_assoc]
        rfl

theorem foldlM_feed_onto (tokens : List Token) (c : Conversion) (output : List Token) :
    tokens.foldlM feed (c.onto output) = (tokens.foldlM feed c).map fun d => d.onto output := by
  have hrun : (tokens.map id).foldlM feed (c.onto output) =
      (tokens.foldlM feed c).map fun d => d.onto output :=
    Result.foldlM_map_of_step (fun d tok => feed_onto d output tok) tokens c
  rwa [List.map_id] at hrun

theorem finish_onto (c : Conversion) (output : List Token) :
    finish (c.onto output) = (finish c).map (output.reverse ++ ·) := by
  obtain ⟨own, stack⟩ := c
  obtain ⟨ops, rest, rfl, hrest, -⟩ := exists_release_all stack
  rcases hrest with rfl | ⟨below, rfl⟩
  · rw [List.append_nil, onto, finish_operators, finish_operators, ← List.append_assoc,
      List.reverse_append]
    rfl
  · rw [onto, finish_opening, finish_opening]
    rfl

/-- A step that succeeds by itself does not look below an opening parenthesis under it. -/
theorem feed_within {c d : Conversion} {tok : Token} (h : feed c tok = .ok d)
    (stack : List Pending) : feed (c.within stack) tok = .ok (d.within stack) := by
  cases feed_eq_ok_iff.1 h with
  | operand output own x => rfl
  | @operator op ops rest hops hrest output =>
    -- the parenthesis stops the release where the bottom of the stack stopped it
    have hbelow : ∀ o, (rest ++ .opening :: stack).head? = some (.operator o) →
        o.precedence < op.precedence := by
      intro o ho
      cases rest with
      | nil => cases ho
      | cons p rest => exact hrest o ho
    rw [within, List.append_assoc, feed_operator hops hbelow]
    rfl
  | opening output own => rfl
  | closing ops output own =>
    rw [within, List.append_assoc, List.cons_append, feed_closing]
    rfl

theorem foldlM_feed_within {tokens : List Token} {c d : Conversion}
    (h : tokens.foldlM feed c = .ok d) (stack : List Pending) :
    tokens.foldlM feed (c.within stack) = .ok (d.within stack) :=
  Result.foldlM_of_step (fun _ _ _ hstep => feed_within hstep stack) h

end Conversion

open Conversion

/-! ## Groups -/

theorem exists_of_toPostorder_eq_ok {tokens post : List Token} (h : toPostorder tokens = .ok post) :
    ∃ c, tokens.foldlM feed start = .ok c ∧ finish c = .ok post :=
  Result.bind_eq_ok_iff.1 h

/-- Wherever it stands, a group adds the postorder of what it holds to the output and leaves the
    stack as it was. -/
theorem foldlM_feed_group {tokens post : List Token} (h : toPostorder tokens = .ok post)
    (c : Conversion) :
    (Token.paren .opening :: tokens ++ [Token.paren .closing]).foldlM feed c =
      .ok ⟨post.reverse ++ c.output, c.stack⟩ := by
  obtain ⟨d, hrun, hfinish⟩ := exists_of_toPostorder_eq_ok h
  obtain ⟨ops, hops, hpost⟩ := operators_of_finish hfinish
  have honto : tokens.foldlM feed (start.onto c.output) = .ok (d.onto c.output) := by
    rw [foldlM_feed_onto, hrun]
    rfl
  have hgroup : tokens.foldlM feed ⟨c.output, .opening :: c.stack⟩ =
      .ok ((d.onto c.output).within c.stack) := foldlM_feed_within honto c.stack
  rw [List.cons_append, List.foldlM_cons, feed_opening]
  show (tokens ++ [Token.paren .closing]).foldlM feed ⟨c.output, .opening :: c.stack⟩ = _
  rw [List.foldlM_append, hgroup]
  show [Token.paren .closing].foldlM feed ⟨d.output ++ c.output, d.stack ++ .opening :: c.stack⟩ = _
  rw [hops, List.foldlM_cons, feed_closing, ← List.append_assoc, ← hpost]
  rfl

/-! ## Spellings of trees -/

/-- The operator on top of the stack, if one is there, binds less tightly than `p`. -/
def Below (p : Nat) (stack : List Pending) : Prop :=
  ∀ op, stack.head? = some (.operator op) → op.precedence < p

theorem Below.mono {p q : Nat} {stack : List Pending} (h : Below p stack) (hq : p ≤ q) :
    Below q stack := fun op hop => Nat.lt_of_lt_of_le (h op hop) hq

/-- **The invariant of the conversion.**  A spelling leaves operators of its own precedence at least
    on the stack, and as soon as they are released the postorder of its tree is complete. -/
theorem foldlM_feed_infix {p : Nat} {tokens : List Token} {t : Tree} (h : Infix p tokens t) :
    ∀ (output : List Token) (stack : List Pending), Below p stack →
      ∃ (ops : List Operator) (rest : List Token), (∀ op ∈ ops, p ≤ op.precedence) ∧
        (ops.map Token.operator).reverse ++ rest = t.postorder.reverse ++ output ∧
        tokens.foldlM feed ⟨output, stack⟩ = .ok ⟨rest, ops.map .operator ++ stack⟩ := by
  induction h with
  | operand x => exact fun _ _ _ => ⟨[], _, by simp, rfl, rfl⟩
  | parens inner ih =>
    intro output stack _
    obtain ⟨ops, rest, -, hpost, hrun⟩ := ih output (.opening :: stack) fun op hop => by cases hop
    refine ⟨[], (ops.map Token.operator).reverse ++ rest, by simp, hpost, ?_⟩
    rw [List.cons_append, List.foldlM_cons, feed_opening]
    show (_ ++ [Token.paren .closing]).foldlM feed _ = _
    rw [List.foldlM_append, hrun]
    show [Token.paren .closing].foldlM feed ⟨rest, ops.map .operator ++ .opening :: stack⟩ = _
    rw [List.foldlM_cons, feed_closing]
    rfl
  | @apply p op lhs rhs left right le l r ihl ihr =>
    intro output stack hstack
    obtain ⟨ops, rest, hops, hpost, hrun⟩ := ihl output stack (hstack.mono le)
    -- the operator releases exactly what its left operand has left
    have hop := feed_operator hops (hstack.mono le) rest
    obtain ⟨ops', rest', hops', hpost', hrun'⟩ := ihr ((ops.map Token.operator).reverse ++ rest)
      (.operator op :: stack) fun o ho => by cases ho; exact Nat.lt_succ_self _
    refine ⟨ops' ++ [op], rest', ?_, ?_, ?_⟩
    · intro o ho
      rcases List.mem_append.1 ho with ho | ho
      · have := hops' o ho
        omega
      · rwa [List.mem_singleton.1 ho]
    · simp only [List.map_append, List.reverse_append, List.append_assoc, hpost', hpost,
        Tree.postorder]
      simp
    · rw [List.foldlM_append, hrun]
      show (Token.operator op :: rhs).foldlM feed ⟨rest, ops.map .operator ++ stack⟩ = _
      rw [List.foldlM_cons, hop]
      show rhs.foldlM feed _ = _
      rw [hrun']
      simp

/-- The conversion of a spelling is the postorder of its tree. -/
theorem toPostorder_of_infix {tokens : List Token} {t : Tree} (h : Infix 0 tokens t) :
    toPostorder tokens = .ok t.postorder := by
  obtain ⟨ops, rest, -, hpost, hrun⟩ := foldlM_feed_infix h [] [] fun op hop => by cases hop
  rw [List.append_nil] at hpost hrun
  rw [toPostorder, start, hrun]
  show finish ⟨rest, ops.map .operator⟩ = _
  rw [finish_operators, hpost, List.reverse_reverse]

end Calculator.Expression
