/-
  What waits while a conversion is under way.

  1. `Layered tokens stack` — the invariant of the stack behind the tokens taken so far.  Directly above
     an operator stands only one that binds tighter, or a parenthesis; and the stack, from the bottom
     up, is part of the tokens in their order.
  2. Whatever a step does to the stack is one of three things: it drops what is on top, it pushes what
     may stand there, or it leaves the stack alone (`Layered.drop`, `Layered.push`, `Layered.skip`).
     So a step keeps the invariant, and then a run does.
  3. Operators that wait without a parenthesis between them get tighter from the bottom up, so there are
     never more of them than there are precedences (`Layered.run_rising`, `length_le_three`).
  4. `Conversion.stack_of_run` — what the stack looks like after any beginning of any tokens.  How many
     parentheses are open on it is known already from `foldlM_feed_parens`.
-/
import Calculator.Proofs.Balance
import Mathlib.Data.List.Chain
import Mathlib.Data.List.Perm.Subperm

namespace Calculator

namespace Expression

/-- The token that waits. -/
def Pending.token : Pending → Token
  | .operator op => .operator op
  | .opening => .paren .opening

namespace Conversion

/-! ## The invariant of the stack -/

/-- What may stand directly above what: an operator above another only if it binds tighter. -/
def Above : Pending → Pending → Prop
  | .operator op, .operator below => below.precedence < op.precedence
  | .operator _, .opening | .opening, _ => True

/-- The tokens on a stack, from the bottom up. -/
def tokensOf (stack : List Pending) : List Token := (stack.map Pending.token).reverse

theorem tokensOf_cons (p : Pending) (stack : List Pending) :
    tokensOf (p :: stack) = tokensOf stack ++ [p.token] := by
  rw [tokensOf, List.map_cons, List.reverse_cons]
  rfl

theorem tokensOf_append (top stack : List Pending) :
    tokensOf (top ++ stack) = tokensOf stack ++ tokensOf top := by
  rw [tokensOf, List.map_append, List.reverse_append]
  rfl

/-- How the stack of a conversion looks that has taken these tokens. -/
structure Layered (tokens : List Token) (stack : List Pending) : Prop where
  rising : stack.IsChain Above
  sublist : (tokensOf stack).Sublist tokens

namespace Layered

variable {tokens : List Token} {stack : List Pending}

theorem start : Layered [] [] := ⟨.nil, .slnil⟩

/-- What is on top may go. -/
theorem drop {top : List Pending} (h : Layered tokens (top ++ stack)) : Layered tokens stack where
  rising := (List.isChain_append.1 h.rising).2.1
  sublist := by
    have hsublist := h.sublist
    rw [tokensOf_append] at hsublist
    exact (List.sublist_append_left _ _).trans hsublist

/-- A token may be pushed where it may stand. -/
theorem push (h : Layered tokens stack) {p : Pending} (hp : ∀ q ∈ stack.head?, Above p q) :
    Layered (tokens ++ [p.token]) (p :: stack) where
  rising := h.rising.cons hp
  sublist := by
    rw [tokensOf_cons]
    exact h.sublist.append (List.Sublist.refl _)

/-- A token that is not pushed changes nothing. -/
theorem skip (h : Layered tokens stack) (tok : Token) : Layered (tokens ++ [tok]) stack :=
  ⟨h.rising, h.sublist.trans (List.sublist_append_left _ _)⟩

/-- **One token.** -/
theorem feed {c d : Conversion} {tok : Token} (h : Layered tokens c.stack)
    (hfeed : feed c tok = .ok d) : Layered (tokens ++ [tok]) d.stack := by
  cases feed_eq_ok_iff.1 hfeed with
  | operand output stack x => exact h.skip _
  | @operator op ops rest hops hrest output =>
    refine h.drop.push (p := .operator op) fun q hq => ?_
    cases q with
    | operator below => exact hrest below hq
    | opening => trivial
  | opening output stack => exact h.push (p := .opening) fun _ _ => trivial
  | closing ops output stack =>
    -- the operators go first, and the parenthesis goes with them
    have hopening : Layered tokens ([.opening] ++ stack) := h.drop
    exact hopening.drop.skip _

/-- **All tokens.** -/
theorem foldlM {c : Conversion} (hrun : tokens.foldlM Conversion.feed Conversion.start = .ok c) :
    Layered tokens c.stack := by
  have hstart : Layered [] Conversion.start.stack := Layered.start
  exact Result.foldlM_keeps (P := fun taken d => Layered taken d.stack)
    (fun _ _ _ _ h hfeed => h.feed hfeed) hstart hrun

/-! ## Operators without a parenthesis between them -/

/-- They get tighter from the bottom up. -/
theorem run_rising {above below : List Pending} {ops : List Operator}
    (h : Layered tokens (above ++ ops.map .operator ++ below)) :
    (ops.reverse.map Operator.precedence).Pairwise (· < ·) := by
  have hops : (ops.map Pending.operator).IsChain Above :=
    (List.isChain_append.1 (List.isChain_append.1 h.rising).1).2.1
  have hchain : (ops.map Operator.precedence).IsChain (· > ·) := by
    rw [List.isChain_map] at hops ⊢
    exact hops
  rw [List.map_reverse, List.pairwise_reverse]
  exact List.isChain_iff_pairwise.1 hchain

end Layered

/-- There are three precedences. -/
theorem precedence_mem (op : Operator) : op.precedence ∈ [0, 1, 3] := by
  cases op <;> decide

/-- So there are at most three operators of different precedences. -/
theorem length_le_three {ops : List Operator} (h : (ops.map Operator.precedence).Pairwise (· < ·)) :
    ops.length ≤ 3 := by
  have hnodup : (ops.map Operator.precedence).Nodup := h.imp Nat.ne_of_lt
  have hsubset : ops.map Operator.precedence ⊆ [0, 1, 3] := by
    intro p hp
    obtain ⟨op, -, rfl⟩ := List.mem_map.1 hp
    exact precedence_mem op
  have hlength := (List.subperm_of_subset hnodup hsubset).length_le
  rwa [List.length_map] at hlength

/-- A stack holds operators and opening parentheses. -/
theorem mem_tokensOf {stack : List Pending} {tok : Token} (h : tok ∈ tokensOf stack) :
    (∃ op, tok = .operator op) ∨ tok = .paren .opening := by
  obtain ⟨p, -, rfl⟩ := List.mem_map.1 (List.mem_reverse.1 h)
  cases p with
  | operator op => exact Or.inl ⟨op, rfl⟩
  | opening => exact Or.inr rfl

/-- The parentheses that are open are those opened so far, less those closed. -/
theorem depth_of_run {tokens : List Token} {c : Conversion}
    (h : tokens.foldlM feed start = .ok c) :
    (depth c.stack : Int) = tokens.count (.paren .opening) - tokens.count (.paren .closing) := by
  have hopening := Token.count_parens .opening tokens
  have hclosing := Token.count_parens .closing tokens
  have hstart : depth start.stack = 0 := rfl
  rcases foldlM_feed_parens tokens start with ⟨-, herror⟩ | ⟨-, d, hd, hcount⟩
  · rw [h] at herror
    cases herror
  · rw [h] at hd
    cases hd
    omega

/-- **The stack of a conversion.**  Let a beginning of some tokens, well-formed or not, be taken without
    an error, so that the conversion goes on from there with the rest.  Then the stack holds, in their
    order, operators and opening parentheses that were taken, and nothing else.  Wherever operators stand
    on it without a parenthesis between them, they bind ever tighter from the bottom up, and so there
    are at most three of them.  And on the stack are as many opening parentheses as were taken, less
    the closing ones. -/
theorem stack_of_run {before : List Token} {c : Conversion} (h : before.foldlM feed start = .ok c)
    (after : List Token) :
    toPostorder (before ++ after) = (after.foldlM feed c >>= finish) ∧
    (tokensOf c.stack).Sublist before ∧
    (∀ tok ∈ tokensOf c.stack, (∃ op, tok = .operator op) ∨ tok = .paren .opening) ∧
    (∀ (above : List Pending) (ops : List Operator) (below : List Pending),
      c.stack = above ++ ops.map .operator ++ below →
      (ops.reverse.map Operator.precedence).Pairwise (· < ·) ∧ ops.length ≤ 3) ∧
    ((tokensOf c.stack).count (.paren .opening) : Int) =
      before.count (.paren .opening) - before.count (.paren .closing) := by
  have hlayered := Layered.foldlM h
  refine ⟨?_, hlayered.sublist, fun tok => mem_tokensOf, ?_, ?_⟩
  · rw [toPostorder, List.foldlM_append, h]
    rfl
  · intro above ops below hstack
    rw [hstack] at hlayered
    have hrising := hlayered.run_rising
    have hlength := length_le_three hrising
    rw [List.length_reverse] at hlength
    exact ⟨hrising, hlength⟩
  · have hcount : (tokensOf c.stack).count (.paren .opening) = depth c.stack := by
      rw [tokensOf, List.count_reverse, depth, List.count, List.count, List.countP_map]
      congr 1
      funext p
      cases p <;> rfl
    rw [hcount]
    exact depth_of_run h

/-- Behind `8 - ( 2 + 3 * 4 ^` three operators wait above the parenthesis and one below it; the next
    `*` releases two of them. -/
theorem stack_of_run_full :
    let before : List Token := [.operand (.number 8), .operator .sub, .paren .opening,
      .operand (.number 2), .operator .add, .operand (.number 3), .operator .mul,
      .operand (.number 4), .operator .pow]
    let after : List Token := [.operand (.number 2), .operator .mul, .operand (.number 5),
      .paren .closing]
    let c : Conversion := ⟨[.operand (.number 4), .operand (.number 3), .operand (.number 2),
      .operand (.number 8)], [.operator .pow, .operator .mul, .operator .add, .opening, .operator .sub]⟩
    before.foldlM feed start = .ok c ∧
      toPostorder (before ++ after) = (after.foldlM feed c >>= finish) ∧
      (tokensOf c.stack).Sublist before ∧
      [Operator.add, .mul, .pow].map Operator.precedence = [0, 1, 3] ∧
      ([0, 1, 3] : List Nat).Pairwise (· < ·) ∧
      ((tokensOf c.stack).count (.paren .opening) : Int) = 1 - 0 := by
  intro before after c
  have h : before.foldlM feed start = .ok c := rfl
  obtain ⟨hgoes, hsublist, -, hrising, hcount⟩ := stack_of_run h after
  exact ⟨h, hgoes, hsublist, rfl,
    (hrising [] [.pow, .mul, .add] [.opening, .operator .sub] rfl).1, hcount⟩

end Conversion

end Expression

end Calculator
