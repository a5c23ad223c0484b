/-
  A minus sign in front of a literal, and a subtraction from zero.

  1. A product or quotient whose left operand is negated is negated as a whole, for quotients are
     rounded toward zero; and it fails where it failed before (`Operator.apply_neg`).
  2. `Leads d t` — the text `t` begins with the digits `d` as a whole word, which is not the base of a
     power.  A phrase that begins so keeps this when its last operator and what follows are taken away
     (`Leads.of_append_cons`), and a power that begins so is the literal alone (`Spelling.eq_of_leads`).
  3. Put in front of a term, the minus becomes part of its literal, and the value of the term is negated
     (`Spelling.exists_neg_term`).  Put in front of it behind a zero, it is the operator between the two.
     So an expression has the same value either way (`Spelling.exists_neg`).
  4. Whatever is wrong with the parentheses of a text is wrong either way as well
     (`result_of_not_balanced`).  `Session.step_negative_literal` puts all of it together.
-/
import Calculator.Proofs.Rejection
import Calculator.Proofs.ExpressionLine

namespace Calculator

open Text

/-! ## Negated operands -/

/-- The left operand of a product or a quotient may be negated before or after. -/
theorem Operator.apply_neg {op : Operator} (hop : op = .mul ∨ op = .div) (lhs rhs : Int) :
    op.apply (-lhs) rhs = (op.apply lhs rhs).map fun n => -n := by
  rcases hop with rfl | rfl
  · show Except.ok (-lhs * rhs) = .ok (-(lhs * rhs))
    rw [Int.neg_mul]
  · rw [apply, apply]
    split
    · rfl
    · show Except.ok ((-lhs).tdiv rhs) = .ok (-(lhs.tdiv rhs))
      rw [Int.neg_tdiv]

namespace Expression

/-- So the value of a product or a quotient is negated with the value of its left operand. -/
theorem Tree.value_node_neg {op : Operator} (hop : op = .mul ∨ op = .div) {x y right : Tree}
    {store : Store} (h : y.value store = (x.value store).map fun n => -n) :
    (Tree.node op y right).value store = ((Tree.node op x right).value store).map fun n => -n := by
  rw [Tree.value, Tree.value, h]
  rcases x.value store with e | lhs
  · rfl
  · rcases right.value store with e | rhs
    · rfl
    · exact Operator.apply_neg hop lhs rhs

/-! ## Texts that begin with a literal -/

/-- The text begins with these digits, and they are neither part of a longer word nor the base of a
    power. -/
def Leads (d t : Text) : Prop :=
  ∃ r, t = d ++ r ∧ ∀ c ∈ r.head?, isWordChar c = false ∧ c ≠ '^'

/-- What stands before a character that is no digit begins with the literal too, and is more than the
    literal if the character makes a power. -/
theorem Leads.of_append_cons {d l t : Text} {c : Char} (hd : IsDigits d) (h : Leads d (l ++ c :: t))
    (hc : c.isDigit = false) : Leads d l ∧ (c = '^' → l ≠ d) := by
  obtain ⟨r, heq, hr⟩ := h
  obtain ⟨u, rfl, rfl⟩ : ∃ u, l = d ++ u ∧ r = u ++ c :: t := by
    rcases List.append_eq_append_iff.1 heq with ⟨u, hdigits, hu⟩ | ⟨u, hl, hu⟩
    · cases u with
      | nil => exact ⟨[], by simp [hdigits], by simpa using hu.symm⟩
      | cons e u =>
        -- the character would be one of the digits
        obtain ⟨rfl, -⟩ := List.cons.inj hu
        have hdigit : c.isDigit := hd.2 c (by simp [hdigits])
        rw [hc] at hdigit
        cases hdigit
    · exact ⟨u, hl, hu⟩
  cases u with
  | nil =>
    refine ⟨⟨[], rfl, by simp⟩, ?_⟩
    intro hpow
    exact absurd hpow (hr c rfl).2
  | cons e u =>
    refine ⟨⟨e :: u, rfl, hr⟩, ?_⟩
    intro _ hsame
    simp at hsame

namespace Spelling

/-- A power that begins with a literal which is not its base is the literal alone. -/
theorem eq_of_leads {first : Bool} {phrase : Phrase} {d t : Text} {x : Tree} (hd : IsDigits d)
    (h : Spelling first phrase t x) (hfirst : first = false)
    (hphrase : phrase = .power ∨ phrase = .atom) (hleads : Leads d t) :
    t = d ∧ x = .leaf (Token.operandOfText d) := by
  induction h with
  | term => rcases hphrase with hphrase | hphrase <;> cases hphrase
  | sum => rcases hphrase with hphrase | hphrase <;> cases hphrase
  | power => rcases hphrase with hphrase | hphrase <;> cases hphrase
  | product => rcases hphrase with hphrase | hphrase <;> cases hphrase
  | atom _ ih => exact ih hfirst (Or.inr rfl) hleads
  | pow _ _ ih _ =>
    obtain ⟨hbase, hne⟩ := hleads.of_append_cons hd (by decide)
    exact absurd (ih hfirst (Or.inl rfl) hbase).1 (hne rfl)
  | @word first w hw =>
    obtain ⟨r, rfl, hr⟩ := hleads
    cases r with
    | nil =>
      rw [List.append_nil]
      exact ⟨rfl, rfl⟩
    | cons c r =>
      have hc : isWordChar c := hw.2 c (by simp)
      rw [(hr c rfl).1] at hc
      cases hc
  | signed => cases hfirst
  | group =>
    obtain ⟨r, heq, -⟩ := hleads
    obtain ⟨c, d, rfl⟩ := List.exists_cons_of_ne_nil hd.1
    obtain ⟨rfl, -⟩ := List.cons.inj heq
    exact absurd (hd.2 '(' (List.mem_cons_self ..)) (by decide)

/-- With the minus as part of its literal, a term has the negated value. -/
theorem exists_neg_term {first : Bool} {phrase : Phrase} {d t : Text} {x : Tree} (hd : IsDigits d)
    (h : Spelling first phrase t x) (hfirst : first = false) (hphrase : phrase = .term)
    (hleads : Leads d t) :
    ∃ y, Spelling true .term ('-' :: t) y ∧
      ∀ store, y.value store = (x.value store).map fun n => -n := by
  induction h with
  | power h =>
    obtain ⟨rfl, rfl⟩ := h.eq_of_leads hd hfirst (Or.inl rfl) hleads
    obtain ⟨c, w, rfl⟩ := List.exists_cons_of_ne_nil hd.1
    have hw : ∀ e ∈ w, isWordChar e := fun e he =>
      isWordChar_of_isDigit (hd.2 e (List.mem_cons_of_mem c he))
    refine ⟨_, .power (.atom (.signed (isRun_singleton rfl : IsRun ['-'])
      (hd.2 c (List.mem_cons_self ..)) hw)), ?_⟩
    intro store
    have hplain : (Token.operandOfText (c :: w)).value store = _ := wordValue_iff.1 (.digits hd)
    have hsigned : (Token.operandOfText ('-' :: c :: w)).value store = _ :=
      wordValue_iff.1 (.minus hd)
    rw [Tree.value, Tree.value, hplain]
    exact hsigned
  | @product first op l t x z hop lhs rhs ih _ =>
    have hdigit : op.symbol.isDigit = false := by rcases hop with rfl | rfl <;> rfl
    obtain ⟨hl, -⟩ := hleads.of_append_cons hd hdigit
    obtain ⟨y, hy, hvalue⟩ := ih hfirst rfl hl
    refine ⟨.node op y z, .product hop hy rhs, ?_⟩
    intro store
    exact Tree.value_node_neg hop (hvalue store)
  | term | sum | atom | pow | word | signed | group => cases hphrase

/-- With a minus in front an expression has the value that it has with a zero and a minus in front. -/
theorem exists_neg {first : Bool} {phrase : Phrase} {d t : Text} {x : Tree} (hd : IsDigits d)
    (h : Spelling first phrase t x) (hfirst : first = false) (hphrase : phrase = .expression)
    (hleads : Leads d t) :
    ∃ y z, Spelling true .expression ('-' :: t) y ∧ Spelling true .expression ('0' :: '-' :: t) z ∧
      ∀ store, y.value store = z.value store := by
  induction h with
  | @term first t x h =>
    subst hfirst
    obtain ⟨y, hy, hvalue⟩ := h.exists_neg_term hd rfl rfl hleads
    have hzero : Spelling true .expression ['0'] _ :=
      .term (.power (.atom (.word (isWord_singleton rfl))))
    refine ⟨y, _, .term hy, .sum hzero (isRun_singleton rfl : IsRun ['-']) h, ?_⟩
    intro store
    rw [hvalue]
    show (x.value store).map _ = x.value store >>= fun n => .ok (0 - n)
    rcases x.value store with e | n
    · rfl
    · show Except.ok (-n) = .ok (0 - n)
      rw [Int.zero_sub]
  | @sum first l r t x z lhs run rhs ih _ =>
    have hl : Leads d l := by
      obtain ⟨c, u, rfl⟩ := List.exists_cons_of_ne_nil run.1
      have hdigit : c.isDigit = false := by
        rcases isSign_iff.1 (run.2 c (List.mem_cons_self ..)) with rfl | rfl <;> rfl
      rw [List.append_assoc] at hleads
      exact (hleads.of_append_cons hd hdigit).1
    obtain ⟨y, y', hy, hy', hvalue⟩ := ih hfirst rfl hl
    refine ⟨.node (.ofRun r) y z, .node (.ofRun r) y' z, .sum hy run rhs, .sum hy' run rhs, ?_⟩
    intro store
    rw [Tree.value, Tree.value, hvalue]
  | power | product | atom | pow | word | signed | group => cases hphrase

end Spelling

/-! ## Shape and parentheses -/

/-- A blank leads nowhere. -/
theorem Place.next_of_isBlank {c : Char} (h : isBlank c) (place : Place) : place.next c = none := by
  have hne : ∀ d, isBlank d = false → c ≠ d := by
    rintro d hd rfl
    rw [h] at hd
    cases hd
  have hword : isWordChar c = false := by
    cases hc : isWordChar c with
    | false => rfl
    | true => exact absurd rfl (hne c (isBlank_of_isWordChar hc))
  have hopening : c ≠ '(' := hne _ (by decide)
  have hclosing : c ≠ ')' := hne _ (by decide)
  have hsign : isSign c = false := by
    simp [isSign, hne '+' (by decide), hne '-' (by decide)]
  have hsingle : isSingle c = false := by
    simp [isSingle, hne '*' (by decide), hne '/' (by decide), hne '^' (by decide)]
  cases place <;> simp [next, afterOperand, hword, hsign, hsingle, hopening, hclosing]

/-- What has the shape of an expression holds no blanks. -/
theorem strip_of_isWellShaped {t : Text} (h : isWellShaped t) : t.strip = t := by
  obtain ⟨q, hq, -⟩ := isWellShaped_iff.1 h
  refine strip_eq_self fun c hc => ?_
  cases hblank : isBlank c with
  | false => rfl
  | true => exact absurd hc (Place.notMem_of_foldlM_next (Place.next_of_isBlank hblank) hq)

theorem isWellShaped_minus (t : Text) : isWellShaped ('-' :: t) = isWellShaped t :=
  isWellShaped_append (r := ['-']) (by simp [isSign]) t

/-- Behind a minus an expression goes on as it begins. -/
theorem isWellShaped_zero_minus (t : Text) : isWellShaped ('0' :: '-' :: t) = isWellShaped t := rfl

theorem Balanced.of_parens_eq {s t : Text} (h : Balanced s) (hparens : s.parens = t.parens) :
    Balanced t :=
  ⟨hparens ▸ h.not_overclosed, hparens ▸ h.count_eq⟩

/-- The error of parentheses that do not match depends on the parentheses alone. -/
theorem result_of_not_balanced {s t : Text} (hs : isWellShaped s.strip) (ht : isWellShaped t.strip)
    (hparens : s.strip.parens = t.strip.parens) (h : ¬ Balanced s.strip) (store : Store) :
    result store s = result store t := by
  by_cases hover : Overclosed 0 s.strip.parens
  · have hover' : Overclosed 0 t.strip.parens := hparens ▸ hover
    rw [result_of_overclosed hs hover, result_of_overclosed ht hover']
  · have hover' : ¬ Overclosed 0 t.strip.parens := hparens ▸ hover
    have h' : ¬ Balanced t.strip := fun hb => h (hb.of_parens_eq hparens.symm)
    rw [balanced_iff hover, not_not] at h
    rw [balanced_iff hover', not_not] at h'
    rw [result_of_unclosed hs hover h, result_of_unclosed ht hover' h']

/-! ## Results -/

/-- A minus in front of a literal counts as a zero and a minus. -/
theorem result_minus {d t : Text} (hd : IsDigits d) (hleads : Leads d t) (hshape : isWellShaped t)
    (store : Store) : result store ('-' :: t) = result store ('0' :: '-' :: t) := by
  have hminus : isWellShaped ('-' :: t) := by rwa [isWellShaped_minus]
  have hzero : isWellShaped ('0' :: '-' :: t) := by rwa [isWellShaped_zero_minus]
  have hminus' : Text.strip ('-' :: t) = '-' :: t := strip_of_isWellShaped hminus
  have hzero' : Text.strip ('0' :: '-' :: t) = '0' :: '-' :: t := strip_of_isWellShaped hzero
  have hparens : parens ('-' :: t) = parens t := parens_cons_of_none rfl t
  have hparens' : parens ('0' :: '-' :: t) = parens t := by
    rw [parens_cons_of_none rfl, hparens]
  by_cases hbalanced : Balanced t
  · have hhead : ∀ c ∈ t.head?, isSign c = false := by
      obtain ⟨r, rfl, -⟩ := hleads
      have hword : IsWord d := ⟨hd.1, fun c hc => isWordChar_of_isDigit (hd.2 c hc)⟩
      exact hword.not_isSign_head r
    obtain ⟨x, hx⟩ := exists_spelling hshape hhead hbalanced
    obtain ⟨y, z, hy, hz, hvalue⟩ := hx.exists_neg hd rfl rfl hleads
    rw [← hminus'] at hy
    rw [← hzero'] at hz
    rw [hy.result_eq, hz.result_eq, hvalue]
  · refine result_of_not_balanced ?_ ?_ ?_ ?_ store
    · rwa [hminus']
    · rwa [hzero']
    · rw [hminus', hzero', hparens, hparens']
    · rw [hminus']
      exact fun hb => hbalanced (hb.of_parens_eq hparens)

end Expression

namespace Session

open Expression

/-- **A leading minus.**  In front of a literal that is not the base of a power, a minus may be replaced
    by a zero and a minus: the text keeps the shape of an expression, or does not have it either way,
    and if it has it, the line gets the same value or the same error.  The literal is any digits, with
    no word character behind them; a text with the shape of an expression has neither blanks nor an
    equals sign. -/
theorem step_negative_literal {d r : Text} (hd : IsDigits d)
    (hr : ∀ c ∈ r.head?, isWordChar c = false ∧ c ≠ '^') (store : Store) :
    isWellShaped ('-' :: (d ++ r)) = isWellShaped ('0' :: '-' :: (d ++ r)) ∧
      (isWellShaped ('-' :: (d ++ r)) →
        (step store ('-' :: (d ++ r))).result = (step store ('0' :: '-' :: (d ++ r))).result) := by
  refine ⟨?_, ?_⟩
  · rw [isWellShaped_minus, isWellShaped_zero_minus]
  · intro hminus
    have hshape : isWellShaped (d ++ r) := by rwa [isWellShaped_minus] at hminus
    have hzero : isWellShaped ('0' :: '-' :: (d ++ r)) := by rwa [isWellShaped_zero_minus]
    have hline : Line.IsExpression ('-' :: (d ++ r)) := by
      refine Line.isExpression_of_isWellShaped ?_
      rwa [strip_of_isWellShaped hminus]
    have hline' : Line.IsExpression ('0' :: '-' :: (d ++ r)) := by
      refine Line.isExpression_of_isWellShaped ?_
      rwa [strip_of_isWellShaped hzero]
    rw [result_step_of_isExpression hline, result_step_of_isExpression hline',
      result_minus hd ⟨r, rfl, hr⟩ hshape]

/-- The quotient of `-7/2*(x-1)` is rounded toward zero before and after the minus; where `x` is four,
    both lines are worth `-9`. -/
theorem step_negative_literal_quotient :
    let store := (∅ : Store).define ['x'] 4
    IsDigits ['7'] ∧ (∀ c ∈ List.head? "/2*(x-1)".toList, isWordChar c = false ∧ c ≠ '^') ∧
      isWellShaped "-7/2*(x-1)".toList ∧
      (step store "-7/2*(x-1)".toList).result = .ok (.value (-9)) ∧
      (step store "0-7/2*(x-1)".toList).result = .ok (.value (-9)) := by
  intro store
  have hd : IsDigits ['7'] := ⟨List.cons_ne_nil _ _, by simp⟩
  have hr : ∀ c ∈ List.head? "/2*(x-1)".toList, isWordChar c = false ∧ c ≠ '^' := by
    intro c hc
    cases hc
    decide
  have hshape : isWellShaped "-7/2*(x-1)".toList := by decide
  have hvalue : (step store "-7/2*(x-1)".toList).result = .ok (.value (-9)) := by decide
  refine ⟨hd, hr, hshape, hvalue, ?_⟩
  rw [← hvalue]
  exact ((step_negative_literal hd hr store).2 hshape).symm

/-- The base of a power is another matter. -/
example : (step ∅ "-2^2".toList).result = .ok (.value 4) ∧
    (step ∅ "0-2^2".toList).result = .ok (.value (-4)) := by decide

end Session

end Calculator
