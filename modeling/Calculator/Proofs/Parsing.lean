/-
  Everything with the shape of an expression and with matching parentheses can be spelled.

  1. The invariant of reading a text from left to right: what is read is a list of open groups, then
     what stands in front of the next operand, then whatever the place says (`Reads`).
  2. A character that leads from one place to another keeps the invariant (`Reads.next_opening`,
     `Reads.next_closing`, `Reads.next_other`).  Only a closing parenthesis needs more than the
     place: a group that it can close.
  3. So a run keeps it as long as the parentheses are not overclosed (`Reads.foldlM`), and at the end,
     with no group open, it says that the text spells a tree (`exists_spelling`).
  4. Signs in front of a digit go into the first word (`Spelling.exists_signed`).
-/
import Calculator.Proofs.Spelling

namespace Calculator.Expression

open Text

/-! ## One more operand behind an expression -/

namespace Spelling

variable {first : Bool} {s t : Text} {x y : Tree}

theorem exists_pow_term (h : Spelling first .term s x) (ht : Spelling false .atom t y) :
    ∃ z, Spelling first .term (s ++ '^' :: t) z := by
  cases h with
  | power h => exact ⟨_, .power (.pow h ht)⟩
  | @product _ op l p _ _ hop lhs rhs =>
    -- the power goes to the last factor
    rw [List.append_assoc, List.cons_append]
    exact ⟨_, .product hop lhs (.pow rhs ht)⟩

theorem exists_pow (h : Spelling first .expression s x) (ht : Spelling false .atom t y) :
    ∃ z, Spelling first .expression (s ++ '^' :: t) z := by
  cases h with
  | term h =>
    obtain ⟨z, hz⟩ := h.exists_pow_term ht
    exact ⟨z, .term hz⟩
  | sum lhs run rhs =>
    obtain ⟨z, hz⟩ := rhs.exists_pow_term ht
    rw [List.append_assoc]
    exact ⟨_, .sum lhs run hz⟩

theorem exists_product {op : Operator} (hop : op = .mul ∨ op = .div)
    (h : Spelling first .expression s x) (ht : Spelling false .power t y) :
    ∃ z, Spelling first .expression (s ++ op.symbol :: t) z := by
  cases h with
  | term h => exact ⟨_, .term (.product hop h ht)⟩
  | sum lhs run rhs =>
    rw [List.append_assoc]
    exact ⟨_, .sum lhs run (.product hop rhs ht)⟩

end Spelling

/-- What stands in front of an operand: nothing, or an expression and an operator. -/
inductive Awaiting : Text → Prop
  | nothing : Awaiting []
  | run {l r : Text} {x : Tree} (lhs : Spelling false .expression l x) (run : IsRun r) :
      Awaiting (l ++ r)
  | single {l : Text} {x : Tree} {c : Char} (lhs : Spelling false .expression l x)
      (hc : Place.isSingle c) : Awaiting (l ++ [c])

/-- With the operand that it waits for it is an expression. -/
theorem Awaiting.atom {v t : Text} {y : Tree} (h : Awaiting v) (ht : Spelling false .atom t y) :
    ∃ z, Spelling false .expression (v ++ t) z := by
  cases h with
  | nothing => exact ⟨_, .term (.power (.atom ht))⟩
  | run lhs run => exact ⟨_, .sum lhs run (.power (.atom ht))⟩
  | @single l x c lhs hc =>
    have hcases : c = '*' ∨ c = '/' ∨ c = '^' := by simpa [Place.isSingle, or_assoc] using hc
    rw [List.append_assoc]
    rcases hcases with rfl | rfl | rfl
    · exact lhs.exists_product (Or.inl rfl) (.atom ht)
    · exact lhs.exists_product (Or.inr rfl) (.atom ht)
    · exact lhs.exists_pow ht

/-! ## The invariant -/

/-- Groups that are open, one within the other, and what stands in front of each. -/
inductive Nested : Nat → Text → Prop
  | outermost : Nested 0 []
  | group {d : Nat} {o v : Text} (outer : Nested d o) (h : Awaiting v) :
      Nested (d + 1) (o ++ v ++ ['('])

/-- What has been read when a place is reached with `d` groups open. -/
inductive Reads : Nat → Place → Text → Prop
  | signs {d : Nat} {o l r : Text} {x : Tree} (outer : Nested d o)
      (lhs : Spelling false .expression l x) (run : IsRun r) : Reads d .signs (o ++ (l ++ r))
  | openings {d : Nat} {o v : Text} (outer : Nested d o) (h : Awaiting v) :
      Reads d .openings (o ++ v)
  | word {d : Nat} {o v w : Text} (outer : Nested d o) (h : Awaiting v) (hw : IsWord w) :
      Reads d .word (o ++ (v ++ w))
  | closings {d : Nat} {o l : Text} {x : Tree} (outer : Nested d o)
      (h : Spelling false .expression l x) : Reads d .closings (o ++ l)

namespace Reads

variable {d : Nat} {place q : Place} {u : Text}

/-- Where an operand may end, an expression has been read in the innermost group. -/
theorem exists_operand (h : Reads d place u) (hplace : place.isFinal) :
    ∃ o l x, Nested d o ∧ Spelling false .expression l x ∧ u = o ++ l := by
  cases h with
  | signs => cases hplace
  | openings => cases hplace
  | word outer h hw =>
    obtain ⟨z, hz⟩ := h.atom (.word hw)
    exact ⟨_, _, z, outer, hz, rfl⟩
  | closings outer h => exact ⟨_, _, _, outer, h, rfl⟩

/-- Elsewhere an operand is waited for. -/
theorem exists_awaiting (h : Reads d place u) (hplace : place.isFinal = false) :
    ∃ o v, Nested d o ∧ Awaiting v ∧ u = o ++ v := by
  cases h with
  | signs outer lhs run => exact ⟨_, _, outer, .run lhs run, rfl⟩
  | openings outer h => exact ⟨_, _, outer, h, rfl⟩
  | word => cases hplace
  | closings => cases hplace

/-! ## One character -/

theorem next_opening (h : Reads d place u) (hnext : place.next '(' = some q) :
    Reads (d + 1) q (u ++ ['(']) := by
  have hplace : place.isFinal = false ∧ q = .openings := by
    cases place <;> cases hnext <;> exact ⟨rfl, rfl⟩
  obtain ⟨hfinal, rfl⟩ := hplace
  obtain ⟨o, v, outer, hv, rfl⟩ := h.exists_awaiting hfinal
  have := Reads.openings (outer.group hv) .nothing
  rwa [List.append_nil] at this

theorem next_closing (h : Reads (d + 1) place u) (hnext : place.next ')' = some q) :
    Reads d q (u ++ [')']) := by
  have hplace : place.isFinal ∧ q = .closings := by
    cases place <;> cases hnext <;> exact ⟨rfl, rfl⟩
  obtain ⟨hfinal, rfl⟩ := hplace
  obtain ⟨o, l, x, outer, hl, rfl⟩ := h.exists_operand hfinal
  cases outer with
  | @group _ o v outer hv =>
    -- the group is the operand that was waited for in front of it
    obtain ⟨z, hz⟩ := hv.atom (.group hl)
    have := Reads.closings outer hz
    simpa using this

/-- Behind an operand, an operator. -/
theorem next_afterOperand {c : Char} (h : Reads d place u) (hplace : place.isFinal)
    (hc : Paren.ofChar? c = none) (hnext : Place.afterOperand c = some q) :
    Reads d q (u ++ [c]) := by
  obtain ⟨o, l, x, outer, hl, rfl⟩ := h.exists_operand hplace
  have hne : c ≠ ')' := by
    rintro rfl
    cases hc
  rw [Place.afterOperand, if_neg hne] at hnext
  rw [List.append_assoc]
  by_cases hsign : isSign c
  · rw [if_pos hsign] at hnext
    cases hnext
    exact .signs outer hl (isRun_singleton hsign)
  · rw [if_neg hsign] at hnext
    by_cases hsingle : Place.isSingle c
    · rw [if_pos hsingle] at hnext
      cases hnext
      exact .openings outer (.single hl hsingle)
    · rw [if_neg hsingle] at hnext
      cases hnext

/-- In front of an operand, the first character of a word. -/
theorem next_wordChar {c : Char} (h : Reads d place u) (hplace : place.isFinal = false)
    (hc : isWordChar c) : Reads d .word (u ++ [c]) := by
  obtain ⟨o, v, outer, hv, rfl⟩ := h.exists_awaiting hplace
  rw [List.append_assoc]
  exact .word outer hv (isWord_singleton hc)

theorem next_other {c : Char} (h : Reads d place u) (hc : Paren.ofChar? c = none)
    (hnext : place.next c = some q) : Reads d q (u ++ [c]) := by
  have hne : c ≠ '(' := by
    rintro rfl
    cases hc
  cases place with
  | signs =>
    rw [Place.next, if_neg hne] at hnext
    split at hnext
    · -- the run gets longer
      rename_i hsign
      cases hnext
      cases h with
      | signs outer lhs run =>
        rw [List.append_assoc, List.append_assoc]
        exact .signs outer lhs (run.append (isRun_singleton hsign).2)
    · split at hnext
      · rename_i hword
        cases hnext
        exact h.next_wordChar rfl hword
      · cases hnext
  | openings =>
    rw [Place.next, if_neg hne] at hnext
    split at hnext
    · rename_i hword
      cases hnext
      exact h.next_wordChar rfl hword
    · cases hnext
  | word =>
    rw [Place.next] at hnext
    split at hnext
    · -- the word gets longer
      rename_i hword
      cases hnext
      cases h with
      | word outer hv hw =>
        rw [List.append_assoc, List.append_assoc]
        exact .word outer hv (hw.append (isWord_singleton hword).2)
    · exact h.next_afterOperand rfl hc hnext
  | closings => exact h.next_afterOperand rfl hc hnext

/-! ## All characters -/

/-- A run ends with as many groups open as its parentheses leave open, if none closes too many. -/
theorem foldlM (t : Text) (h : Reads d place u) (hrun : t.foldlM Place.next place = some q)
    (hover : ¬ Overclosed d t.parens) :
    ∃ d', Reads d' q (u ++ t) ∧
      d' + t.parens.count .closing = d + t.parens.count .opening := by
  induction t generalizing d place u with
  | nil =>
    cases hrun
    exact ⟨d, by rwa [List.append_nil], rfl⟩
  | cons c t ih =>
    rw [List.foldlM_cons] at hrun
    obtain ⟨p, hp, hrest⟩ := Option.bind_eq_some_iff.1 hrun
    have happend : u ++ c :: t = u ++ [c] ++ t := by rw [List.append_assoc]; rfl
    rw [happend]
    cases hc : Paren.ofChar? c with
    | none =>
      rw [parens_cons_of_none hc] at hover ⊢
      exact ih (h.next_other hc hp) hrest hover
    | some paren =>
      obtain rfl : c = paren.symbol := Paren.ofChar?_eq_some_iff.1 hc
      rw [parens_symbol_cons] at hover ⊢
      cases paren with
      | opening =>
        have hcons := count_opening_cons (parens t)
        obtain ⟨d', hread, hcount⟩ := ih (h.next_opening hp) hrest (mt overclosed_opening.2 hover)
        exact ⟨d', hread, by omega⟩
      | closing =>
        have hcons := count_closing_cons (parens t)
        have hclosed : ¬ (d = 0 ∨ Overclosed (d - 1) (parens t)) := mt overclosed_closing.2 hover
        -- a group is open, so the parenthesis has one to close
        have hd : d ≠ 0 := fun hzero => hclosed (Or.inl hzero)
        obtain ⟨e, rfl⟩ : ∃ e, d = e + 1 := ⟨d - 1, by omega⟩
        obtain ⟨d', hread, hcount⟩ := ih (h.next_closing hp) hrest fun ho => hclosed (Or.inr ho)
        exact ⟨d', hread, by omega⟩

end Reads

/-! ## Whole texts -/

theorem Place.next_signs_of_not_isSign {c : Char} (h : isSign c = false) :
    next signs c = next openings c := by
  simp [next, h]

/-- **Completeness of the grammar.**  A text that has the shape of an expression, does not begin with
    a sign and is balanced spells a tree. -/
theorem exists_spelling {t : Text} (hshape : isWellShaped t)
    (hhead : ∀ c ∈ t.head?, isSign c = false) (h : Balanced t) :
    ∃ x, Spelling false .expression t x := by
  obtain ⟨q, hq, hfinal⟩ := isWellShaped_iff.1 hshape
  -- without a sign in front, reading may as well begin behind an opening parenthesis
  have hstart : t.foldlM Place.next .openings = some q := by
    cases t with
    | nil => cases hq; cases hfinal
    | cons c t => rwa [List.foldlM_cons, ← Place.next_signs_of_not_isSign (hhead c rfl)]
  obtain ⟨d, hread, hcount⟩ :=
    (Reads.openings .outermost .nothing).foldlM t hstart h.not_overclosed
  obtain rfl : d = 0 := by have := h.count_eq; omega
  obtain ⟨o, l, x, outer, hl, ho⟩ := hread.exists_operand hfinal
  cases outer
  have htext : t = l := ho
  exact ⟨x, htext ▸ hl⟩

/-- Signs in front of a digit belong to the first word. -/
theorem Spelling.exists_signed {first : Bool} {phrase : Phrase} {t r : Text} {x : Tree}
    (h : Spelling first phrase t x) (hfirst : first = false) (hr : IsRun r)
    (hdigit : ∃ c ∈ t.head?, c.isDigit) : ∃ y, Spelling true phrase (r ++ t) y := by
  induction h with
  | term _ ih =>
    obtain ⟨y, hy⟩ := ih hfirst hdigit
    exact ⟨y, .term hy⟩
  | power _ ih =>
    obtain ⟨y, hy⟩ := ih hfirst hdigit
    exact ⟨y, .power hy⟩
  | atom _ ih =>
    obtain ⟨y, hy⟩ := ih hfirst hdigit
    exact ⟨y, .atom hy⟩
  | sum lhs run rhs ih _ =>
    rw [List.append_assoc, List.head?_append_of_ne_nil _ lhs.ne_nil] at hdigit
    obtain ⟨y, hy⟩ := ih hfirst hdigit
    rw [← List.append_assoc, ← List.append_assoc]
    exact ⟨_, .sum hy run rhs⟩
  | product hop lhs rhs ih _ =>
    rw [List.head?_append_of_ne_nil _ lhs.ne_nil] at hdigit
    obtain ⟨y, hy⟩ := ih hfirst hdigit
    rw [← List.append_assoc]
    exact ⟨_, .product hop hy rhs⟩
  | pow lhs rhs ih _ =>
    rw [List.head?_append_of_ne_nil _ lhs.ne_nil] at hdigit
    obtain ⟨y, hy⟩ := ih hfirst hdigit
    rw [← List.append_assoc]
    exact ⟨_, .pow hy rhs⟩
  | @word first w hw =>
    obtain ⟨c, hc, hd⟩ := hdigit
    cases w with
    | nil => cases hc
    | cons d w =>
      cases hc
      exact ⟨_, .signed hr hd fun e he => hw.2 e (List.mem_cons_of_mem _ he)⟩
  | signed => cases hfirst
  | group =>
    obtain ⟨c, hc, hd⟩ := hdigit
    cases hc
    exact absurd hd (by decide)

/-! ## Signs in front -/

theorem isWellShaped_append {r : Text} (h : ∀ c ∈ r, isSign c) (t : Text) :
    isWellShaped (r ++ t) = isWellShaped t := by
  have hrun : r.foldlM Place.next .signs = some .signs := by
    cases r with
    | nil => rfl
    | cons c r => exact Place.foldlM_next_run ⟨List.cons_ne_nil _ _, h⟩ (by decide)
  rw [isWellShaped, List.foldlM_append, hrun]
  rfl

theorem parens_append {r : Text} (h : ∀ c ∈ r, isSign c) (t : Text) :
    parens (r ++ t) = parens t := by
  rw [parens, List.filterMap_append,
    List.filterMap_eq_nil_iff.2 fun c hc => ofChar?_of_isSign (h c hc)]
  rfl

/-- The signs at the beginning of a text. -/
def leadingSigns (t : Text) : Text := t.takeWhile isSign

/-- What stands behind the signs at the beginning of a text. -/
def unsigned (t : Text) : Text := t.dropWhile isSign

theorem leadingSigns_append_unsigned (t : Text) : leadingSigns t ++ unsigned t = t :=
  List.takeWhile_append_dropWhile

theorem isSign_of_mem_leadingSigns {t : Text} : ∀ c ∈ leadingSigns t, isSign c :=
  fun _ => List.mem_takeWhile_imp

theorem not_isSign_head_unsigned (t : Text) : ∀ c ∈ (unsigned t).head?, isSign c = false := by
  intro c hc
  have := List.head?_dropWhile_not isSign t
  rw [unsigned] at hc
  rw [hc] at this
  exact this

/-- Behind its leading signs, a balanced text with the shape of an expression spells a tree. -/
theorem exists_spelling_unsigned {t : Text} (hshape : isWellShaped t) (h : Balanced t) :
    ∃ x, Spelling false .expression (unsigned t) x := by
  obtain ⟨hover, hcount⟩ := h
  rw [← leadingSigns_append_unsigned t] at hshape hover hcount
  rw [parens_append isSign_of_mem_leadingSigns] at hover hcount
  rw [isWellShaped_append isSign_of_mem_leadingSigns] at hshape
  exact exists_spelling hshape (not_isSign_head_unsigned t) ⟨hover, hcount⟩

/-- Whether a text begins with signs that no digit follows. -/
def IsDetached (t : Text) : Prop :=
  leadingSigns t ≠ [] ∧ ∀ c ∈ (unsigned t).head?, c.isDigit = false

/-- Unless its leading signs are detached, all of it spells a tree. -/
theorem exists_spelling_of_not_isDetached {t : Text} (hshape : isWellShaped t) (h : Balanced t)
    (hdetached : ¬ IsDetached t) : ∃ x, Spelling true .expression t x := by
  obtain ⟨x, hx⟩ := exists_spelling_unsigned hshape h
  have ht := leadingSigns_append_unsigned t
  by_cases hsigns : leadingSigns t = []
  · rw [hsigns, List.nil_append] at ht
    rw [← ht]
    exact ⟨x, hx.atStart⟩
  · have hdigit : ∃ c ∈ (unsigned t).head?, c.isDigit := by
      by_contra hno
      refine hdetached ⟨hsigns, fun c hc => ?_⟩
      have : ¬ c.isDigit = true := fun hd => hno ⟨c, hc, hd⟩
      simpa using this
    rw [← ht]
    exact hx.exists_signed rfl ⟨hsigns, isSign_of_mem_leadingSigns⟩ hdigit

end Calculator.Expression
