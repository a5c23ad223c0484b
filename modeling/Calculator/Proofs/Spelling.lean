/-
  The grammar of expressions, told on texts.

  1. `Spelling first phrase t x` — the text `t` spells the tree `x` as a phrase of this kind:

       expression ::= term  |  expression run term
       term       ::= power |  term (`*` or `/`) power
       power      ::= atom  |  power `^` atom
       atom       ::= word  |  `(` expression `)`

     A run is one or more signs and counts as the operator that it stands for.  All operators
     associate to the left.  What stands beside a word is never a word character, so words are maximal
     without a word about it.
  2. Only the phrase that begins the whole text is `first`.  A run of signs in front of its first
     word is part of the word if the word begins with a digit; the run counts as one sign then.
  3. What is spelled has the shape of an expression (`Spelling.isWellShaped`), and its tokens are an
     infix spelling of the same tree (`Spelling.infix_ofText`).
-/
import Calculator.Proofs.Normalization
import Calculator.Proofs.Balance
import Calculator.Expression
import Mathlib.Data.List.Basic

namespace Calculator.Expression

open Text

/-! ## Reading the parts of a phrase -/

namespace Place

theorem ne_openings_of_isFinal {place : Place} (h : place.isFinal) : place ≠ openings := by
  rintro rfl
  cases h

theorem foldlM_next_run {r : Text} (h : IsRun r) {place : Place} (hplace : place ≠ openings) :
    r.foldlM next place = some signs := by
  obtain ⟨hne, hsign⟩ := h
  induction r generalizing place with
  | nil => exact absurd rfl hne
  | cons c r ih =>
    rw [List.foldlM_cons, next_of_isSign (hsign c (List.mem_cons_self ..)), if_neg hplace]
    show r.foldlM next signs = _
    cases r with
    | nil => rfl
    | cons d r =>
      exact ih (by decide) (List.cons_ne_nil _ _) fun e he => hsign e (List.mem_cons_of_mem c he)

theorem next_of_isWordChar {c : Char} (h : isWordChar c) {place : Place}
    (hplace : place ≠ closings) : next place c = some word := by
  have hparen : c ≠ '(' := by
    rintro rfl
    exact absurd h (by decide)
  cases place with
  | signs => simp [next, h, hparen, not_isSign_of_isWordChar h]
  | openings => simp [next, h, hparen]
  | word => simp [next, h]
  | closings => exact absurd rfl hplace

theorem foldlM_next_word {w : Text} (h : IsWord w) {place : Place} (hplace : place ≠ closings) :
    w.foldlM next place = some word := by
  obtain ⟨hne, hword⟩ := h
  induction w generalizing place with
  | nil => exact absurd rfl hne
  | cons c w ih =>
    rw [List.foldlM_cons, next_of_isWordChar (hword c (List.mem_cons_self ..)) hplace]
    show w.foldlM next word = _
    cases w with
    | nil => rfl
    | cons d w =>
      exact ih (by decide) (List.cons_ne_nil _ _) fun e he => hword e (List.mem_cons_of_mem c he)

theorem next_of_isSingle {c : Char} {place : Place} (h : place.isFinal) (hc : isSingle c) :
    next place c = some openings := by
  have hcases : c = '*' ∨ c = '/' ∨ c = '^' := by simpa [isSingle, or_assoc] using hc
  rcases hcases with rfl | rfl | rfl <;> cases place <;> first | rfl | cases h

theorem next_opening {place : Place} (h : place = signs ∨ place = openings) :
    next place '(' = some openings := by
  rcases h with rfl | rfl <;> rfl

theorem next_closing {place : Place} (h : place.isFinal) : next place ')' = some closings := by
  cases place with
  | signs => cases h
  | openings => cases h
  | word => rfl
  | closings => rfl

end Place

theorem isWellShaped_iff {t : Text} :
    isWellShaped t ↔ ∃ q, t.foldlM Place.next .signs = some q ∧ q.isFinal := by
  rw [isWellShaped]
  cases t.foldlM Place.next .signs with
  | none =>
    constructor
    · intro h; cases h
    · rintro ⟨q, hq, -⟩; cases hq
  | some q =>
    constructor
    · intro h; exact ⟨q, rfl, h⟩
    · rintro ⟨_, hq, h⟩; cases hq; exact h

/-! ## The grammar -/

/-- The kinds of phrases, the loosest first. -/
inductive Phrase
  | expression | term | power | atom
  deriving DecidableEq, Repr

/-- The text spells the tree as a phrase, which may be the first one. -/
inductive Spelling : Bool → Phrase → Text → Tree → Prop
  | term {first : Bool} {t : Text} {x : Tree} (h : Spelling first .term t x) :
      Spelling first .expression t x
  | sum {first : Bool} {l r t : Text} {x y : Tree} (lhs : Spelling first .expression l x)
      (run : IsRun r) (rhs : Spelling false .term t y) :
      Spelling first .expression (l ++ r ++ t) (.node (.ofRun r) x y)
  | power {first : Bool} {t : Text} {x : Tree} (h : Spelling first .power t x) :
      Spelling first .term t x
  | product {first : Bool} {op : Operator} {l t : Text} {x y : Tree} (hop : op = .mul ∨ op = .div)
      (lhs : Spelling first .term l x) (rhs : Spelling false .power t y) :
      Spelling first .term (l ++ op.symbol :: t) (.node op x y)
  | atom {first : Bool} {t : Text} {x : Tree} (h : Spelling first .atom t x) :
      Spelling first .power t x
  | pow {first : Bool} {l t : Text} {x y : Tree} (lhs : Spelling first .power l x)
      (rhs : Spelling false .atom t y) :
      Spelling first .power (l ++ '^' :: t) (.node .pow x y)
  | word {first : Bool} {w : Text} (hw : IsWord w) :
      Spelling first .atom w (.leaf (Token.operandOfText w))
  | signed {r w : Text} {d : Char} (run : IsRun r) (hd : d.isDigit)
      (hw : ∀ c ∈ w, isWordChar c) :
      Spelling true .atom (r ++ d :: w)
        (.leaf (Token.operandOfText ((Operator.ofRun r).symbol :: d :: w)))
  | group {first : Bool} {t : Text} {x : Tree} (h : Spelling false .expression t x) :
      Spelling first .atom ('(' :: t ++ [')']) x

namespace Spelling

variable {first : Bool} {phrase : Phrase} {t : Text} {x : Tree}

/-- What may stand behind the beginning may stand at the beginning. -/
theorem atStart (h : Spelling first phrase t x) : Spelling true phrase t x := by
  induction h with
  | term _ ih => exact .term ih
  | sum _ run rhs ihl _ => exact .sum ihl run rhs
  | power _ ih => exact .power ih
  | product hop _ rhs ihl _ => exact .product hop ihl rhs
  | atom _ ih => exact .atom ih
  | pow _ rhs ihl _ => exact .pow ihl rhs
  | word hw => exact .word hw
  | signed run hd hw => exact .signed run hd hw
  | group h => exact .group h

/-! ## Beginning and end -/

theorem ne_nil (h : Spelling first phrase t x) : t ≠ [] := by
  induction h with
  | term _ ih | power _ ih | atom _ ih => exact ih
  | word hw => exact hw.1
  | sum | product | pow | signed | group => simp_all

/-- Behind the beginning, no phrase begins with a sign. -/
theorem not_isSign_head (h : Spelling first phrase t x) (hfirst : first = false) :
    ∀ c ∈ t.head?, isSign c = false := by
  induction h with
  | term _ ih | power _ ih | atom _ ih => exact ih hfirst
  | sum lhs _ _ ihl _ =>
    rw [List.append_assoc, List.head?_append_of_ne_nil _ lhs.ne_nil]
    exact ihl hfirst
  | product _ lhs _ ihl _ | pow lhs _ ihl _ =>
    rw [List.head?_append_of_ne_nil _ lhs.ne_nil]
    exact ihl hfirst
  | word hw => exact fun c hc => not_isSign_of_isWordChar (hw.2 c (List.mem_of_mem_head? hc))
  | signed => cases hfirst
  | group =>
    intro c hc
    cases hc
    rfl

/-- No phrase ends with a sign. -/
theorem not_isSign_getLast (h : Spelling first phrase t x) :
    ∀ c ∈ t.getLast?, isSign c = false := by
  induction h with
  | term _ ih | power _ ih | atom _ ih => exact ih
  | sum _ _ rhs _ ihr => rwa [List.getLast?_append_of_ne_nil _ rhs.ne_nil]
  | product _ _ rhs _ ihr | pow _ rhs _ ihr =>
    rwa [List.getLast?_append_of_ne_nil _ (List.cons_ne_nil _ _),
      List.getLast?_cons_of_ne_nil rhs.ne_nil]
  | word hw => exact fun c hc => not_isSign_of_isWordChar (hw.2 c (List.mem_of_getLast? hc))
  | @signed r w d run hd hw =>
    rw [List.getLast?_append_of_ne_nil _ (List.cons_ne_nil _ _)]
    intro c hc
    rcases List.mem_cons.1 (List.mem_of_getLast? hc) with rfl | hc
    · exact not_isSign_of_isWordChar (isWordChar_of_isDigit hd)
    · exact not_isSign_of_isWordChar (hw c hc)
  | group =>
    intro c hc
    rw [List.getLast?_concat] at hc
    cases hc
    rfl

/-! ## The shape of what is spelled -/

/-- From where an operand may follow, a phrase leads to where an expression may end. -/
theorem exists_place (h : Spelling first phrase t x) {place : Place}
    (hplace : place = .signs ∨ first = false ∧ place = .openings) :
    ∃ q, t.foldlM Place.next place = some q ∧ q.isFinal := by
  induction h generalizing place with
  | term _ ih | power _ ih | atom _ ih => exact ih hplace
  | sum _ run _ ihl ihr =>
    obtain ⟨q, hq, hfinal⟩ := ihl hplace
    rw [List.foldlM_append, List.foldlM_append, hq]
    show ∃ q', ((_ : Text).foldlM Place.next q >>= _) = some q' ∧ _
    rw [Place.foldlM_next_run run (Place.ne_openings_of_isFinal hfinal)]
    exact ihr (Or.inl rfl)
  | product hop _ _ ihl ihr =>
    obtain ⟨q, hq, hfinal⟩ := ihl hplace
    rw [List.foldlM_append, hq]
    show ∃ q', (_ :: _ : Text).foldlM Place.next q = some q' ∧ _
    rw [List.foldlM_cons, Place.next_of_isSingle hfinal (by rcases hop with rfl | rfl <;> rfl)]
    exact ihr (Or.inr ⟨rfl, rfl⟩)
  | pow _ _ ihl ihr =>
    obtain ⟨q, hq, hfinal⟩ := ihl hplace
    rw [List.foldlM_append, hq]
    show ∃ q', (_ :: _ : Text).foldlM Place.next q = some q' ∧ _
    rw [List.foldlM_cons, Place.next_of_isSingle hfinal rfl]
    exact ihr (Or.inr ⟨rfl, rfl⟩)
  | word hw =>
    have hplace' : place ≠ .closings := by rcases hplace with rfl | ⟨-, rfl⟩ <;> decide
    exact ⟨.word, Place.foldlM_next_word hw hplace', rfl⟩
  | @signed r w d run hd hw =>
    have hplace' : place ≠ .openings := by
      rcases hplace with rfl | ⟨hfirst, -⟩
      · decide
      · cases hfirst
    have hword : IsWord (d :: w) := by
      exact (isWord_singleton (isWordChar_of_isDigit hd)).append hw
    refine ⟨.word, ?_, rfl⟩
    rw [List.foldlM_append, Place.foldlM_next_run run hplace']
    exact Place.foldlM_next_word hword (by decide)
  | group _ ih =>
    obtain ⟨q, hq, hfinal⟩ := ih (Or.inr ⟨rfl, rfl⟩)
    refine ⟨.closings, ?_, rfl⟩
    rw [List.cons_append, List.foldlM_cons, Place.next_opening (hplace.imp_right And.right)]
    show (_ ++ [')']).foldlM Place.next .openings = _
    rw [List.foldlM_append, hq]
    show [')'].foldlM Place.next q = _
    rw [List.foldlM_cons, Place.next_closing hfinal]
    rfl

theorem isWellShaped (h : Spelling first phrase t x) : isWellShaped t := by
  rw [isWellShaped_iff]
  exact h.exists_place (Or.inl rfl)

end Spelling

/-! ## The tokens of what is spelled -/

/-- The least precedence of an operator that may stand in a phrase outside of parentheses. -/
def Phrase.level : Phrase → Nat
  | expression => 0
  | term => 1
  | power => 3
  | atom => 4

/-- The pieces of a text at the beginning of an expression, or behind it. -/
def cut : Bool → Text → List Text
  | true => Token.pieces
  | false => Token.segments

theorem cut_append_cons {c : Char} (h : isWordChar c = false) (first : Bool) {s : Text}
    (hs : s ≠ []) (t : Text) : cut first (s ++ c :: t) = cut first s ++ [c] :: cut false t := by
  cases first with
  | false => exact Token.segments_append_cons h s t
  | true => exact Token.pieces_append_cons h hs t

theorem cut_of_head? {t : Text} (h : ∀ c ∈ t.head?, isSign c = false) (first : Bool) :
    cut first t = Token.segments t := by
  cases first with
  | false => rfl
  | true => exact Token.pieces_of_head? h

theorem cut_word {w : Text} (h : IsWord w) (first : Bool) : cut first w = [w] := by
  rw [cut_of_head? fun c hc => not_isSign_of_isWordChar (h.2 c (List.mem_of_mem_head? hc)),
    Token.segments_word h]

/-- The tokens around an operator. -/
theorem map_ofText_cut_operator (op : Operator) (first : Bool) {s : Text} (hs : s ≠ []) (t : Text) :
    (cut first (s ++ op.symbol :: t)).map Token.ofText =
      (cut first s).map Token.ofText ++ .operator op :: (cut false t).map Token.ofText := by
  rw [cut_append_cons (by cases op <;> decide) first hs, List.map_append, List.map_cons]
  congr 2
  cases op <;> rfl

/-- Where the conversion gives the postorder of a tree, the value is that of the tree. -/
theorem evaluate_of_postorder {t : Text} {x : Tree} (h : postorder t = .ok x.postorder)
    (store : Store) : evaluate store t = x.value store := by
  rw [evaluate, h]
  exact x.value_postorder store

namespace Spelling

variable {first : Bool} {phrase : Phrase} {t : Text} {x : Tree}

/-- **Spellings survive normalizing and cutting.**  The tokens of a phrase spell the same tree, with
    operators of its level. -/
theorem infix_cut (h : Spelling first phrase t x) :
    Infix phrase.level ((cut first (collapse t)).map Token.ofText) x := by
  induction h with
  | term _ ih => exact ih.mono (Nat.zero_le _)
  | power _ ih => exact ih.mono (by decide)
  | atom _ ih => exact ih.mono (by decide)
  | @sum first l r t x y lhs run rhs ihl ihr =>
    -- no sign stands on either side of the run, so it collapses by itself
    have hcollapse : collapse (l ++ r ++ t) = collapse l ++ (Operator.ofRun r).symbol :: collapse t := by
      rw [List.append_assoc, collapse_append (Or.inl lhs.not_isSign_getLast),
        collapse_run_append run (rhs.not_isSign_head rfl)]
    rw [hcollapse, map_ofText_cut_operator _ _ (collapse_ne_nil lhs.ne_nil)]
    refine .apply (Nat.zero_le _) ?_ ?_
    · rw [Operator.precedence_ofRun]; exact ihl
    · rw [Operator.precedence_ofRun]; exact ihr
  | @product first op l t x y hop lhs rhs ihl ihr =>
    have hsign : isSign op.symbol = false := by rcases hop with rfl | rfl <;> rfl
    have hprec : op.precedence = 1 := by rcases hop with rfl | rfl <;> rfl
    rw [collapse_append (Or.inl lhs.not_isSign_getLast), collapse_cons_of_not_isSign hsign,
      map_ofText_cut_operator _ _ (collapse_ne_nil lhs.ne_nil)]
    refine .apply (Nat.le_of_eq hprec.symm) ?_ ?_
    · rw [hprec]; exact ihl
    · rw [hprec]; exact ihr.mono (by decide)
  | @pow first l t x y lhs rhs ihl ihr =>
    rw [collapse_append (Or.inl lhs.not_isSign_getLast), collapse_cons_of_not_isSign rfl]
    show Infix _ ((cut first (collapse l ++ Operator.pow.symbol :: collapse t)).map _) _
    rw [map_ofText_cut_operator .pow _ (collapse_ne_nil lhs.ne_nil)]
    exact .apply (Nat.le_refl _) ihl ihr
  | @word first w hw =>
    rw [collapse_eq_self fun c hc => not_isSign_of_isWordChar (hw.2 c hc), cut_word hw]
    show Infix _ [Token.ofText w] _
    rw [Token.ofText_of_isWord hw]
    exact .operand _
  | @signed r w d run hd hw =>
    have hword : ∀ c ∈ d :: w, isSign c = false := by
      intro c hc
      rcases List.mem_cons.1 hc with rfl | hc
      · exact not_isSign_of_isWordChar (isWordChar_of_isDigit hd)
      · exact not_isSign_of_isWordChar (hw c hc)
    rw [collapse_run_append run fun c hc => hword c (List.mem_of_mem_head? hc), collapse_eq_self hword]
    -- the one sign that is left and the word are a single piece
    rw [cut, Token.pieces_signed (Operator.isSign_symbol_ofRun r) hd hw]
    exact .operand _
  | @group first t x h ih =>
    -- nothing in a group is first: its pieces are those of `segments`
    have hcollapse : collapse ('(' :: t ++ [')']) = '(' :: (collapse t ++ [')']) := by
      rw [List.cons_append, collapse_cons_of_not_isSign rfl, collapse_append (Or.inl h.not_isSign_getLast)]
      rfl
    rw [hcollapse, cut_of_head? (fun c hc => by cases hc; rfl),
      Token.segments_cons_of_not_isWordChar (by decide), Token.segments_append_cons (by decide)]
    rw [List.map_cons, List.map_append]
    exact .parens ih

/-- The tokens of a spelled text spell the same tree. -/
theorem infix_ofText (h : Spelling true .expression t.strip x) : Infix 0 (ofText t) x := h.infix_cut

theorem postorder_eq (h : Spelling true .expression t.strip x) :
    postorder t = .ok x.postorder := toPostorder_of_infix h.infix_ofText

/-- The value of a spelled text is the value of its tree. -/
theorem result_eq (h : Spelling true .expression t.strip x) (store : Store) :
    result store t = x.value store := by
  rw [result_of_isWellShaped h.isWellShaped, evaluate_of_postorder h.postorder_eq]

end Spelling

end Calculator.Expression
