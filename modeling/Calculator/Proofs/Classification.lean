/-
  Which token a text stands for, and which tokens their texts stand for.

  1. `Decimal.Signed` — digits behind at most one sign of either kind, and the integer that they denote.
     It is what `Decimal.signed?` reads (`signed?_eq_some_iff`).
  2. `Token.Classified t tok` — the four ways in which a text stands for a token.  Symbols and integers
     have nothing in common, and a text that is neither is an identifier; so the order in which
     `Token.ofText` asks is of no consequence, and it gives each text the one token that is its own
     (`classified_iff`).
  3. `Token.ofText_text_inverse` — integers are the texts that stand for numbers.  A text and the
     written form of its token stand for the same token.  And a token is read from its own text unless
     it is an identifier that was given the text of another token.
-/
import Calculator.Proofs.Declaration
import Calculator.Proofs.Rereading

namespace Calculator

/-! ## Integers with a sign of either kind -/

namespace Decimal

open Text

/-- Digits behind at most one sign, and the integer that they denote. -/
inductive Signed : Text → Int → Prop
  | literal {t : Text} {n : Int} (h : Literal t n) : Signed t n
  | plus {digits : Text} (h : IsDigits digits) : Signed ('+' :: digits) (number digits)

theorem signed?_eq_some_iff {t : Text} {n : Int} : signed? t = some n ↔ Signed t n := by
  constructor
  · intro h
    obtain ⟨digits, hdigits, hform⟩ := isIntegral_of_signed? h
    obtain ⟨hread, hplus, hminus⟩ := signed?_of_isDigits hdigits
    rcases hform with rfl | rfl | rfl
    · rw [hread] at h
      cases h
      exact .literal (.natural hdigits)
    · rw [hplus] at h
      cases h
      exact .plus hdigits
    · rw [hminus] at h
      cases h
      exact .literal (.negative hdigits)
  · intro h
    cases h with
    | literal hliteral =>
      cases hliteral with
      | natural hdigits => exact (signed?_of_isDigits hdigits).1
      | negative hdigits => exact (signed?_of_isDigits hdigits).2.2
    | plus hdigits => exact (signed?_of_isDigits hdigits).2.1

/-- Texts that denote an integer are the integral ones. -/
theorem exists_signed_iff {t : Text} : (∃ n, Signed t n) ↔ IsIntegral t := by
  constructor
  · rintro ⟨n, h⟩
    exact isIntegral_of_signed? (signed?_eq_some_iff.2 h)
  · rintro ⟨digits, hdigits, rfl | rfl | rfl⟩
    · exact ⟨_, .literal (.natural hdigits)⟩
    · exact ⟨_, .plus hdigits⟩
    · exact ⟨_, .literal (.negative hdigits)⟩

end Decimal

namespace Token

open Text Decimal

/-! ## Classification -/

/-- The texts of operators, parentheses and integers. -/
def IsReserved (t : Text) : Prop :=
  (∃ op : Operator, t = [op.symbol]) ∨ (∃ p : Paren, t = [p.symbol]) ∨ IsIntegral t

/-- The token that a text stands for. -/
inductive Classified : Text → Token → Prop
  | operator (op : Operator) : Classified [op.symbol] (.operator op)
  | paren (p : Paren) : Classified [p.symbol] (.paren p)
  | number {t : Text} {n : Int} (h : Signed t n) : Classified t (.operand (.number n))
  | identifier {t : Text} (h : ¬ IsReserved t) : Classified t (.operand (.identifier t))

theorem ofText_operator (op : Operator) : ofText [op.symbol] = .operator op := by
  cases op <;> rfl

theorem ofText_paren (p : Paren) : ofText [p.symbol] = .paren p := by
  cases p <;> rfl

/-- No symbol is an integer. -/
theorem symbol?_of_isIntegral {t : Text} (h : IsIntegral t) : symbol? t = none := by
  cases hsymbol : symbol? t with
  | none => rfl
  | some tok =>
    obtain ⟨c, hc, rfl⟩ := exists_eq_singleton_of_symbol? hsymbol
    exact absurd h (not_isIntegral_singleton hc)

theorem ofText_of_signed {t : Text} {n : Int} (h : Signed t n) :
    ofText t = .operand (.number n) := by
  have hsymbol : symbol? t = none := symbol?_of_isIntegral (exists_signed_iff.1 ⟨n, h⟩)
  rw [ofText_of_symbol?_eq_none hsymbol, operandOfText, signed?_eq_some_iff.2 h]

/-- A text that is reserved for no other token is an identifier. -/
theorem ofText_of_not_isReserved {t : Text} (h : ¬ IsReserved t) :
    ofText t = .operand (.identifier t) := by
  have hsymbol : symbol? t = none := by
    cases hsymbol : symbol? t with
    | none => rfl
    | some tok =>
      rcases symbol?_cases hsymbol with ⟨op, -, ht⟩ | ⟨p, -, ht⟩
      · exact absurd (Or.inl ⟨op, ht⟩) h
      · exact absurd (Or.inr (Or.inl ⟨p, ht⟩)) h
  have hint : ¬ IsIntegral t := fun hint => h (Or.inr (Or.inr hint))
  rw [ofText_of_symbol?_eq_none hsymbol, operandOfText, signed?_eq_none hint]

/-- **Every text stands for the token that is read from it, and for no other.** -/
theorem classified_iff {t : Text} {tok : Token} : Classified t tok ↔ ofText t = tok := by
  constructor
  · intro h
    cases h with
    | operator op => exact ofText_operator op
    | paren p => exact ofText_paren p
    | number h => exact ofText_of_signed h
    | identifier h => exact ofText_of_not_isReserved h
  · rintro rfl
    by_cases hreserved : IsReserved t
    · rcases hreserved with ⟨op, rfl⟩ | ⟨p, rfl⟩ | hint
      · rw [ofText_operator]
        exact .operator op
      · rw [ofText_paren]
        exact .paren p
      · obtain ⟨n, hn⟩ := exists_signed_iff.2 hint
        rw [ofText_of_signed hn]
        exact .number hn
    · rw [ofText_of_not_isReserved hreserved]
      exact .identifier hreserved

/-! ## Texts and tokens -/

/-- Numbers are read from integers and from nothing else. -/
theorem ofText_eq_number_iff {t : Text} {n : Int} :
    ofText t = .operand (.number n) ↔ Signed t n := by
  constructor
  · intro h
    cases classified_iff.2 h with
    | number hn => exact hn
  · exact ofText_of_signed

/-- An identifier is read from its own text, unless this is the text of another token. -/
theorem ofText_eq_identifier_iff {t : Text} :
    ofText t = .operand (.identifier t) ↔ ¬ IsReserved t := by
  constructor
  · intro h
    cases classified_iff.2 h with
    | identifier ht => exact ht
  · exact ofText_of_not_isReserved

/-- Tokens that are no identifiers are read from their own texts. -/
theorem ofText_text_of_ne {tok : Token} (h : ∀ x, tok ≠ .operand (.identifier x)) :
    ofText tok.text = tok := by
  cases tok with
  | operand x =>
    cases x with
    | number n => exact ofText_text n
    | identifier name => exact absurd rfl (h name)
  | operator op => exact ofText_operator op
  | paren p => exact ofText_paren p

/-- **Reading and writing of single tokens.**  A text stands for a number just when it is digits behind
    at most one sign, and the number is the one that they denote.  What is read from a text is read
    again from its written form.  And a token is read from what is written for it, with one exception
    and no other: an identifier whose text is that of an operator, a parenthesis or an integer. -/
theorem ofText_text_inverse :
    (∀ t n, ofText t = .operand (.number n) ↔ Signed t n) ∧
    (∀ t, ofText (ofText t).text = ofText t) ∧
    ∀ tok : Token, ofText tok.text = tok ↔
      ¬ ∃ x, tok = .operand (.identifier x) ∧ IsReserved x := by
  refine ⟨fun t n => ofText_eq_number_iff, ofText_respelling, fun tok => ?_⟩
  by_cases hid : ∃ x, tok = .operand (.identifier x)
  · obtain ⟨x, rfl⟩ := hid
    refine ofText_eq_identifier_iff.trans (not_congr ?_)
    constructor
    · exact fun h => ⟨x, rfl, h⟩
    · rintro ⟨y, heq, h⟩
      cases heq
      exact h
  · have hne : ∀ x, tok ≠ .operand (.identifier x) := fun x hx => hid ⟨x, hx⟩
    exact iff_of_true (ofText_text_of_ne hne) fun ⟨x, hx, _⟩ => hid ⟨x, hx⟩

/-- A sign alone is an operator, two signs are an identifier, and so is the empty text. -/
example : ofText ['-'] = .operator .sub ∧ ofText "+-".toList = .operand (.identifier "+-".toList) ∧
    ofText [] = .operand (.identifier []) ∧ ofText "-07".toList = .operand (.number (-7)) := by
  decide

end Token

end Calculator
