/-
  What a word of an expression stands for.

  1. `Decimal.signed?` reads digits, with a sign in front or without one (`signed?_of_isDigits`), and
     nothing else (`signed?_eq_none`).
  2. `WordValue store w r` — what the word `w` comes to: digits are an integer, letters are the
     variable of that name, and any other word is no name.
  3. Reading a word as an operand and asking for the operand's value comes to just that
     (`wordValue_iff`).
-/
import Calculator.Expression.Value

namespace Calculator

/-! ## Digits -/

namespace Text

/-- One or more digits. -/
def IsDigits (t : Text) : Prop := t ≠ [] ∧ ∀ c ∈ t, c.isDigit

/-- The number that digits denote in base ten. -/
def number (digits : Text) : Nat := Nat.ofDigitChars 10 digits 0

theorem not_isAlpha_of_isDigit {c : Char} (h : c.isDigit) : c.isAlpha = false := by
  obtain ⟨-, hle⟩ := Char.isDigit_iff_toNat.1 h
  have hnine : c.toNat ≤ 57 := hle
  have hupper : c.isUpper = false := decide_eq_false fun h => by
    have : 65 ≤ c.toNat := UInt32.le_iff_toNat_le.1 h.1
    omega
  have hlower : ¬ 'a'.val ≤ c.val := by
    intro h
    have : 97 ≤ c.toNat := UInt32.le_iff_toNat_le.1 h
    omega
  show (c.isUpper || (decide ('a'.val ≤ c.val) && decide (c.val ≤ 'z'.val))) = false
  rw [hupper, decide_eq_false hlower]
  rfl

theorem IsDigits.toDigits (n : Nat) : IsDigits (Nat.toDigits 10 n) :=
  Decimal.isDigits_iff.1 (Decimal.isDigits_toDigits n)

/-- A text is integral when it is digits behind at most one sign. -/
def IsIntegral (t : Text) : Prop :=
  ∃ digits, IsDigits digits ∧ (t = digits ∨ t = '+' :: digits ∨ t = '-' :: digits)

/-- Letters are no digits and no sign. -/
theorem not_isIntegral_of_isName {t : Text} (h : t.isName) : ¬ IsIntegral t := by
  have halpha := (isName_iff.1 h).2
  rintro ⟨digits, ⟨hne, hdigit⟩, rfl | rfl | rfl⟩
  · cases t with
    | nil => exact hne rfl
    | cons c t =>
      have hc := not_isAlpha_of_isDigit (hdigit c (List.mem_cons_self ..))
      rw [halpha c (List.mem_cons_self ..)] at hc
      cases hc
  · exact absurd (halpha '+' (List.mem_cons_self ..)) (by decide)
  · exact absurd (halpha '-' (List.mem_cons_self ..)) (by decide)

end Text

namespace Decimal

open Text

/-- The integral texts are the signed literals. -/
theorem isSigned_iff_isIntegral {t : Text} : isSigned t ↔ IsIntegral t :=
  isSigned_iff.trans (exists_congr fun _ => and_congr isDigits_iff Iff.rfl)

theorem signed?_of_isDigits {t : Text} (h : IsDigits t) :
    signed? t = some (number t : Int) ∧ signed? ('+' :: t) = some (number t : Int) ∧
      signed? ('-' :: t) = some (-(number t : Int)) := by
  obtain ⟨hread, hplus, hminus⟩ := read_of_isDigits (isDigits_iff.2 h)
  refine ⟨?_, ?_, ?_⟩
  · rw [signed?, if_pos (isSigned_iff_isIntegral.2 ⟨t, h, Or.inl rfl⟩), hread]
    rfl
  · rw [signed?, if_pos (isSigned_iff_isIntegral.2 ⟨t, h, Or.inr (Or.inl rfl)⟩), hplus]
    rfl
  · rw [signed?, if_pos (isSigned_iff_isIntegral.2 ⟨t, h, Or.inr (Or.inr rfl)⟩), hminus]
    rfl

/-- Nothing but digits is read, with or without a sign in front. -/
theorem signed?_eq_none {t : Text} (h : ¬ IsIntegral t) : signed? t = none :=
  if_neg fun hsigned => h (isSigned_iff_isIntegral.1 hsigned)

theorem isIntegral_of_signed? {t : Text} {n : Int} (h : signed? t = some n) : IsIntegral t := by
  rw [signed?] at h
  split at h
  · rename_i hsigned
    exact isSigned_iff_isIntegral.1 hsigned
  · cases h

end Decimal

namespace Expression

open Text Decimal

/-! ## Words -/

/-- What a word comes to. -/
inductive WordValue (store : Store) : Text → Except Error Int → Prop
  | digits {t : Text} (h : IsDigits t) : WordValue store t (.ok (number t))
  | plus {t : Text} (h : IsDigits t) : WordValue store ('+' :: t) (.ok (number t))
  | minus {t : Text} (h : IsDigits t) : WordValue store ('-' :: t) (.ok (-(number t : Int)))
  | bound {w : Text} {n : Int} (h : w.isName) (hn : store.get? w = some n) :
      WordValue store w (.ok n)
  | unbound {w : Text} (h : w.isName) (hn : store.get? w = none) :
      WordValue store w (.error (.unknownVariable w))
  | other {w : Text} (hint : ¬ IsIntegral w) (hname : w.isName = false) :
      WordValue store w (.error (.invalidName w))

/-- The operand that a word is read as has the value of the word and no other. -/
theorem wordValue_iff {store : Store} {w : Text} {r : Except Error Int} :
    WordValue store w r ↔ (Token.operandOfText w).value store = r := by
  constructor
  · intro h
    cases h with
    | digits ht => rw [Token.operandOfText, (signed?_of_isDigits ht).1]; rfl
    | plus ht => rw [Token.operandOfText, (signed?_of_isDigits ht).2.1]; rfl
    | minus ht => rw [Token.operandOfText, (signed?_of_isDigits ht).2.2]; rfl
    | bound hname hn =>
      rw [Token.operandOfText, signed?_eq_none (not_isIntegral_of_isName hname)]
      rw [Operand.value, if_pos hname, Store.lookup_eq_ok_iff, hn]
    | unbound hname hn =>
      rw [Token.operandOfText, signed?_eq_none (not_isIntegral_of_isName hname)]
      rw [Operand.value, if_pos hname, Store.lookup, hn]
    | other hint hname =>
      rw [Token.operandOfText, signed?_eq_none hint, Operand.value, hname]
      rfl
  · rintro rfl
    by_cases hint : IsIntegral w
    · obtain ⟨t, ht, hw⟩ := hint
      obtain ⟨hdigits, hplus, hminus⟩ := signed?_of_isDigits ht
      rcases hw with rfl | rfl | rfl
      · rw [Token.operandOfText, hdigits]
        exact .digits ht
      · rw [Token.operandOfText, hplus]
        exact .plus ht
      · rw [Token.operandOfText, hminus]
        exact .minus ht
    · rw [Token.operandOfText, signed?_eq_none hint]
      cases hname : w.isName with
      | false =>
        rw [Operand.value, hname]
        exact .other hint hname
      | true =>
        rw [Operand.value, if_pos hname, Store.lookup]
        cases hn : store.get? w with
        | none => exact .unbound hname hn
        | some n => exact .bound hname hn

end Expression

end Calculator
