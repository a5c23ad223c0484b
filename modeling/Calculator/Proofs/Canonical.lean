/-
  What an expression puts out, and that it can be put in again.

  1. `Decimal.IsCanonical` — zero, or digits that do not begin with a zero, behind at most one minus
     sign.  Integers are written as these texts and as no others (`isCanonical_iff`).
  2. The digits of a positive number do not begin with a zero (`head?_toDigits_ne_zero`), and digits
     that do not are those of the number they denote (`toDigits_number`).  Both are inductions on the
     digits from the last one on, because dividing by ten drops the last digit.
  3. A canonical text gets itself for an answer, in every state, and can be assigned to every name
     (`answer_of_isCanonical`, `step_define_of_isCanonical`).
  4. `Session.output_reads_back` — all that an expression puts out is of this kind.
-/
import Calculator.Proofs.Observation
import Mathlib.Data.List.Induction

namespace Calculator

namespace Decimal

open Text

/-! ## Digits without a leading zero -/

theorem head?_toDigits_ne_zero {n : Nat} (h : 0 < n) : (Nat.toDigits 10 n).head? ≠ some '0' := by
  induction n using Nat.strongRecOn with
  | ind n ih =>
    by_cases hlt : n < 10
    · rw [Nat.toDigits_of_lt_base hlt, List.head?_cons]
      intro hzero
      have : n = 0 := Nat.digitChar_eq_zero.1 (Option.some.inj hzero)
      omega
    · -- the first digit is that of the tenth part
      rw [Nat.toDigits_of_base_le (by decide) (by omega),
        List.head?_append_of_ne_nil _ Nat.toDigits_ne_nil]
      exact ih (n / 10) (by omega) (by omega)

/-- One more digit behind the others. -/
theorem number_append_singleton (t : Text) (c : Char) :
    number (t ++ [c]) = 10 * number t + (c.toNat - 48) := by
  rw [number, Nat.ofDigitChars_append]
  rfl

theorem toDigits_of_isDigit {c : Char} (h : c.isDigit) : Nat.toDigits 10 (c.toNat - 48) = [c] := by
  obtain ⟨hle, hge⟩ := Char.isDigit_iff_toNat.1 h
  have hlow : 48 ≤ c.toNat := hle
  have hhigh : c.toNat ≤ 57 := hge
  have hchar : (c.toNat - 48).digitChar = c := by
    apply Char.toNat_inj.1
    rw [Nat.toNat_digitChar_of_lt_ten (by omega)]
    omega
  rw [Nat.toDigits_of_lt_base (by omega), hchar]

/-- Digits that do not begin with a zero are written again as they were read. -/
theorem toDigits_number {t : Text} (h : IsDigits t) (hzero : t.head? ≠ some '0') :
    Nat.toDigits 10 (number t) = t := by
  induction t using List.reverseRecOn with
  | nil => exact absurd rfl h.1
  | append_singleton s c ih =>
    have hc : c.isDigit := h.2 c (by simp)
    have hlast : c.toNat - 48 < 10 := by
      have hhigh : c.toNat ≤ 57 := (Char.isDigit_iff_toNat.1 hc).2
      omega
    rw [number_append_singleton]
    by_cases hs : s = []
    · subst hs
      show Nat.toDigits 10 (10 * 0 + (c.toNat - 48)) = [c]
      rw [Nat.mul_zero, Nat.zero_add, toDigits_of_isDigit hc]
    · have hfirst : s.head? ≠ some '0' := by rwa [List.head?_append_of_ne_nil _ hs] at hzero
      have hdigits : Nat.toDigits 10 (number s) = s :=
        ih ⟨hs, fun d hd => h.2 d (List.mem_append_left _ hd)⟩ hfirst
      have hpos : 0 < number s := by
        -- zero would be written with a zero in front
        rcases Nat.eq_zero_or_pos (number s) with hnone | hpos
        · rw [hnone] at hdigits
          rw [← hdigits] at hfirst
          exact absurd rfl hfirst
        · exact hpos
      rw [← Nat.toDigits_append_toDigits (by decide) hpos hlast, hdigits, toDigits_of_isDigit hc]

/-! ## Canonical texts -/

/-- Zero, or digits that do not begin with a zero, behind at most one minus sign. -/
inductive IsCanonical : Text → Prop
  | zero : IsCanonical ['0']
  | positive {digits : Text} (h : IsDigits digits) (hzero : digits.head? ≠ some '0') :
      IsCanonical digits
  | negative {digits : Text} (h : IsDigits digits) (hzero : digits.head? ≠ some '0') :
      IsCanonical ('-' :: digits)

/-- Canonical texts are what integers are written as. -/
theorem isCanonical_iff {t : Text} : IsCanonical t ↔ ∃ n, t = text n := by
  constructor
  · intro h
    cases h with
    | zero => exact ⟨0, rfl⟩
    | positive h hzero => exact ⟨.ofNat (number t), (toDigits_number h hzero).symm⟩
    | @negative digits h hzero =>
      have hdigits := toDigits_number h hzero
      cases hn : number digits with
      | zero =>
        rw [hn] at hdigits
        rw [← hdigits] at hzero
        exact absurd rfl hzero
      | succ n =>
        rw [hn] at hdigits
        exact ⟨.negSucc n, by rw [text, hdigits]⟩
  · rintro ⟨n, rfl⟩
    cases n with
    | ofNat n =>
      cases n with
      | zero => exact .zero
      | succ n => exact .positive (.toDigits _) (head?_toDigits_ne_zero (Nat.succ_pos n))
    | negSucc n => exact .negative (.toDigits _) (head?_toDigits_ne_zero (Nat.succ_pos n))

/-- `-007` is read as an integer, but no integer is written so. -/
example : integer? "-007".toList = some (-7) ∧ text (-7) = "-7".toList := by decide

/-! ## Canonical texts as literals -/

theorem literal_text (n : Int) : Literal (text n) n := integer?_eq_some_iff.1 (integer?_text n)

theorem Literal.strip_eq {t : Text} {n : Int} (h : Literal t n) : t.strip = t := by
  have hdigit : ∀ {digits : Text}, IsDigits digits → ∀ c ∈ digits, isBlank c = false :=
    fun hdigits c hc => isBlank_of_isWordChar (isWordChar_of_isDigit (hdigits.2 c hc))
  refine strip_eq_self fun c hc => ?_
  cases h with
  | natural hdigits => exact hdigit hdigits c hc
  | negative hdigits =>
    rcases List.mem_cons.1 hc with rfl | hc
    · decide
    · exact hdigit hdigits c hc

end Decimal

namespace Session

open Decimal

/-! ## Outputs as inputs -/

/-- The output of an expression is an integer in decimals. -/
theorem exists_text_of_answer {store : Store} {line t : Text} (hline : Line.IsExpression line)
    (h : answer store line = .ok (some t)) : ∃ n, t = text n := by
  rw [answer, result_step_of_isExpression hline] at h
  obtain ⟨r, hr, hout⟩ := Result.map_eq_ok_iff.1 h
  obtain ⟨n, -, rfl⟩ := Result.map_eq_ok_iff.1 hr
  exact ⟨n, (Option.some.inj hout).symm⟩

/-- What is written for an integer can be assigned wherever it stands. -/
theorem assigned_text (store : Store) (n : Int) : Assigned store (text n).strip (.ok n) := by
  rw [(literal_text n).strip_eq]
  exact .literal (literal_text n)

theorem answer_of_isCanonical {t : Text} (h : IsCanonical t) (store : Store) :
    answer store t = .ok (some t) ∧ (step store t).store = store := by
  obtain ⟨n, rfl⟩ := isCanonical_iff.1 h
  have hresult : (step store (text n)).result = .ok (.value n) :=
    result_step_of_assigned (assigned_text store n)
  refine ⟨?_, (path_step store (text n)).store_of_ok hresult nofun⟩
  rw [answer, hresult]
  rfl

theorem step_define_of_isCanonical {t : Text} (h : IsCanonical t) {x : Text} (hx : x.isName)
    (store : Store) :
    (step store (x ++ " = ".toList ++ t)).result = .ok .silent ∧
      answer (step store (x ++ " = ".toList ++ t)).store x = .ok (some t) := by
  obtain ⟨n, rfl⟩ := isCanonical_iff.1 h
  have hstrip : Text.strip (x ++ [' ']) = x := by
    rw [Text.strip_append, Text.strip_of_isName hx]
    exact List.append_nil x
  have hname : (Text.strip (x ++ [' '])).isName := by rwa [hstrip]
  have hvalue : Assigned store (Text.strip (' ' :: text n)) (.ok n) := by
    rw [Text.strip_cons_of_isBlank (by decide)]
    exact assigned_text store n
  have hline : x ++ " = ".toList ++ text n = (x ++ [' ']) ++ '=' :: ' ' :: text n := by simp
  have hdeclares := Line.declares_of_isName hname (equals_notMem_of_isName hname) (' ' :: text n)
  rw [hline, step_of_assigned hdeclares hname hvalue, hstrip]
  exact ⟨rfl, answer_of_bound hx (store.get?_define_self x n)⟩

/-- **Outputs are canonical and read back.**  What an expression puts out is an integer in canonical
    decimals.  As a line it gets itself for an answer in every state and changes nothing; assigned to
    any name it is accepted, and is then the answer to the name. -/
theorem output_reads_back {store : Store} {line t : Text} (hline : Line.IsExpression line)
    (h : answer store line = .ok (some t)) :
    IsCanonical t ∧ ∀ s : Store,
      answer s t = .ok (some t) ∧ (step s t).store = s ∧
      ∀ x : Text, x.isName →
        (step s (x ++ " = ".toList ++ t)).result = .ok .silent ∧
          answer (step s (x ++ " = ".toList ++ t)).store x = .ok (some t) := by
  have hcanonical : IsCanonical t := isCanonical_iff.2 (exists_text_of_answer hline h)
  refine ⟨hcanonical, fun s => ?_⟩
  obtain ⟨hanswer, hstore⟩ := answer_of_isCanonical hcanonical s
  exact ⟨hanswer, hstore, fun x hx => step_define_of_isCanonical hcanonical hx s⟩

/-- `2 - 3 * 04` puts out `-10`, which is read back as a line and from a variable that had another
    value before. -/
theorem output_reads_back_negative :
    let store := (∅ : Store).define "x".toList 7
    answer ∅ "2 - 3 * 04".toList = .ok (some "-10".toList) ∧ IsCanonical "-10".toList ∧
      answer store "-10".toList = .ok (some "-10".toList) ∧
      (step store "-10".toList).store = store ∧
      answer (step store "x = -10".toList).store "x".toList = .ok (some "-10".toList) := by
  intro store
  have hline : Line.IsExpression "2 - 3 * 04".toList := ⟨by decide, by decide, by decide⟩
  have houtput : answer ∅ "2 - 3 * 04".toList = .ok (some "-10".toList) := by decide
  obtain ⟨hcanonical, hback⟩ := output_reads_back hline houtput
  obtain ⟨hanswer, hstore, hname⟩ := hback store
  exact ⟨houtput, hcanonical, hanswer, hstore, (hname "x".toList (by decide)).2⟩

end Session

end Calculator
