/-
  Lines that are declarations, and what they give their names.

  1. `Line.Declares t name value` — no slash begins the line, and its first equals sign parts it into
     `name` and `value`.  Every line with an equals sign and without a slash in front is parted so
     (`exists_declares`).  The blanks around the line do not matter: they are dropped again with those
     of the two sides (`ofText_of_declares`).
  2. `Decimal.Literal t n` — the text is digits behind at most one minus sign and denotes `n`.  These
     are the texts that pass the check for an integer, of any length and with any number of leading
     zeros, and each of them is read (`literal_iff`, `exists_literal_iff`).
  3. `Session.Assigned store t r` — what the stripped right side of a declaration comes to: a literal
     is its integer, a name is the present value of the variable, anything else is refused.  The
     session takes it for just that (`assigned_iff`); that a literal could not be read, which it is
     prepared for, does not happen (`declaredValue_of_literal`).
-/
import Calculator.Proofs.Line
import Calculator.Proofs.Pieces
import Calculator.Proofs.Words
import Mathlib.Data.List.Basic

namespace Calculator

namespace Text

/-! ## Trimming around a character that stays -/

/-- Blanks at the end are dropped behind the last character that is not blank. -/
theorem trimEnd_append_cons {c : Char} (h : isBlank c = false) (s t : Text) :
    trimEnd (s ++ c :: t) = s ++ c :: trimEnd t := by
  have hreverse : (s ++ c :: t).reverse = t.reverse ++ c :: s.reverse := by simp
  rw [trimEnd, hreverse, dropWhile_append_cons h]
  simp [trimEnd]

/-- Both ends are trimmed separately when a character between them stays. -/
theorem trim_append_cons {c : Char} (h : isBlank c = false) (s t : Text) :
    trim (s ++ c :: t) = s.dropWhile isBlank ++ c :: trimEnd t := by
  rw [trim, dropWhile_append_cons h, trimEnd_append_cons h]

end Text

namespace Line

open Text

/-! ## Declaration lines -/

/-- A line is a declaration when no slash begins it and it has an equals sign.  The first one parts
    it into what is to be named and what it is to be. -/
structure Declares (t name value : Text) : Prop where
  eq_append : t = name ++ '=' :: value
  equals_notMem : '=' ∉ name
  head?_ne : t.strip.head? ≠ some '/'

/-- The two sides are stripped separately. -/
theorem Declares.strip_eq {t name value : Text} (h : Declares t name value) :
    t.strip = name.strip ++ '=' :: value.strip := by
  rw [h.eq_append, strip_append, strip_cons_of_not_isBlank (by decide)]

/-- A line is parted in one way only. -/
theorem Declares.unique {t name value name' value' : Text} (h : Declares t name value)
    (h' : Declares t name' value') : name = name' ∧ value = value' := by
  have hparts : ∀ {n v : Text}, '=' ∉ n → (n ++ '=' :: v).takeWhile (· != '=') = n := by
    intro n v hn
    rw [takeWhile_append_cons (by decide), List.takeWhile_eq_self_iff]
    intro c hc
    have : c ≠ '=' := fun heq => hn (heq ▸ hc)
    simpa using this
  have ht : name ++ '=' :: value = name' ++ '=' :: value' := h.eq_append.symm.trans h'.eq_append
  have hname : name = name' := by
    rw [← hparts (v := value) h.equals_notMem, ht, hparts h'.equals_notMem]
  subst hname
  exact ⟨rfl, (List.cons.inj (List.append_cancel_left ht)).2⟩

/-- The line is a declaration of this name, be it one or not. -/
def IsDeclarationOf (t x : Text) : Prop := ∃ name value, Declares t name value ∧ name.strip = x

/-- Where the name has letters only, no slash begins the line. -/
theorem declares_of_isName {name : Text} (h : name.strip.isName) (hequals : '=' ∉ name)
    (value : Text) : Declares (name ++ '=' :: value) name value := by
  refine ⟨rfl, hequals, ?_⟩
  obtain ⟨hne, halpha⟩ := isName_iff.1 h
  rw [strip_append, List.head?_append_of_ne_nil _ hne]
  intro hslash
  have : Char.isAlpha '/' := halpha '/' (List.mem_of_mem_head? hslash)
  exact absurd this (by decide)

/-- Every line with an equals sign is parted at the first one. -/
theorem exists_declares {t : Text} (hequals : '=' ∈ t) (hslash : t.strip.head? ≠ some '/') :
    ∃ name value, Declares t name value := by
  obtain ⟨name, value, ht, hname⟩ := List.eq_append_cons_of_mem hequals
  exact ⟨name, value, ht, hname, hslash⟩

/-- A line without blanks at its ends is parted by its look alone. -/
theorem ofTrimmed_append_cons {name value : Text} (hequals : '=' ∉ name)
    (hslash : (name ++ '=' :: value).head? ≠ some '/') :
    ofTrimmed (name ++ '=' :: value) = .declaration name value := by
  have hpass : ∀ c ∈ name, (c != '=') = true := by
    intro c hc
    have : c ≠ '=' := fun heq => hequals (heq ▸ hc)
    simpa using this
  have hdrop : (name ++ '=' :: value).dropWhile (· != '=') = '=' :: value := by
    rw [List.dropWhile_append_of_pos hpass, List.dropWhile_cons_of_neg (by decide)]
  have htake : (name ++ '=' :: value).takeWhile (· != '=') = name := by
    rw [List.takeWhile_append_of_pos hpass, List.takeWhile_cons_of_neg (by decide), List.append_nil]
  generalize name ++ '=' :: value = t at *
  unfold ofTrimmed
  split
  · cases hdrop
  · exact absurd rfl hslash
  · rw [hdrop, htake]

/-- A declaration is understood as one, with the blanks at the ends of the line gone. -/
theorem ofText_of_declares {t name value : Text} (h : Declares t name value) :
    ofText t = .declaration (name.dropWhile isBlank) value.trimEnd := by
  obtain ⟨rfl, hequals, hslash⟩ := h
  have htrim : trim (name ++ '=' :: value) = name.dropWhile isBlank ++ '=' :: value.trimEnd :=
    trim_append_cons (by decide) name value
  rw [← head?_trim, htrim] at hslash
  rw [ofText, htrim]
  refine ofTrimmed_append_cons (fun hmem => hequals ?_) hslash
  exact (List.dropWhile_sublist _).subset hmem

end Line

namespace Decimal

open Text

/-! ## Integer literals -/

/-- Digits behind at most one minus sign, and the integer that they denote. -/
inductive Literal : Text → Int → Prop
  | natural {digits : Text} (h : IsDigits digits) : Literal digits (number digits)
  | negative {digits : Text} (h : IsDigits digits) : Literal ('-' :: digits) (-(number digits : Int))

/-- Literals are what passes the check for one, and they denote what is read then. -/
theorem literal_iff {t : Text} {n : Int} : Literal t n ↔ isInteger t ∧ read t = .ok n := by
  constructor
  · intro h
    cases h with
    | natural h =>
      have hdigits := isDigits_iff.2 h
      exact ⟨isInteger_iff.2 ⟨_, hdigits, Or.inl rfl⟩, (read_of_isDigits hdigits).1⟩
    | negative h =>
      have hdigits := isDigits_iff.2 h
      exact ⟨isInteger_iff.2 ⟨_, hdigits, Or.inr rfl⟩, (read_of_isDigits hdigits).2.2⟩
  · rintro ⟨h, hread⟩
    obtain ⟨digits, hdigits, rfl | rfl⟩ := isInteger_iff.1 h
    · rw [(read_of_isDigits hdigits).1] at hread
      cases hread
      exact .natural (isDigits_iff.1 hdigits)
    · rw [(read_of_isDigits hdigits).2.2] at hread
      cases hread
      exact .negative (isDigits_iff.1 hdigits)

/-- What passes the check denotes something: no literal is left that could not be read. -/
theorem exists_literal_iff {t : Text} : (∃ n, Literal t n) ↔ isInteger t := by
  constructor
  · rintro ⟨n, h⟩
    exact (literal_iff.1 h).1
  · intro h
    obtain ⟨n, hread⟩ := exists_read_of_isInteger h
    exact ⟨n, literal_iff.2 ⟨h, hread⟩⟩

theorem integer?_eq_some_iff {t : Text} {n : Int} : integer? t = some n ↔ Literal t n := by
  rw [literal_iff, integer?]
  by_cases h : isInteger t
  · rw [if_pos h, and_iff_right h]
    cases read t with
    | error e =>
      constructor
      · intro hn; cases hn
      · intro hn; cases hn
    | ok m =>
      constructor
      · intro hn; cases hn; rfl
      · intro hn; cases hn; rfl
  · rw [if_neg h]
    constructor
    · intro hn; cases hn
    · rintro ⟨hcheck, -⟩; exact absurd hcheck h

theorem integer?_eq_none_iff {t : Text} : integer? t = none ↔ ∀ n, ¬ Literal t n := by
  rw [Option.eq_none_iff_forall_ne_some]
  exact forall_congr' fun n => not_congr integer?_eq_some_iff

theorem Literal.isIntegral {t : Text} {n : Int} (h : Literal t n) : IsIntegral t := by
  cases h with
  | natural hdigits => exact ⟨_, hdigits, Or.inl rfl⟩
  | negative hdigits => exact ⟨_, hdigits, Or.inr (Or.inr rfl)⟩

end Decimal

namespace Session

open Decimal

/-! ## What is assigned -/

/-- What the stripped right side of a declaration comes to. -/
inductive Assigned (store : Store) : Text → Except Error Int → Prop
  | literal {t : Text} {n : Int} (h : Literal t n) : Assigned store t (.ok n)
  | bound {t : Text} {n : Int} (h : t.isName) (hn : store.get? t = some n) : Assigned store t (.ok n)
  | unbound {t : Text} (h : t.isName) (hn : store.get? t = none) :
      Assigned store t (.error (.unknownVariable t))
  | other {t : Text} (hliteral : ∀ n, ¬ Literal t n) (hname : t.isName = false) :
      Assigned store t (.error (.invalidAssignment t))

/-- A literal is assigned as what it denotes.  So what the reader of integers complains of is never
    passed on: it reads all that passes the check (`exists_literal_iff`). -/
theorem declaredValue_of_literal {t : Text} {n : Int} (h : Literal t n) (store : Store) :
    declaredValue store t = .ok n := by
  obtain ⟨hcheck, hread⟩ := literal_iff.1 h
  rw [declaredValue, if_pos hcheck, hread]
  rfl

theorem declaredValue_of_not_literal {t : Text} (h : ∀ n, ¬ Literal t n) (store : Store) :
    declaredValue store t = if t.isName then store.lookup t else .error (.invalidAssignment t) := by
  have hcheck : ¬ isInteger t := fun hcheck => not_exists.2 h (exists_literal_iff.2 hcheck)
  rw [declaredValue, if_neg hcheck]

theorem not_literal_of_isName {t : Text} (h : t.isName) (n : Int) : ¬ Literal t n :=
  fun hn => Text.not_isIntegral_of_isName h hn.isIntegral

/-- The session takes every right side for what it comes to. -/
theorem assigned_iff {store : Store} {t : Text} {r : Except Error Int} :
    Assigned store t r ↔ declaredValue store t = r := by
  constructor
  · intro h
    cases h with
    | literal h => exact declaredValue_of_literal h store
    | bound h hn =>
      rw [declaredValue_of_not_literal (not_literal_of_isName h), if_pos h, Store.lookup, hn]
    | unbound h hn =>
      rw [declaredValue_of_not_literal (not_literal_of_isName h), if_pos h, Store.lookup, hn]
    | other hliteral hname =>
      rw [declaredValue_of_not_literal hliteral, hname]
      rfl
  · rintro rfl
    by_cases hliteral : ∃ n, Literal t n
    · obtain ⟨n, hn⟩ := hliteral
      rw [declaredValue_of_literal hn]
      exact .literal hn
    · rw [declaredValue_of_not_literal (not_exists.1 hliteral)]
      cases hname : t.isName with
      | false => exact .other (not_exists.1 hliteral) hname
      | true =>
        rw [if_pos rfl, Store.lookup]
        cases hn : store.get? t with
        | some n => exact .bound hname hn
        | none => exact .unbound hname hn

/-- A value is assigned exactly where there is a literal or a variable. -/
theorem exists_assigned_ok_iff {store : Store} {t : Text} :
    (∃ n, Assigned store t (.ok n)) ↔
      (∃ n, Literal t n) ∨ t.isName ∧ (store.get? t).isSome := by
  constructor
  · rintro ⟨n, h⟩
    cases h with
    | literal h => exact Or.inl ⟨n, h⟩
    | bound h hn => exact Or.inr ⟨h, by rw [hn]; rfl⟩
  · rintro (⟨n, h⟩ | ⟨h, hsome⟩)
    · exact ⟨n, .literal h⟩
    · obtain ⟨n, hn⟩ := Option.isSome_iff_exists.1 hsome
      exact ⟨n, .bound h hn⟩

end Session

end Calculator
