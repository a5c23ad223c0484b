/-
  Integers in decimal notation.

  1. `text` — the canonical form: no leading zero, no `-0`, a minus sign in front of what is negative.
  2. `isInteger`, `isSigned` — the literals: one or more ASCII digits, with an optional minus sign or
     with an optional sign of either kind in front.  Leading zeros are allowed, so one integer has many
     spellings.
  3. `read` — the integer that a text denotes, or the reason why it denotes none.  More is read than
     literals, since underscores behind the first digit are passed over.
  4. `integer?`, `signed?` — what the calculator reads: the text must be a literal first.  Literals are
     never refused by `read` (`exists_read_of_isInteger`).
  5. Reading takes back what `text` writes (`integer?_text`, `signed?_text`).

  The literals are the calculator's own.  How integers of any size are written and read (`text`, `read`
  and the words of `Unreadable`) is the documented behaviour of the library that provides them.
-/
import Calculator.Text

namespace Calculator.Decimal

/-! ## Writing -/

/-- The canonical decimal form of an integer. -/
def text : Int → Text
  | .ofNat n => Nat.toDigits 10 n
  | .negSucc n => '-' :: Nat.toDigits 10 (n + 1)

/-! ## Literals -/

/-- One or more digits. -/
def isDigits (t : Text) : Bool := !t.isEmpty && t.all Char.isDigit

/-- Digits with an optional minus sign in front. -/
def isInteger : Text → Bool
  | '-' :: t => isDigits t
  | t => isDigits t

/-- Digits with an optional sign of either kind in front. -/
def isSigned : Text → Bool
  | '+' :: t | '-' :: t => isDigits t
  | t => isDigits t

/-! ## Reading -/

/-- Why a text does not denote an integer. -/
inductive Unreadable
  /-- There is nothing, or nothing but a sign. -/
  | empty
  /-- A character is not a digit, or an underscore stands before all digits. -/
  | invalidDigit
  deriving DecidableEq, Repr

/-- The words for the reason. -/
def Unreadable.reason : Unreadable → Text
  | .empty => "cannot parse integer from empty string".toList
  | .invalidDigit => "invalid digit found in string".toList

/-- Drops a sign in front of a text, unless a plus sign follows it. -/
def dropSign (sign : Char) : Text → Text
  | [] => []
  | c :: t => if c = sign ∧ t.head? ≠ some '+' then t else c :: t

/-- The number that digits, and underscores behind the first one, denote. -/
def magnitude (t : Text) : Except Unreadable Nat :=
  if t.isEmpty then .error .empty
  else if t.head? ≠ some '_' ∧ t.all fun c => c.isDigit || c == '_' then
    .ok (Nat.ofDigitChars 10 (t.filter Char.isDigit) 0)
  else .error .invalidDigit

/-- The integer that a text denotes. -/
def read (t : Text) : Except Unreadable Int :=
  (magnitude (dropSign '+' (dropSign '-' t))).map fun n : Nat =>
    if t.head? = some '-' then -(n : Int) else n

/-- The integer that digits with an optional minus sign denote. -/
def integer? (t : Text) : Option Int := if isInteger t then (read t).toOption else none

/-- The integer that digits with an optional sign of either kind denote. -/
def signed? (t : Text) : Option Int := if isSigned t then (read t).toOption else none

example : read "1_0".toList = .ok 10 ∧ integer? "1_0".toList = none := ⟨rfl, rfl⟩
example : read "-+1".toList = .error .invalidDigit ∧ read "+".toList = .error .empty := ⟨rfl, rfl⟩

/-! ## Literals are read -/

theorem isDigits_iff {t : Text} : isDigits t ↔ t ≠ [] ∧ ∀ c ∈ t, c.isDigit := by
  simp [isDigits]

theorem head?_ne_of_isDigits {t : Text} (h : isDigits t) {c : Char} (hc : c.isDigit = false) :
    t.head? ≠ some c := by
  intro hhead
  have := (isDigits_iff.1 h).2 c (List.mem_of_mem_head? hhead)
  rw [hc] at this
  cases this

/-- Integer literals are digits, or digits behind a minus sign. -/
theorem isInteger_iff {t : Text} :
    isInteger t ↔ ∃ digits, isDigits digits ∧ (t = digits ∨ t = '-' :: digits) := by
  constructor
  · intro h
    unfold isInteger at h
    split at h
    · exact ⟨_, h, Or.inr rfl⟩
    · exact ⟨_, h, Or.inl rfl⟩
  · rintro ⟨digits, h, rfl | rfl⟩
    · unfold isInteger
      split
      · exact absurd rfl (head?_ne_of_isDigits h (c := '-') rfl)
      · exact h
    · exact h

/-- Signed literals are digits behind at most one sign of either kind. -/
theorem isSigned_iff {t : Text} :
    isSigned t ↔
      ∃ digits, isDigits digits ∧ (t = digits ∨ t = '+' :: digits ∨ t = '-' :: digits) := by
  constructor
  · intro h
    unfold isSigned at h
    split at h
    · exact ⟨_, h, Or.inr (Or.inl rfl)⟩
    · exact ⟨_, h, Or.inr (Or.inr rfl)⟩
    · exact ⟨_, h, Or.inl rfl⟩
  · rintro ⟨digits, h, rfl | rfl | rfl⟩
    · unfold isSigned
      split
      · exact absurd rfl (head?_ne_of_isDigits h (c := '+') rfl)
      · exact absurd rfl (head?_ne_of_isDigits h (c := '-') rfl)
      · exact h
    · exact h
    · exact h

theorem isSigned_of_isInteger {t : Text} (h : isInteger t) : isSigned t := by
  obtain ⟨digits, hdigits, rfl | rfl⟩ := isInteger_iff.1 h
  · exact isSigned_iff.2 ⟨_, hdigits, Or.inl rfl⟩
  · exact isSigned_iff.2 ⟨_, hdigits, Or.inr (Or.inr rfl)⟩

theorem dropSign_of_head?_ne {sign : Char} {t : Text} (h : t.head? ≠ some sign) :
    dropSign sign t = t := by
  cases t with
  | nil => rfl
  | cons c t =>
    have hc : ¬ c = sign := fun heq => h (congrArg some heq)
    rw [dropSign, if_neg fun hdrop => hc hdrop.1]

theorem dropSign_cons {sign : Char} {t : Text} (h : t.head? ≠ some '+') :
    dropSign sign (sign :: t) = t := by
  rw [dropSign, if_pos ⟨rfl, h⟩]

theorem magnitude_of_isDigits {t : Text} (h : isDigits t) :
    magnitude t = .ok (Nat.ofDigitChars 10 t 0) := by
  obtain ⟨hne, hdigit⟩ := isDigits_iff.1 h
  have hempty : ¬ t.isEmpty := by simpa using hne
  have hall : (t.all fun c => c.isDigit || c == '_') = true :=
    List.all_eq_true.2 fun c hc => by rw [hdigit c hc, Bool.true_or]
  have hfilter : t.filter Char.isDigit = t := List.filter_eq_self.2 hdigit
  rw [magnitude, if_neg hempty, if_pos ⟨head?_ne_of_isDigits h rfl, hall⟩, hfilter]

/-- Digits are read with a sign in front and without one. -/
theorem read_of_isDigits {t : Text} (h : isDigits t) :
    read t = .ok (Nat.ofDigitChars 10 t 0 : Int) ∧
      read ('+' :: t) = .ok (Nat.ofDigitChars 10 t 0 : Int) ∧
      read ('-' :: t) = .ok (-(Nat.ofDigitChars 10 t 0 : Int)) := by
  have hplus : t.head? ≠ some '+' := head?_ne_of_isDigits h rfl
  have hminus : t.head? ≠ some '-' := head?_ne_of_isDigits h rfl
  have hsign : ('+' :: t).head? ≠ some '-' := by simp
  refine ⟨?_, ?_, ?_⟩
  · rw [read, dropSign_of_head?_ne hminus, dropSign_of_head?_ne hplus, magnitude_of_isDigits h]
    exact congrArg Except.ok (if_neg hminus)
  · rw [read, dropSign_of_head?_ne hsign, dropSign_cons hplus, magnitude_of_isDigits h]
    rfl
  · rw [read, dropSign_cons hplus, dropSign_of_head?_ne hplus, magnitude_of_isDigits h]
    rfl

/-- No integer literal is refused. -/
theorem exists_read_of_isInteger {t : Text} (h : isInteger t) : ∃ n, read t = .ok n := by
  obtain ⟨digits, hdigits, rfl | rfl⟩ := isInteger_iff.1 h
  · exact ⟨_, (read_of_isDigits hdigits).1⟩
  · exact ⟨_, (read_of_isDigits hdigits).2.2⟩

/-! ## Reading takes back what writing gives -/

theorem isDigit_of_mem_toDigits {n : Nat} {c : Char} (h : c ∈ Nat.toDigits 10 n) : c.isDigit :=
  Nat.isDigit_of_mem_toDigits (by decide) (by decide) h

theorem isDigits_toDigits (n : Nat) : isDigits (Nat.toDigits 10 n) :=
  isDigits_iff.2 ⟨Nat.toDigits_ne_nil, fun _ => isDigit_of_mem_toDigits⟩

theorem isInteger_text (n : Int) : isInteger (text n) := by
  cases n with
  | ofNat n => exact isInteger_iff.2 ⟨_, isDigits_toDigits n, Or.inl rfl⟩
  | negSucc n => exact isDigits_toDigits (n + 1)

theorem read_text (n : Int) : read (text n) = .ok n := by
  cases n with
  | ofNat n =>
    rw [text, (read_of_isDigits (isDigits_toDigits n)).1, Nat.ofDigitChars_toDigits (by decide) (by decide)]
    rfl
  | negSucc n =>
    rw [text, (read_of_isDigits (isDigits_toDigits (n + 1))).2.2,
      Nat.ofDigitChars_toDigits (by decide) (by decide)]
    rfl

@[simp] theorem integer?_text (n : Int) : integer? (text n) = some n := by
  rw [integer?, if_pos (isInteger_text n), read_text]
  rfl

@[simp] theorem signed?_text (n : Int) : signed? (text n) = some n := by
  rw [signed?, if_pos (isSigned_of_isInteger (isInteger_text n)), read_text]
  rfl

/-- Different integers are written differently. -/
theorem text_inj {m n : Int} : text m = text n ↔ m = n := by
  refine ⟨fun h => ?_, congrArg text⟩
  have hread : integer? (text m) = integer? (text n) := congrArg integer? h
  rwa [integer?_text, integer?_text, Option.some_inj] at hread

end Calculator.Decimal
