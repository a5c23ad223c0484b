/-
  Which texts have the shape of an expression.

  1. The parts of an expression as they are written: an operand is a word with opening parentheses
     before it and closing ones behind it (`Wrapped`), an operator is a run of signs or one of `*`,
     `/`, `^` (`Joint`).  A text that is split as  S A (O A)*  is a `Split`.
  2. `Follows place t` — the rest `t` of a split text when the reading of it has come to this place.
     Reading one character takes it off the rest (`Follows.cons`), so a text that is read to its end
     was such a rest from the start (`follows_of_foldlM`).
  3. Conversely each part leads from where it may stand to where the next part may stand
     (`Wrapped.exists_place`, `Joint.exists_place`, `exists_place_pairsText`).
  4. `isWellShaped_iff_exists_split` puts the two together.  Nothing is said about how a text is to be
     split: reading never goes back, and still finds a split whenever there is one.
-/
import Calculator.Proofs.Parsing

namespace Calculator.Expression

open Text

/-! ## The parts of an expression -/

/-- An operand as it is written: a word between parentheses, which need not match. -/
structure Wrapped where
  /-- How many parentheses open before the word. -/
  openings : Nat
  word : Text
  /-- How many parentheses close behind the word. -/
  closings : Nat
  isWord : IsWord word

/-- An operator as it is written: a run of signs, or a single character. -/
inductive Joint
  | run (signs : Text) (isRun : IsRun signs)
  | single (c : Char) (isOne : c = '*' ∨ c = '/' ∨ c = '^')

/-- An expression in its parts. -/
structure Split where
  /-- The signs before the first operand; there may be none. -/
  signs : Text
  areSigns : ∀ c ∈ signs, isSign c
  first : Wrapped
  /-- The operators, each with the operand behind it. -/
  rest : List (Joint × Wrapped)

/-- The text of an operand. -/
def Wrapped.text (a : Wrapped) : Text :=
  List.replicate a.openings '(' ++ (a.word ++ List.replicate a.closings ')')

/-- The text of an operator. -/
def Joint.text : Joint → Text
  | run signs _ => signs
  | single c _ => [c]

/-- The text of operators and the operands behind them. -/
def pairsText (pairs : List (Joint × Wrapped)) : Text := pairs.flatMap fun p => p.1.text ++ p.2.text

/-- The text of an expression, part by part. -/
def Split.text (s : Split) : Text := s.signs ++ (s.first.text ++ pairsText s.rest)

theorem pairsText_cons (o : Joint) (a : Wrapped) (pairs : List (Joint × Wrapped)) :
    pairsText ((o, a) :: pairs) = o.text ++ (a.text ++ pairsText pairs) := by
  rw [pairsText, List.flatMap_cons, List.append_assoc]
  rfl

/-! ## Where one character leads -/

namespace Place

variable {c : Char} {q : Place}

/-- Before an operand: another opening parenthesis, or its word. -/
theorem next_openings_cases (h : next openings c = some q) :
    (c = '(' ∧ q = openings) ∨ (isWordChar c ∧ q = word) := by
  rw [next] at h
  split at h
  · cases h
    exact Or.inl ⟨‹_›, rfl⟩
  · split at h
    · cases h
      exact Or.inr ⟨‹_›, rfl⟩
    · cases h

/-- Behind an operand: another closing parenthesis, or an operator. -/
theorem afterOperand_cases (h : afterOperand c = some q) :
    (c = ')' ∧ q = closings) ∨ (isSign c ∧ q = signs) ∨
      ((c = '*' ∨ c = '/' ∨ c = '^') ∧ q = openings) := by
  rw [afterOperand] at h
  split at h
  · cases h
    exact Or.inl ⟨‹_›, rfl⟩
  · split at h
    · cases h
      exact Or.inr (Or.inl ⟨‹_›, rfl⟩)
    · split at h
      · rename_i hsingle
        cases h
        exact Or.inr (Or.inr ⟨by simpa [isSingle, or_assoc] using hsingle, rfl⟩)
      · cases h

end Place

/-! ## What follows a place -/

/-- What may be left of a split text when its reading has come to a place. -/
inductive Follows : Place → Text → Prop
  | signs (s : Split) : Follows .signs s.text
  | openings (a : Wrapped) (pairs : List (Joint × Wrapped)) :
      Follows .openings (a.text ++ pairsText pairs)
  | word {w : Text} (hw : ∀ c ∈ w, isWordChar c) (closings : Nat)
      (pairs : List (Joint × Wrapped)) :
      Follows .word (w ++ (List.replicate closings ')' ++ pairsText pairs))
  | closings (closings : Nat) (pairs : List (Joint × Wrapped)) :
      Follows .closings (List.replicate closings ')' ++ pairsText pairs)

namespace Follows

variable {place q : Place} {c : Char} {t : Text}

theorem nil (h : place.isFinal) : Follows place [] := by
  cases place with
  | signs => cases h
  | openings => cases h
  | word => exact .word (w := []) (by simp) 0 []
  | closings => exact .closings 0 []

/-- Signs may stand before an operand, but need not. -/
theorem atSigns (h : Follows .openings t) : Follows .signs t := by
  cases h with
  | openings a pairs => exact .signs ⟨[], by simp, a, pairs⟩

theorem sign (h : Follows .signs t) (hc : isSign c) : Follows .signs (c :: t) := by
  cases h with
  | signs s =>
    refine .signs ⟨c :: s.signs, ?_, s.first, s.rest⟩
    intro d hd
    rcases List.mem_cons.1 hd with rfl | hd
    · exact hc
    · exact s.areSigns d hd

theorem opening (h : Follows .openings t) : Follows .openings ('(' :: t) := by
  cases h with
  | openings a pairs => exact .openings { a with openings := a.openings + 1 } pairs

/-- The first character of a word. -/
theorem wordChar (h : Follows .word t) (hc : isWordChar c) : Follows .openings (c :: t) := by
  cases h with
  | @word w hw closings pairs =>
    have hword : IsWord (c :: w) := (isWord_singleton hc).append hw
    have := Follows.openings ⟨0, c :: w, closings, hword⟩ pairs
    simpa [Wrapped.text] using this

/-- A further character of a word. -/
theorem word_wordChar (h : Follows .word t) (hc : isWordChar c) : Follows .word (c :: t) := by
  cases h with
  | @word w hw closings pairs =>
    refine .word (w := c :: w) (fun d hd => ?_) closings pairs
    rcases List.mem_cons.1 hd with rfl | hd
    · exact hc
    · exact hw d hd

/-- A word may end anywhere. -/
theorem atWord (h : Follows .closings t) : Follows .word t := by
  cases h with
  | closings closings pairs => exact .word (w := []) (by simp) closings pairs

/-- Behind an operand: another closing parenthesis, or an operator and then the next operand. -/
theorem afterOperand (h : Follows q t) (hnext : Place.afterOperand c = some q) :
    Follows .closings (c :: t) := by
  rcases Place.afterOperand_cases hnext with ⟨rfl, rfl⟩ | ⟨hsign, rfl⟩ | ⟨hone, rfl⟩
  · cases h with
    | closings closings pairs => exact .closings (closings + 1) pairs
  · -- the sign and those behind it are one operator
    cases h with
    | signs s =>
      have hrun : IsRun (c :: s.signs) := (isRun_singleton hsign).append s.areSigns
      have := Follows.closings 0 ((.run (c :: s.signs) hrun, s.first) :: s.rest)
      rwa [pairsText_cons] at this
  · cases h with
    | openings a pairs =>
      have := Follows.closings 0 ((.single c hone, a) :: pairs)
      rwa [pairsText_cons] at this

/-- The first character of an operand. -/
theorem operand (h : Follows q t) (hnext : Place.next .openings c = some q) :
    Follows .openings (c :: t) := by
  rcases Place.next_openings_cases hnext with ⟨rfl, rfl⟩ | ⟨hword, rfl⟩
  · exact h.opening
  · exact h.wordChar hword

/-- **One character.**  In front of what follows the place that it leads to, it follows the place
    before it. -/
theorem cons (h : Follows q t) (hnext : place.next c = some q) : Follows place (c :: t) := by
  cases place with
  | signs =>
    cases hsign : isSign c with
    | true =>
      rw [Place.next_of_isSign hsign, if_neg (by decide)] at hnext
      cases hnext
      exact h.sign hsign
    | false => exact (h.operand (Place.next_signs_of_not_isSign hsign ▸ hnext)).atSigns
  | openings => exact h.operand hnext
  | word =>
    rw [Place.next] at hnext
    split at hnext
    · rename_i hword
      cases hnext
      exact h.word_wordChar hword
    · exact (h.afterOperand hnext).atWord
  | closings => exact h.afterOperand hnext

end Follows

/-- What is read from a place to an end follows the place. -/
theorem follows_of_foldlM {place q : Place} {t : Text} (h : t.foldlM Place.next place = some q)
    (hfinal : q.isFinal) : Follows place t := by
  induction t generalizing place with
  | nil =>
    cases h
    exact .nil hfinal
  | cons c t ih =>
    rw [List.foldlM_cons] at h
    obtain ⟨p, hp, hrest⟩ := Option.bind_eq_some_iff.1 h
    exact (ih hrest).cons hp

/-! ## Where the parts lead -/

theorem Place.foldlM_next_openings {place : Place} (h : place = .signs ∨ place = .openings)
    (n : Nat) : ∃ p, (List.replicate n '(').foldlM next place = some p ∧ p ≠ .closings := by
  induction n generalizing place with
  | zero => exact ⟨place, rfl, by rcases h with rfl | rfl <;> decide⟩
  | succ n ih =>
    rw [List.replicate_succ, List.foldlM_cons, Place.next_opening h]
    exact ih (Or.inr rfl)

theorem Place.foldlM_next_closings {place : Place} (h : place.isFinal) (n : Nat) :
    ∃ q, (List.replicate n ')').foldlM next place = some q ∧ q.isFinal := by
  induction n generalizing place with
  | zero => exact ⟨place, rfl, h⟩
  | succ n ih =>
    rw [List.replicate_succ, List.foldlM_cons, Place.next_closing h]
    exact ih rfl

/-- From where an operand may follow, an operand leads to where an expression may end. -/
theorem Wrapped.exists_place (a : Wrapped) {place : Place}
    (h : place = .signs ∨ place = .openings) :
    ∃ q, a.text.foldlM Place.next place = some q ∧ q.isFinal := by
  obtain ⟨p, hp, hplace⟩ := Place.foldlM_next_openings h a.openings
  rw [Wrapped.text, List.foldlM_append, hp]
  show ∃ q, (a.word ++ _).foldlM Place.next p = some q ∧ _
  rw [List.foldlM_append, Place.foldlM_next_word a.isWord hplace]
  exact Place.foldlM_next_closings rfl a.closings

/-- Behind an operand, an operator leads to where the next operand may follow. -/
theorem Joint.exists_place (o : Joint) {place : Place} (h : place.isFinal) :
    ∃ q, o.text.foldlM Place.next place = some q ∧ (q = .signs ∨ q = .openings) := by
  cases o with
  | run signs isRun =>
    exact ⟨.signs, Place.foldlM_next_run isRun (Place.ne_openings_of_isFinal h), Or.inl rfl⟩
  | single c isOne =>
    have hsingle : Place.isSingle c := by rcases isOne with rfl | rfl | rfl <;> rfl
    refine ⟨.openings, ?_, Or.inr rfl⟩
    rw [text, List.foldlM_cons, Place.next_of_isSingle h hsingle]
    rfl

theorem exists_place_pairsText (pairs : List (Joint × Wrapped)) {place : Place}
    (h : place.isFinal) :
    ∃ q, (pairsText pairs).foldlM Place.next place = some q ∧ q.isFinal := by
  induction pairs generalizing place with
  | nil => exact ⟨place, rfl, h⟩
  | cons pair pairs ih =>
    obtain ⟨o, a⟩ := pair
    obtain ⟨p, hp, hoperand⟩ := o.exists_place h
    obtain ⟨q, hq, hfinal⟩ := a.exists_place hoperand
    rw [pairsText_cons, List.foldlM_append, hp]
    show ∃ r, (a.text ++ _).foldlM Place.next p = some r ∧ _
    rw [List.foldlM_append, hq]
    exact ih hfinal

theorem Split.isWellShaped (s : Split) : isWellShaped s.text := by
  obtain ⟨q, hq, hfinal⟩ := s.first.exists_place (Or.inl rfl)
  rw [Split.text, isWellShaped_append s.areSigns, isWellShaped_iff, List.foldlM_append, hq]
  exact exists_place_pairsText s.rest hfinal

/-- **The recognizer and its grammar.**  A text, of whatever characters, has the shape of an
    expression just when it can be split into its parts. -/
theorem isWellShaped_iff_exists_split (t : Text) :
    isWellShaped t ↔ ∃ s : Split, s.text = t := by
  constructor
  · intro h
    obtain ⟨q, hq, hfinal⟩ := isWellShaped_iff.1 h
    cases follows_of_foldlM hq hfinal with
    | signs s => exact ⟨s, rfl⟩
  · rintro ⟨s, rfl⟩
    exact s.isWellShaped

end Calculator.Expression
