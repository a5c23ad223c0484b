/-
  Where texts meet, their pieces meet.

  1. A word is one piece (`segments_word`), and a character that belongs to no word separates the
     pieces before it from those behind it (`segments_append_cons`, `pieces_append_cons`).
  2. Only a sign directly before a digit is cut in another way, and only at the very beginning
     (`pieces_of_head?`, `pieces_signed`).
  3. A piece of more than one character holds nothing but words and signs (`mem_pieces`).
  4. No word holds a blank (`isBlank_of_isWordChar`), and none is a symbol
     (`exists_eq_singleton_of_symbol?`), so every word is an operand (`ofText_of_isWord`).
-/
import Calculator.Token.Pieces
import Calculator.Proofs.Sign
import Mathlib.Data.List.TakeWhile

namespace Calculator

namespace Text

/-! ## Words -/

/-- One or more word characters. -/
def IsWord (w : Text) : Prop := w ≠ [] ∧ ∀ c ∈ w, isWordChar c

theorem isWordChar_of_isDigit {c : Char} (h : c.isDigit) : isWordChar c := by
  simp [isWordChar, Char.isAlphanum, h]

theorem isWordChar_of_isAlpha {c : Char} (h : c.isAlpha) : isWordChar c := by
  simp [isWordChar, Char.isAlphanum, h]

theorem not_isAlpha_of_not_isWordChar {c : Char} (h : isWordChar c = false) :
    c.isAlpha = false := by
  cases halpha : c.isAlpha with
  | false => rfl
  | true => rw [isWordChar_of_isAlpha halpha] at h; cases h

theorem not_isSign_of_isWordChar {c : Char} (h : isWordChar c) : isSign c = false := by
  by_cases hs : isSign c
  · rcases isSign_iff.1 hs with rfl | rfl <;> exact absurd h (by decide)
  · simpa using hs

theorem not_isWordChar_of_isSign {c : Char} (h : isSign c) : isWordChar c = false := by
  rcases isSign_iff.1 h with rfl | rfl <;> decide

theorem IsWord.append {v w : Text} (hv : IsWord v) (hw : ∀ c ∈ w, isWordChar c) :
    IsWord (v ++ w) := by
  refine ⟨fun h => hv.1 (List.append_eq_nil_iff.1 h).1, fun c hc => ?_⟩
  rcases List.mem_append.1 hc with h | h
  · exact hv.2 c h
  · exact hw c h

/-- What begins with a word does not begin with a sign. -/
theorem IsWord.not_isSign_head {w : Text} (h : IsWord w) (t : Text) :
    ∀ c ∈ (w ++ t).head?, isSign c = false := by
  obtain ⟨c, w, rfl⟩ := List.exists_cons_of_ne_nil h.1
  intro d hd
  cases hd
  exact not_isSign_of_isWordChar (h.2 c (List.mem_cons_self ..))

theorem isWord_singleton {c : Char} (h : isWordChar c) : IsWord [c] := by
  refine ⟨List.cons_ne_nil _ _, fun d hd => ?_⟩
  rwa [List.mem_singleton.1 hd]

/-- One character that is no letter is enough. -/
theorem not_isName_of_mem {t : Text} {c : Char} (hc : c.isAlpha = false) (h : c ∈ t) :
    t.isName = false := by
  cases hname : t.isName with
  | false => rfl
  | true => rw [(isName_iff.1 hname).2 c h] at hc; cases hc

theorem isWord_of_isName {x : Text} (h : x.isName) : IsWord x :=
  ⟨(isName_iff.1 h).1, fun _ hc => isWordChar_of_isName h hc⟩

/-! ## Words have no blanks -/

/-- The characters of words lie between the digits and the small letters. -/
theorem toNat_of_isWordChar {c : Char} (h : isWordChar c) : 48 ≤ c.toNat ∧ c.toNat ≤ 122 := by
  have hclass : ((c.isUpper ∨ c.isLower) ∨ c.isDigit) ∨ c = '_' := by
    change (((c.isUpper || c.isLower) || c.isDigit) || c == '_') = true at h
    simpa only [Bool.or_eq_true, beq_iff_eq] using h
  rcases hclass with ((hupper | hlower) | hdigit) | rfl
  · have hbounds : 65 ≤ c.val ∧ c.val ≤ 90 := of_decide_eq_true hupper
    have hlow : 65 ≤ c.toNat := UInt32.le_iff_toNat_le.1 hbounds.1
    have hhigh : c.toNat ≤ 90 := UInt32.le_iff_toNat_le.1 hbounds.2
    omega
  · obtain ⟨hlow, hhigh⟩ := Bool.and_eq_true_iff.1 hlower
    have hlow : 97 ≤ c.toNat := UInt32.le_iff_toNat_le.1 (of_decide_eq_true hlow)
    have hhigh : c.toNat ≤ 122 := UInt32.le_iff_toNat_le.1 (of_decide_eq_true hhigh)
    omega
  · obtain ⟨hlow, hhigh⟩ := Bool.and_eq_true_iff.1 hdigit
    have hlow : 48 ≤ c.toNat := UInt32.le_iff_toNat_le.1 (of_decide_eq_true hlow)
    have hhigh : c.toNat ≤ 57 := UInt32.le_iff_toNat_le.1 (of_decide_eq_true hhigh)
    omega
  · decide

theorem isBlank_of_isWordChar {c : Char} (h : isWordChar c) : isBlank c = false := by
  have hword := toNat_of_isWordChar h
  have hranges : ∀ r ∈ blankRanges, r.2 < 48 ∨ 122 < r.1 := by decide
  rw [isBlank, List.any_eq_false]
  intro r hr
  have := hranges r hr
  simp only [Bool.and_eq_true, decide_eq_true_eq]
  omega

theorem strip_of_isName {x : Text} (h : x.isName) : x.strip = x :=
  strip_eq_self fun _ hc => isBlank_of_isWordChar (isWordChar_of_isName h hc)

/-! ## Where a run ends -/

/-- A run goes no further than a character that does not belong to it. -/
theorem takeWhile_append_cons {p : Char → Bool} {c : Char} (h : p c = false) (s t : Text) :
    (s ++ c :: t).takeWhile p = s.takeWhile p := by
  rw [List.takeWhile_append]
  split
  · rename_i hall
    have hs : s.takeWhile p = s := (List.takeWhile_prefix _).eq_of_length hall
    rw [List.takeWhile_cons_of_neg (by simp [h]), List.append_nil, hs]
  · rfl

theorem dropWhile_append_cons {p : Char → Bool} {c : Char} (h : p c = false) (s t : Text) :
    (s ++ c :: t).dropWhile p = s.dropWhile p ++ c :: t := by
  rw [List.dropWhile_append]
  split
  · rename_i hnil
    rw [List.isEmpty_iff.1 hnil, List.dropWhile_cons_of_neg (by simp [h])]
    rfl
  · rfl

end Text

namespace Token

open Text

/-! ## Symbols -/

/-- A symbol is an operator or a parenthesis, written with its one character. -/
theorem symbol?_cases {t : Text} {tok : Token} (h : symbol? t = some tok) :
    (∃ op : Operator, tok = .operator op ∧ t = [op.symbol]) ∨
      ∃ p : Paren, tok = .paren p ∧ t = [p.symbol] := by
  unfold symbol? at h
  split at h
  · rename_i c
    cases hop : Operator.ofChar? c with
    | some op =>
      rw [hop] at h
      exact Or.inl ⟨op, (Option.some.inj h).symm, by rw [Operator.symbol_of_ofChar? hop]⟩
    | none =>
      rw [hop] at h
      cases hp : Paren.ofChar? c with
      | some p =>
        rw [hp] at h
        exact Or.inr ⟨p, (Option.some.inj h).symm, by rw [Paren.symbol_of_ofChar? hp]⟩
      | none => rw [hp] at h; cases h
  · cases h

/-- No symbol is part of a word. -/
theorem exists_eq_singleton_of_symbol? {t : Text} {tok : Token} (h : symbol? t = some tok) :
    ∃ c, isWordChar c = false ∧ t = [c] := by
  rcases symbol?_cases h with ⟨op, -, ht⟩ | ⟨p, -, ht⟩
  · exact ⟨op.symbol, by cases op <;> decide, ht⟩
  · exact ⟨p.symbol, by cases p <;> decide, ht⟩

/-- A word is an operand. -/
theorem ofText_of_isWord {w : Text} (h : IsWord w) : ofText w = .operand (operandOfText w) := by
  refine ofText_of_symbol?_eq_none ?_
  cases hsymbol : symbol? w with
  | none => rfl
  | some tok =>
    obtain ⟨c, hc, rfl⟩ := exists_eq_singleton_of_symbol? hsymbol
    rw [h.2 c (List.mem_singleton_self c)] at hc
    cases hc

/-! ## Segments -/

theorem prepend_append {ps : List Text} (h : ps ≠ []) (c : Char) (qs : List Text) :
    prepend c (ps ++ qs) = prepend c ps ++ qs := by
  match ps with
  | [] => exact absurd rfl h
  | [] :: ps => rfl
  | (d :: w) :: ps =>
    rw [List.cons_append, prepend, prepend]
    split <;> rfl

/-- A character that does not go into the piece behind it is a piece of its own. -/
theorem prepend_of_not_isWordChar {c : Char} (h : isWordChar c = false) (ps : List Text) :
    prepend c ps = [c] :: ps := by
  unfold prepend
  split
  · rw [h]; rfl
  · rfl

theorem prepend_ne_nil (c : Char) (ps : List Text) : prepend c ps ≠ [] := by
  unfold prepend
  split
  · split <;> exact List.cons_ne_nil _ _
  · exact List.cons_ne_nil _ _

theorem segments_ne_nil {t : Text} (h : t ≠ []) : segments t ≠ [] := by
  cases t with
  | nil => exact absurd rfl h
  | cons c t => exact prepend_ne_nil c _

theorem segments_cons_of_not_isWordChar {c : Char} (h : isWordChar c = false) (t : Text) :
    segments (c :: t) = [c] :: segments t := prepend_of_not_isWordChar h _

/-- A character that belongs to no word parts a text. -/
theorem segments_append_cons {c : Char} (h : isWordChar c = false) (s t : Text) :
    segments (s ++ c :: t) = segments s ++ [c] :: segments t := by
  induction s with
  | nil => exact segments_cons_of_not_isWordChar h t
  | cons d s ih =>
    rw [List.cons_append, segments_cons, ih, segments_cons]
    cases s with
    | nil =>
      -- nothing stands between the two characters
      show prepend d ([c] :: segments t) = [d] :: [c] :: segments t
      rw [prepend, h, Bool.and_false]
      rfl
    | cons e s => exact prepend_append (segments_ne_nil (List.cons_ne_nil _ _)) d _

/-- A word is one piece. -/
theorem segments_word {w : Text} (h : IsWord w) : segments w = [w] := by
  obtain ⟨hne, hword⟩ := h
  induction w with
  | nil => exact absurd rfl hne
  | cons c w ih =>
    cases w with
    | nil => rfl
    | cons d w =>
      have hc := hword c (List.mem_cons_self ..)
      have hd := hword d (List.mem_cons_of_mem _ (List.mem_cons_self ..))
      rw [segments_cons, ih (List.cons_ne_nil _ _) fun e he => hword e (List.mem_cons_of_mem _ he),
        prepend, hc, hd]
      rfl

/-! ## The beginning of a text -/

theorem pieces_of_head? {t : Text} (h : ∀ c ∈ t.head?, isSign c = false) :
    pieces t = segments t := by
  match t with
  | [] => rfl
  | [_] => rfl
  | c :: d :: t => rw [pieces, h c rfl]; rfl

/-- A sign that no digit follows is a piece of its own, even at the beginning. -/
theorem pieces_sign_of_head? {c : Char} (hc : isSign c) {t : Text}
    (h : ∀ d ∈ t.head?, d.isDigit = false) : pieces (c :: t) = [c] :: segments t := by
  have hcons := segments_cons_of_not_isWordChar (not_isWordChar_of_isSign hc) t
  cases t with
  | nil => exact hcons
  | cons d t => rw [pieces, h d rfl, Bool.and_false, ← hcons]; rfl

/-- A sign that a digit follows belongs to the word that the digit begins. -/
theorem pieces_signed {c d : Char} {w : Text} (hc : isSign c) (hd : d.isDigit)
    (hw : ∀ e ∈ w, isWordChar e) : pieces (c :: d :: w) = [c :: d :: w] := by
  have hword : ∀ e ∈ d :: w, isWordChar e := by
    intro e he
    rcases List.mem_cons.1 he with rfl | he
    · exact isWordChar_of_isDigit hd
    · exact hw e he
  have htake : (d :: w).takeWhile isWordChar = d :: w := List.takeWhile_eq_self_iff.2 hword
  have hdrop : (d :: w).dropWhile isWordChar = [] := List.dropWhile_eq_nil_iff.2 hword
  rw [pieces, hc, hd, htake, hdrop]
  rfl

/-- Behind the beginning, a character that belongs to no word parts a text. -/
theorem pieces_append_cons {c : Char} (h : isWordChar c = false) {s : Text} (hs : s ≠ []) (t : Text) :
    pieces (s ++ c :: t) = pieces s ++ [c] :: segments t := by
  match s with
  | [] => exact absurd rfl hs
  | [a] =>
    have hdigit : c.isDigit = false := by
      cases hd : c.isDigit with
      | false => rfl
      | true => rw [isWordChar_of_isDigit hd] at h; cases h
    have := segments_append_cons h [a] t
    show pieces (a :: c :: t) = _
    rw [pieces, hdigit, Bool.and_false]
    exact this
  | a :: b :: s =>
    rw [List.cons_append, List.cons_append, pieces, pieces]
    split
    · rw [← List.cons_append, takeWhile_append_cons h, dropWhile_append_cons h,
        segments_append_cons h]
      rfl
    · rw [← List.cons_append, ← List.cons_append, segments_append_cons h]

/-! ## What pieces hold -/

theorem mem_segments {t p : Text} (h : p ∈ segments t) :
    (∃ c, p = [c]) ∨ ∀ c ∈ p, isWordChar c := by
  induction t generalizing p with
  | nil => cases h
  | cons c t ih =>
    rw [segments_cons] at h
    unfold prepend at h
    split at h
    · rename_i d w rest hseg
      split at h
      · rename_i hcd
        rw [Bool.and_eq_true] at hcd
        rcases List.mem_cons.1 h with rfl | h
        · -- the word behind the character, longer by one
          refine Or.inr fun e he => ?_
          rcases List.mem_cons.1 he with rfl | he
          · exact hcd.1
          · rcases ih (hseg ▸ List.mem_cons_self ..) with ⟨a, ha⟩ | hw
            · cases ha
              rw [List.mem_singleton.1 he]
              exact hcd.2
            · exact hw e he
        · exact ih (hseg ▸ List.mem_cons_of_mem _ h)
      · rcases List.mem_cons.1 h with rfl | h
        · exact Or.inl ⟨c, rfl⟩
        · exact ih (hseg ▸ h)
    · rcases List.mem_cons.1 h with rfl | h
      · exact Or.inl ⟨c, rfl⟩
      · exact ih h

/-- A piece is one character, or it holds word characters and at most a sign. -/
theorem mem_pieces {t p : Text} (h : p ∈ pieces t) :
    (∃ c, p = [c]) ∨ ∀ c ∈ p, isWordChar c ∨ isSign c := by
  have hsegments : ∀ {u : Text}, p ∈ segments u →
      (∃ c, p = [c]) ∨ ∀ c ∈ p, isWordChar c ∨ isSign c := by
    intro _ hu
    rcases mem_segments hu with hc | hw
    · exact Or.inl hc
    · exact Or.inr fun c hc => Or.inl (hw c hc)
  unfold pieces at h
  split at h
  · rename_i s d t
    split at h
    · rename_i hsd
      rw [Bool.and_eq_true] at hsd
      rcases List.mem_cons.1 h with rfl | h
      · refine Or.inr fun c hc => ?_
        rcases List.mem_cons.1 hc with rfl | hc
        · exact Or.inr hsd.1
        · exact Or.inl (List.mem_takeWhile_imp hc)
      · exact hsegments h
    · exact hsegments h
  · exact hsegments h

end Token

end Calculator
