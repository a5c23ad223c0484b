/-
  Tokens that are written one behind the other, and what is read of them.

  1. `respelling p` — how the token of the piece `p` is written.  An integer is written in its canonical
     form, so zeros and a plus sign in front of it go; any other piece is written as it stands
     (`respelling_cases`).  Either way it stands for the same token as before
     (`ofText_respelling`).
  2. Digits become digits, so words become words and nothing else becomes one (`respells_respelling`).
     Hence no two neighbours grow together when they are written (`segments_respell`), and no sign that
     was not part of a number becomes part of one (`isSigned_of_respell`).
  3. The one piece with a sign in it stands first.  There an integer is cut off again as one piece, with
     its sign if it has one still (`pieces_text_append`).
  4. So the pieces of what is written are the texts of the tokens (`pieces_flatMap_respelling`).
-/
import Calculator.Proofs.Chunks
import Calculator.Proofs.Words

namespace Calculator

/-! ## Digits among words -/

namespace Text

theorem IsDigits.isWord {t : Text} (h : IsDigits t) : IsWord t :=
  ⟨h.1, fun c hc => isWordChar_of_isDigit (h.2 c hc)⟩

/-- No sign stands in a word. -/
theorem IsWord.isDigits_of_isIntegral {w : Text} (hw : IsWord w) (h : IsIntegral w) : IsDigits w := by
  obtain ⟨digits, hdigits, rfl | rfl | rfl⟩ := h
  · exact hdigits
  · exact absurd (hw.2 '+' (List.mem_cons_self ..)) (by decide)
  · exact absurd (hw.2 '-' (List.mem_cons_self ..)) (by decide)

/-- A character that belongs to no word is no integer. -/
theorem not_isIntegral_singleton {c : Char} (h : isWordChar c = false) : ¬ IsIntegral [c] := by
  rintro ⟨digits, ⟨hne, hdigit⟩, rfl | heq | heq⟩
  · rw [isWordChar_of_isDigit (hdigit c (List.mem_singleton_self c))] at h
    cases h
  · exact hne (List.cons.inj heq).2.symm
  · exact hne (List.cons.inj heq).2.symm

end Text

namespace Token

open Text

/-! ## One token -/

/-- How the token of a piece is written. -/
def respelling (p : Text) : Text := (ofText p).text

/-- A written integer is no symbol. -/
theorem symbol?_text (n : Int) : symbol? (Decimal.text n) = none := by
  cases hsymbol : symbol? (Decimal.text n) with
  | none => rfl
  | some tok =>
    obtain ⟨c, hc, htext⟩ := exists_eq_singleton_of_symbol? hsymbol
    cases n with
    | ofNat n =>
      have hmem : c ∈ Nat.toDigits 10 n := by
        show c ∈ Decimal.text (.ofNat n)
        rw [htext]
        exact List.mem_singleton_self c
      rw [isWordChar_of_isDigit (Decimal.isDigit_of_mem_toDigits hmem)] at hc
      cases hc
    | negSucc n => exact absurd (List.cons.inj htext).2 Nat.toDigits_ne_nil

theorem ofText_text (n : Int) : ofText (Decimal.text n) = .operand (.number n) := by
  have hoperand : operandOfText (Decimal.text n) = .number n := operandOfText_text_number n
  rw [ofText_of_symbol?_eq_none (symbol?_text n), hoperand]

/-- A piece is written as it stands, or it is an integer and written as one. -/
theorem respelling_cases (p : Text) :
    respelling p = p ∨ IsIntegral p ∧ ∃ n, ofText p = .operand (.number n) := by
  rw [respelling]
  cases hsymbol : symbol? p with
  | some tok =>
    have htok : ofText p = tok := by
      rw [ofText, hsymbol]
      rfl
    rw [htok]
    exact Or.inl (text_of_symbol? hsymbol)
  | none =>
    rw [ofText_of_symbol?_eq_none hsymbol, operandOfText]
    cases hn : Decimal.signed? p with
    | some n => exact Or.inr ⟨Decimal.isIntegral_of_signed? hn, n, rfl⟩
    | none => exact Or.inl rfl

theorem respelling_of_not_isIntegral {p : Text} (h : ¬ IsIntegral p) : respelling p = p :=
  (respelling_cases p).resolve_right fun hint => h hint.1

/-- Writing a token keeps what is read of it. -/
theorem ofText_respelling (p : Text) : ofText (respelling p) = ofText p := by
  rcases respelling_cases p with hsame | ⟨-, n, hn⟩
  · rw [hsame]
  · rw [respelling, hn]
    exact ofText_text n

/-- Digits are written as the digits of their number. -/
theorem respelling_of_isDigits {w : Text} (h : IsDigits w) :
    respelling w = Nat.toDigits 10 (number w) := by
  rw [respelling, ofText_of_isWord h.isWord, operandOfText, (Decimal.signed?_of_isDigits h).1]
  rfl

/-- Words are written as words, and only digits are written in a new way. -/
theorem respells_respelling : Respells respelling where
  isWord {w} hw := by
    by_cases hint : IsIntegral w
    · rw [respelling_of_isDigits (hw.isDigits_of_isIntegral hint)]
      exact (IsDigits.toDigits _).isWord
    · rwa [respelling_of_not_isIntegral hint]
  isDigit {w} hw h := by
    by_cases hint : IsIntegral w
    · intro d hd
      exact (hw.isDigits_of_isIntegral hint).2 d (List.mem_of_mem_head? hd)
    · rwa [respelling_of_not_isIntegral hint] at h
  singleton h := respelling_of_not_isIntegral (not_isIntegral_singleton h)

/-! ## All tokens -/

/-- A written integer that begins a text is its first piece. -/
theorem pieces_text_append (n : Int) {u : Text} (hu : ∀ c ∈ u.head?, isWordChar c = false) :
    pieces (Decimal.text n ++ u) = Decimal.text n :: segments u := by
  cases n with
  | ofNat n =>
    have hword : IsWord (Decimal.text (.ofNat n)) := (IsDigits.toDigits n).isWord
    rw [pieces_of_head? (hword.not_isSign_head u), segments_append_of_isWord hword hu]
  | negSucc n =>
    have hdigits : IsDigits (Nat.toDigits 10 (n + 1)) := IsDigits.toDigits (n + 1)
    have hsigned : IsSigned (Decimal.text (.negSucc n) ++ u) '-' (Nat.toDigits 10 (n + 1)) u :=
      ⟨rfl, rfl, hdigits.isWord, fun d hd => hdigits.2 d (List.mem_of_mem_head? hd), hu⟩
    exact hsigned.pieces_eq

/-- **What is written is cut into what was written.**  No two of the written pieces grow together, and
    none comes apart. -/
theorem pieces_flatMap_respelling (t : Text) :
    pieces ((pieces t).flatMap respelling) = (pieces t).map respelling := by
  have hsegments : ∀ u : Text, (segments u).flatMap respelling = respell respelling u := by
    intro u
    rw [segments_eq_chunks]
    rfl
  rcases isSigned_cases t with ⟨s, w, u, h⟩ | hplain
  · have hends := respells_respelling.not_isWordChar_head h.ends
    rw [h.pieces_eq, List.flatMap_cons, List.map_cons, hsegments, ← segments_respell respells_respelling]
    rcases respelling_cases (s :: w) with hsame | ⟨-, n, hn⟩
    · have hwritten : IsSigned (s :: w ++ respell respelling u) s w (respell respelling u) :=
        ⟨rfl, h.isSign, h.isWord, h.isDigit, hends⟩
      rw [hsame, hwritten.pieces_eq]
    · rw [respelling, hn]
      exact pieces_text_append n hends
  · have hwritten : (pieces t).flatMap respelling = respell respelling t := by
      rw [pieces_of_not_isSigned hplain, hsegments]
    rw [hwritten, pieces_respell_of_not_isSigned respells_respelling hplain]

/-- **Tokens are read as they were written.**  The tokens of any text are written one behind the other,
    with nothing between them.  Then the pieces of what is written are the texts of the tokens, and its
    tokens are the same again. -/
theorem ofExpression_flatMap_text (t : Text) :
    pieces ((ofExpression t).flatMap text) = (ofExpression t).map text ∧
      ofExpression ((ofExpression t).flatMap text) = ofExpression t := by
  have hwritten : (ofExpression t).flatMap text = (pieces t).flatMap respelling :=
    List.flatMap_map ofText text (pieces t)
  have htexts : (ofExpression t).map text = (pieces t).map respelling := List.map_map
  have hpieces : pieces ((ofExpression t).flatMap text) = (ofExpression t).map text := by
    rw [hwritten, htexts, pieces_flatMap_respelling]
  refine ⟨hpieces, ?_⟩
  rw [ofExpression, hpieces, htexts, List.map_map]
  show (pieces t).map (fun p => ofText (respelling p)) = (pieces t).map ofText
  exact List.map_congr_left fun p _ => ofText_respelling p

/-- Written, the number is shorter than the piece that it was read from. -/
example : (ofExpression "+007*(x-08)".toList).flatMap text = "7*(x-8)".toList := by decide

end Token

end Calculator
