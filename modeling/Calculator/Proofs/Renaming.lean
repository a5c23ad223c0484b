/-
  Texts with other names for the variables.

  1. `Text.rename r t` — every word of `t` that is made of letters only is replaced by its image under
     the injective map `r`; all other words and all other characters stay.  The places where the text
     is parted stay as well (`segments_rename`), and so do the characters that are no letters
     (`head?_rename`).
  2. Renaming has an equation for each of the two ways in which a text is built from words and the
     characters between them.  With these, by `wordsInduction`, it goes through every stage that looks
     at a text: collapsing (`collapse_rename`), the shape (`isWellShaped_rename`), the cut into pieces
     (`pieces_rename`) and the reading of numbers (`literal_rename_iff`, `signed?_rename`).
  3. So the tokens of a renamed text are those of the text, the identifiers renamed
     (`Expression.ofText_rename`).  No stage has to be told which words are names, because a text is a
     name if and only if it is one when it is renamed (`isName_rename`).
-/
import Calculator.Proofs.Chunks
import Calculator.Proofs.Operands
import Calculator.Proofs.Spelling
import Calculator.Proofs.Declaration
import Mathlib.Logic.Embedding.Basic

namespace Calculator

namespace Text

/-- The texts that may name a variable. -/
abbrev Name := {t : Text // t.isName}

/-- The new name of a word that is a name; any other text as it stands. -/
def renameWord (r : Name ↪ Name) (w : Text) : Text := if h : w.isName then r ⟨w, h⟩ else w

/-- The text with new names for its words of letters. -/
def rename (r : Name ↪ Name) (t : Text) : Text := t.chunks.flatMap (renameWord r)

example (r : Name ↪ Name) :
    rename r "(ab-2c)*a_".toList = '(' :: r ⟨['a', 'b'], rfl⟩ ++ "-2c)*a_".toList := rfl

variable {r : Name ↪ Name}

/-! ## One word -/

theorem renameWord_of_isName {w : Text} (h : w.isName) : renameWord r w = r ⟨w, h⟩ := dif_pos h

theorem renameWord_of_not_isName {w : Text} (h : w.isName = false) : renameWord r w = w :=
  dif_neg (by simp [h])

theorem isName_renameWord (w : Text) : (renameWord r w).isName = w.isName := by
  cases h : w.isName with
  | true => rw [renameWord_of_isName h]; exact (r ⟨w, h⟩).2
  | false => rw [renameWord_of_not_isName h, h]

theorem isWord_renameWord {w : Text} (h : IsWord w) : IsWord (renameWord r w) := by
  cases hname : w.isName with
  | true => exact isWord_of_isName (by rw [isName_renameWord, hname])
  | false => rwa [renameWord_of_not_isName hname]

/-- No name begins with anything but a letter, neither an old one nor a new one. -/
theorem head?_renameWord {c : Char} (hc : c.isAlpha = false) (w : Text) :
    (renameWord r w).head? = some c ↔ w.head? = some c := by
  have hnone : ∀ {x : Text}, x.isName → x.head? ≠ some c := by
    intro x hx hhead
    rw [not_isName_of_mem hc (List.mem_of_mem_head? hhead)] at hx
    cases hx
  cases hname : w.isName with
  | true => exact iff_of_false (hnone (by rw [isName_renameWord, hname])) (hnone hname)
  | false => rw [renameWord_of_not_isName hname]

theorem renameWord_eq_self {w : Text}
    (h : (∀ c ∈ w, c.isAlpha = false) ∨ ∀ c ∈ renameWord r w, c.isAlpha = false) :
    renameWord r w = w := by
  have hletter : ∀ {x : Text}, x.isName → ¬ ∀ c ∈ x, c.isAlpha = false := by
    intro x hx hnone
    obtain ⟨c, hc⟩ := List.exists_mem_of_ne_nil x (isName_iff.1 hx).1
    rw [not_isName_of_mem (hnone c hc) hc] at hx
    cases hx
  cases hname : w.isName with
  | true =>
    rcases h with h | h
    · exact absurd h (hletter hname)
    · exact absurd h (hletter (by rw [isName_renameWord, hname]))
  | false => exact renameWord_of_not_isName hname

/-! ## Texts, by words -/

/-- Names become names, and nothing else changes. -/
theorem respells_renameWord : Respells (renameWord r) where
  isWord := isWord_renameWord
  isDigit {w} hw h := by
    obtain ⟨d, v, hv⟩ := List.exists_cons_of_ne_nil (isWord_renameWord (r := r) hw).1
    have hhead : (renameWord r w).head? = some d := by
      rw [hv]
      rfl
    have hdigit : d.isDigit := h d hhead
    intro e he
    rw [(head?_renameWord (not_isAlpha_of_isDigit hdigit) w).1 hhead] at he
    cases he
    exact hdigit
  singleton h := renameWord_of_not_isName
    (not_isName_of_mem (not_isAlpha_of_not_isWordChar h) (List.mem_singleton_self _))

@[simp] theorem rename_nil : rename r [] = [] := rfl

theorem rename_cons {c : Char} (h : isWordChar c = false) (t : Text) :
    rename r (c :: t) = c :: rename r t := respells_renameWord.respell_cons h t

theorem rename_append {w t : Text} (hw : IsWord w) (ht : ∀ c ∈ t.head?, isWordChar c = false) :
    rename r (w ++ t) = renameWord r w ++ rename r t := respell_append hw ht _

/-- A word is renamed as a whole. -/
theorem rename_of_isWord {w : Text} (h : IsWord w) : rename r w = renameWord r w := by
  have happend := rename_append (r := r) h (t := []) (by simp)
  rwa [List.append_nil, rename_nil, List.append_nil] at happend

theorem rename_of_isName {x : Text} (h : x.isName) : rename r x = r ⟨x, h⟩ := by
  rw [rename_of_isWord (isWord_of_isName h), renameWord_of_isName h]

/-- The parts on both sides of a character that belongs to no word are renamed separately. -/
theorem rename_append_cons {c : Char} (h : isWordChar c = false) (s t : Text) :
    rename r (s ++ c :: t) = rename r s ++ c :: rename r t := by
  have hparts : chunks (s ++ c :: t) = chunks s ++ chunks (c :: t) := by
    rw [chunks_cons h, ← Token.segments_eq_chunks, Token.segments_append_cons h,
      Token.segments_eq_chunks, Token.segments_eq_chunks]
  rw [rename, hparts, List.flatMap_append, ← rename, ← rename, rename_cons h]

/-! ## What renaming keeps -/

/-- A character that is no letter begins the renamed text exactly where it begins the text. -/
theorem head?_rename {c : Char} (hc : c.isAlpha = false) (t : Text) :
    (rename r t).head? = some c ↔ t.head? = some c := by
  induction t using wordsInduction with
  | nil => rfl
  | other d t hd => rw [rename_cons hd]; rfl
  | word w t hw ht =>
    rw [rename_append hw ht, List.head?_append_of_ne_nil _ (isWord_renameWord hw).1,
      List.head?_append_of_ne_nil _ hw.1, head?_renameWord hc]

theorem rename_eq_nil_iff {t : Text} : rename r t = [] ↔ t = [] := by
  induction t using wordsInduction with
  | nil => rfl
  | other d t hd => rw [rename_cons hd]; simp
  | word w t hw ht => rw [rename_append hw ht]; simp [hw.1, (isWord_renameWord hw).1]

theorem rename_eq_singleton_iff {c : Char} (h : isWordChar c = false) {t : Text} :
    rename r t = [c] ↔ t = [c] := by
  constructor
  · intro ht
    have hhead : (rename r t).head? = some c := by rw [ht]; rfl
    rw [head?_rename (not_isAlpha_of_not_isWordChar h)] at hhead
    obtain ⟨u, rfl⟩ := List.head?_eq_some_iff.1 hhead
    rw [rename_cons h] at ht
    rw [rename_eq_nil_iff.1 (List.cons.inj ht).2]
  · rintro rfl
    exact rename_cons h []

/-- No word begins a renamed text if none begins the text. -/
theorem not_isWordChar_head_rename {t : Text} (h : ∀ c ∈ t.head?, isWordChar c = false) :
    ∀ c ∈ (rename r t).head?, isWordChar c = false := respells_renameWord.not_isWordChar_head h

/-- Renaming brings in no characters but letters. -/
theorem mem_of_mem_rename {t : Text} {c : Char} (h : c ∈ rename r t) (hc : c.isAlpha = false) :
    c ∈ t := by
  induction t using wordsInduction with
  | nil => exact h
  | other d t hd ih =>
    rw [rename_cons hd] at h
    rcases List.mem_cons.1 h with rfl | h
    · exact List.mem_cons_self ..
    · exact List.mem_cons_of_mem _ (ih h)
  | word w t hw ht ih =>
    rw [rename_append hw ht] at h
    rcases List.mem_append.1 h with h | h
    · cases hname : w.isName with
      | true =>
        -- the new name has letters only
        have hname' : (renameWord r w).isName := by rw [isName_renameWord, hname]
        rw [not_isName_of_mem hc h] at hname'
        cases hname'
      | false =>
        rw [renameWord_of_not_isName hname] at h
        exact List.mem_append_left _ h
    · exact List.mem_append_right _ (ih h)

/-- Where all blanks are gone, none comes in. -/
theorem strip_rename_strip (t : Text) : (rename r t.strip).strip = rename r t.strip := by
  refine strip_eq_self fun c hc => ?_
  by_cases halpha : c.isAlpha
  · exact isBlank_of_isWordChar (isWordChar_of_isAlpha halpha)
  · exact isBlank_of_mem_strip (mem_of_mem_rename hc (by simpa using halpha))

/-- Without letters on one of the two sides there is nothing to rename. -/
theorem rename_eq_self {t : Text}
    (h : (∀ c ∈ t, c.isAlpha = false) ∨ ∀ c ∈ rename r t, c.isAlpha = false) : rename r t = t := by
  induction t using wordsInduction with
  | nil => rfl
  | other d t hd ih =>
    rw [rename_cons hd] at h ⊢
    have hrest := h.imp (fun h c hc => h c (List.mem_cons_of_mem d hc))
      fun h c hc => h c (List.mem_cons_of_mem d hc)
    rw [ih hrest]
  | word w t hw ht ih =>
    rw [rename_append hw ht] at h ⊢
    have hword := h.imp (fun h c hc => h c (List.mem_append_left t hc))
      fun h c hc => h c (List.mem_append_left _ hc)
    have hrest := h.imp (fun h c hc => h c (List.mem_append_right w hc))
      fun h c hc => h c (List.mem_append_right _ hc)
    rw [renameWord_eq_self hword, ih hrest]

/-! ## Names and numbers -/

/-- A text is a name exactly when it is one after the renaming. -/
theorem isName_rename (t : Text) : (rename r t).isName = t.isName := by
  induction t using wordsInduction with
  | nil => rfl
  | other c t hc =>
    have halpha := not_isAlpha_of_not_isWordChar hc
    rw [rename_cons hc, not_isName_of_mem halpha (List.mem_cons_self ..),
      not_isName_of_mem halpha (List.mem_cons_self ..)]
  | word w t hw ht =>
    rw [rename_append hw ht]
    cases t with
    | nil => rw [rename_nil, List.append_nil, List.append_nil, isName_renameWord]
    | cons c t =>
      -- the character behind the word is in the way on both sides
      have hc : isWordChar c = false := ht c rfl
      have halpha := not_isAlpha_of_not_isWordChar hc
      rw [rename_cons hc, not_isName_of_mem halpha (List.mem_append_right _ (List.mem_cons_self ..)),
        not_isName_of_mem halpha (List.mem_append_right _ (List.mem_cons_self ..))]

theorem IsIntegral.not_isAlpha {t : Text} (h : IsIntegral t) : ∀ c ∈ t, c.isAlpha = false := by
  obtain ⟨digits, hdigits, rfl | rfl | rfl⟩ := h
  · exact fun c hc => not_isAlpha_of_isDigit (hdigits.2 c hc)
  · intro c hc
    rcases List.mem_cons.1 hc with rfl | hc
    · decide
    · exact not_isAlpha_of_isDigit (hdigits.2 c hc)
  · intro c hc
    rcases List.mem_cons.1 hc with rfl | hc
    · decide
    · exact not_isAlpha_of_isDigit (hdigits.2 c hc)

/-- Numbers are not renamed, and nothing becomes a number. -/
theorem rename_of_isIntegral {t : Text} (h : IsIntegral t ∨ IsIntegral (rename r t)) :
    rename r t = t :=
  rename_eq_self (h.imp IsIntegral.not_isAlpha IsIntegral.not_isAlpha)

theorem signed?_rename (t : Text) : Decimal.signed? (rename r t) = Decimal.signed? t := by
  by_cases h : IsIntegral t ∨ IsIntegral (rename r t)
  · rw [rename_of_isIntegral h]
  · rw [Decimal.signed?_eq_none fun hi => h (Or.inl hi),
      Decimal.signed?_eq_none fun hi => h (Or.inr hi)]

theorem literal_rename_iff {t : Text} {n : Int} :
    Decimal.Literal (rename r t) n ↔ Decimal.Literal t n := by
  constructor
  · intro h
    rwa [rename_of_isIntegral (Or.inr h.isIntegral)] at h
  · intro h
    rwa [rename_of_isIntegral (Or.inl h.isIntegral)]

/-! ## Collapsed texts -/

theorem attach_rename {c : Char} (h : isWordChar c = false) (t : Text) :
    attach c (rename r t) = rename r (attach c t) := by
  by_cases hsign : ∃ d ∈ t.head?, isSign d = true
  · obtain ⟨d, hd, hsign⟩ := hsign
    obtain ⟨t, rfl⟩ := List.head?_eq_some_iff.1 hd
    have hword : isWordChar d = false := not_isWordChar_of_isSign hsign
    rw [rename_cons hword, attach, attach]
    split
    · rw [rename_cons (not_isWordChar_of_isSign (isSign_merge c d))]
    · rw [rename_cons h, rename_cons hword]
  · -- there is no sign to merge with, neither before the renaming nor after it
    have hhead : ∀ d ∈ t.head?, isSign d = false := by
      intro d hd
      cases hd' : isSign d with
      | false => rfl
      | true => exact absurd ⟨d, hd, hd'⟩ hsign
    have hhead' : ∀ d ∈ (rename r t).head?, isSign d = false := by
      intro d hd
      cases hd' : isSign d with
      | false => rfl
      | true =>
        have halpha := not_isAlpha_of_not_isWordChar (not_isWordChar_of_isSign hd')
        exact absurd ⟨d, (head?_rename halpha t).1 hd, hd'⟩ hsign
    rw [attach_of_head? hhead, attach_of_head? hhead', rename_cons h]

/-- Renaming does not touch signs, so the runs of signs collapse as before. -/
theorem collapse_rename (t : Text) : collapse (rename r t) = rename r (collapse t) := by
  induction t using wordsInduction with
  | nil => rfl
  | other c t hc ih => rw [rename_cons hc, collapse_cons, ih, attach_rename hc, collapse_cons]
  | word w t hw ht ih =>
    rw [rename_append hw ht, collapse_append_of_isWord (isWord_renameWord hw), ih,
      collapse_append_of_isWord hw, rename_append hw (not_isWordChar_head_collapse ht)]

end Text

namespace Token

open Text

variable {r : Name ↪ Name}

/-! ## Segments and pieces -/

/-- A segment is renamed as a whole. -/
theorem map_renameWord_segments (t : Text) :
    (segments t).map (renameWord r) = (segments t).map (rename r) := by
  refine List.map_congr_left ?_
  intro p hp
  rcases mem_segments hp with ⟨c, rfl⟩ | hword
  · cases hc : isWordChar c with
    | true => exact (rename_of_isWord (isWord_singleton hc)).symm
    | false => rw [rename_cons hc, respells_renameWord.singleton hc, rename_nil]
  · exact (rename_of_isWord ⟨ne_nil_of_mem_segments hp, hword⟩).symm

/-- A renamed text is parted where the text is parted. -/
theorem segments_rename (t : Text) : segments (rename r t) = (segments t).map (rename r) := by
  rw [← map_renameWord_segments]
  exact segments_respell respells_renameWord t

/-- The pieces of a renamed text are the pieces of the text, renamed. -/
theorem pieces_rename (t : Text) : pieces (rename r t) = (pieces t).map (rename r) := by
  rcases isSigned_cases t with ⟨s, w, u, h⟩ | hplain
  · have hs : isWordChar s = false := not_isWordChar_of_isSign h.isSign
    -- the word behind the sign begins with a digit and keeps its name
    have hw : renameWord r w = w := by
      obtain ⟨d, w, rfl⟩ := List.exists_cons_of_ne_nil h.isWord.1
      have hd : d.isAlpha = false := not_isAlpha_of_isDigit (h.isDigit d rfl)
      exact renameWord_of_not_isName (not_isName_of_mem hd (List.mem_cons_self ..))
    have hrename : IsSigned (rename r t) s w (rename r u) :=
      ⟨by rw [h.eq_cons, rename_cons hs, rename_append h.isWord h.ends, hw], h.isSign, h.isWord,
        h.isDigit, not_isWordChar_head_rename h.ends⟩
    rw [hrename.pieces_eq, h.pieces_eq, List.map_cons, rename_cons hs, rename_of_isWord h.isWord, hw,
      segments_rename]
  · have hparts : pieces (rename r t) = (pieces t).map (renameWord r) :=
      pieces_respell_of_not_isSigned respells_renameWord hplain
    rw [hparts, pieces_of_not_isSigned hplain, map_renameWord_segments]

/-! ## Tokens -/

theorem symbol?_rename (t : Text) : symbol? (rename r t) = symbol? t := by
  ext tok
  constructor
  · intro h
    obtain ⟨c, hc, ht⟩ := exists_eq_singleton_of_symbol? h
    rwa [ht, ← (rename_eq_singleton_iff hc).1 ht] at h
  · intro h
    obtain ⟨c, hc, ht⟩ := exists_eq_singleton_of_symbol? h
    rwa [(rename_eq_singleton_iff hc).2 ht, ← ht]

end Token

/-- An operand with new names in its text if it is an identifier. -/
def Operand.rename (r : Text.Name ↪ Text.Name) : Operand → Operand
  | .number n => .number n
  | .identifier x => .identifier (x.rename r)

namespace Token

variable {r : Text.Name ↪ Text.Name}

theorem operandOfText_rename (t : Text) :
    operandOfText (t.rename r) = (operandOfText t).rename r := by
  rw [operandOfText, Text.signed?_rename, operandOfText]
  cases Decimal.signed? t <;> rfl

/-- A renamed text stands for the renamed token. -/
theorem ofText_rename (t : Text) : ofText (t.rename r) = (ofText t).map (Operand.rename r) := by
  rw [ofText, symbol?_rename, operandOfText_rename, ofText]
  cases hsymbol : symbol? t with
  | none => rfl
  | some tok =>
    rcases symbol?_cases hsymbol with ⟨op, rfl, -⟩ | ⟨p, rfl, -⟩
    · rfl
    · rfl

end Token

namespace Expression

open Text

variable {r : Name ↪ Name}

/-- **Tokens.**  The tokens of a text without blanks are renamed with it. -/
theorem ofText_rename (t : Text) :
    ofText (rename r t.strip) = (ofText t.strip).map (Token.map (Operand.rename r)) := by
  have hnormalize : (rename r t.strip).normalize = rename r t.strip.normalize := by
    rw [Text.normalize, strip_rename_strip, collapse_rename, Text.normalize, strip_strip]
  rw [ofText, hnormalize, Token.ofExpression, Token.pieces_rename, ofText, Token.ofExpression,
    List.map_map, List.map_map]
  exact List.map_congr_left fun p _ => Token.ofText_rename p

/-! ## The shape -/

namespace Place

theorem next_closings_of_isWordChar {c : Char} (h : isWordChar c) : next closings c = none := by
  have hne : ∀ {d : Char}, isWordChar d = false → c ≠ d := by
    rintro d hd rfl
    rw [h] at hd
    cases hd
  have hsingle : isSingle c = false := by
    simp [isSingle, hne (d := '*') (by decide), hne (d := '/') (by decide),
      hne (d := '^') (by decide)]
  rw [next, afterOperand, if_neg (hne (by decide)), not_isSign_of_isWordChar h, hsingle]
  rfl

/-- From every place, all words lead to the same place. -/
theorem foldlM_next_words {v w : Text} (hv : IsWord v) (hw : IsWord w) (place : Place) :
    v.foldlM next place = w.foldlM next place := by
  have hclosings : ∀ {w : Text}, IsWord w → w.foldlM next closings = none := by
    intro w hw
    obtain ⟨c, w, rfl⟩ := List.exists_cons_of_ne_nil hw.1
    rw [List.foldlM_cons, next_closings_of_isWordChar (hw.2 c (List.mem_cons_self ..))]
    rfl
  by_cases hplace : place = closings
  · rw [hplace, hclosings hv, hclosings hw]
  · rw [foldlM_next_word hv hplace, foldlM_next_word hw hplace]

theorem foldlM_next_rename (t : Text) (place : Place) :
    (rename r t).foldlM next place = t.foldlM next place := by
  induction t using wordsInduction generalizing place with
  | nil => rfl
  | other c t hc ih =>
    rw [rename_cons hc, List.foldlM_cons, List.foldlM_cons]
    congr 1
    funext place'
    exact ih place'
  | word w t hw ht ih =>
    rw [rename_append hw ht, List.foldlM_append, List.foldlM_append,
      foldlM_next_words (isWord_renameWord hw) hw place]
    congr 1
    funext place'
    exact ih place'

end Place

/-- A text keeps its shape when it is renamed. -/
theorem isWellShaped_rename (t : Text) : isWellShaped (rename r t) = isWellShaped t := by
  rw [isWellShaped, Place.foldlM_next_rename, isWellShaped]

end Expression

end Calculator
