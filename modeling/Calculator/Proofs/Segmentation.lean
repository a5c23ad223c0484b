/-
  The pieces of a text, told without the function that cuts it.

  1. `Piece before p after` — how a piece `p` lies between what stands before it and what stands
     behind it.  It is a word that no neighbour could lengthen, or one character that belongs to no
     word.  Only at the beginning of the text a sign directly before a digit is no piece by itself:
     there the sign and the whole word of the digit are one.
  2. `Segmentation t ps` — the texts `ps`, one after the other, are `t`, and each of them lies there as
     a piece.
  3. The first piece of a segmentation is the first piece that is cut off (`Piece.pieces_eq`), and so is
     every later one (`Piece.segments_eq`); hence there is one segmentation at most.  What is cut off is
     a segmentation (`pieced_segments`, `pieced_pieces`); hence there is one.
  4. `ofExpression_of_segmentation` — the tokens of a text are read from its only segmentation.
-/
import Calculator.Proofs.Chunks

namespace Calculator.Token

open Text

/-! ## Pieces in their place -/

/-- How a piece lies between what stands before it and what stands behind it. -/
inductive Piece : Text → Text → Text → Prop
  | word {before w after : Text} (hw : IsWord w)
      (hbefore : ∀ c ∈ before.getLast?, isWordChar c = false)
      (hafter : ∀ c ∈ after.head?, isWordChar c = false) : Piece before w after
  | other {before after : Text} {c : Char} (hc : isWordChar c = false)
      (hsign : before = [] → isSign c → ∀ d ∈ after.head?, d.isDigit = false) :
      Piece before [c] after
  | signed {w after : Text} {s : Char} (hs : isSign s) (hw : IsWord w)
      (hdigit : ∀ d ∈ w.head?, d.isDigit) (hafter : ∀ c ∈ after.head?, isWordChar c = false) :
      Piece [] (s :: w) after

/-- Each of these texts lies as a piece behind the texts before it, which begin behind `before`. -/
def Pieced (before : Text) (ps : List Text) : Prop :=
  ∀ qs p rs, ps = qs ++ p :: rs → Piece (before ++ qs.flatten) p rs.flatten

/-- A text cut into pieces. -/
structure Segmentation (t : Text) (ps : List Text) : Prop where
  flatten_eq : ps.flatten = t
  pieced : Pieced [] ps

theorem Piece.ne_nil {before p after : Text} (h : Piece before p after) : p ≠ [] := by
  cases h with
  | word hw => exact hw.1
  | other => exact List.cons_ne_nil _ _
  | signed => exact List.cons_ne_nil _ _

theorem pieced_nil (before : Text) : Pieced before [] := by
  intro qs p rs h
  exact absurd h.symm (by simp)

theorem pieced_cons_iff {before p : Text} {ps : List Text} :
    Pieced before (p :: ps) ↔ Piece before p ps.flatten ∧ Pieced (before ++ p) ps := by
  constructor
  · intro h
    constructor
    · have hfirst := h [] p ps rfl
      rwa [List.flatten_nil, List.append_nil] at hfirst
    · intro qs q rs heq
      have hlater := h (p :: qs) q rs (by rw [heq]; rfl)
      rwa [List.flatten_cons, ← List.append_assoc] at hlater
  · rintro ⟨hp, hps⟩ qs q rs heq
    cases qs with
    | nil =>
      obtain ⟨rfl, rfl⟩ := List.cons.inj heq
      rwa [List.flatten_nil, List.append_nil]
    | cons p' qs =>
      obtain ⟨rfl, rfl⟩ := List.cons.inj heq
      rw [List.flatten_cons, ← List.append_assoc]
      exact hps qs q rs rfl

/-! ## There is one segmentation at most -/

/-- Behind the beginning, a piece is the first of the segments that begin with it. -/
theorem Piece.segments_eq {before p after : Text} (h : Piece before p after) (hne : before ≠ []) :
    segments (p ++ after) = p :: segments after := by
  cases h with
  | word hw _ hafter => exact segments_append_of_isWord hw hafter
  | other hc _ => exact segments_cons_of_not_isWordChar hc after
  | signed => exact absurd rfl hne

theorem Pieced.segments_eq {before : Text} {ps : List Text} (h : Pieced before ps)
    (hne : before ≠ []) : segments ps.flatten = ps := by
  induction ps generalizing before with
  | nil => rfl
  | cons p ps ih =>
    obtain ⟨hp, hps⟩ := pieced_cons_iff.1 h
    have hrest : segments ps.flatten = ps := ih hps (by simp [hne])
    rw [List.flatten_cons, hp.segments_eq hne, hrest]

/-- At the beginning, a piece is the first of all pieces. -/
theorem Piece.pieces_eq {p after : Text} (h : Piece [] p after) :
    pieces (p ++ after) = p :: segments after := by
  cases h with
  | word hw _ hafter =>
    rw [pieces_of_head? (hw.not_isSign_head after), segments_append_of_isWord hw hafter]
  | @other _ _ c hc hsign =>
    by_cases hs : isSign c
    · exact pieces_sign_of_head? hs (hsign rfl hs)
    · have hhead : ∀ d ∈ (c :: after).head?, isSign d = false := by
        intro d hd
        cases hd
        simpa using hs
      show pieces (c :: after) = _
      rw [pieces_of_head? hhead, segments_cons_of_not_isWordChar hc]
  | @signed w _ s hs hw hdigit hafter =>
    have hsigned : IsSigned (s :: (w ++ after)) s w after := ⟨rfl, hs, hw, hdigit, hafter⟩
    exact hsigned.pieces_eq

/-- Pieces that begin a text are what is cut off it. -/
theorem Pieced.pieces_eq {ps : List Text} (h : Pieced [] ps) : pieces ps.flatten = ps := by
  cases ps with
  | nil => rfl
  | cons p ps =>
    obtain ⟨hp, hps⟩ := pieced_cons_iff.1 h
    have hrest : segments ps.flatten = ps := hps.segments_eq (by simpa using hp.ne_nil)
    rw [List.flatten_cons, hp.pieces_eq, hrest]

/-! ## There is one -/

/-- Segments lie as pieces where no word goes on from what stands before them, and where no sign is
    part of a number. -/
theorem pieced_segments {before t : Text}
    (hmeet : (∀ c ∈ before.getLast?, isWordChar c = false) ∨ ∀ c ∈ t.head?, isWordChar c = false)
    (hsigned : before = [] → ∀ s w u, ¬ IsSigned t s w u) : Pieced before (segments t) := by
  induction t using wordsInduction generalizing before with
  | nil => exact pieced_nil before
  | other c t hc ih =>
    rw [segments_cons_of_not_isWordChar hc, pieced_cons_iff, flatten_segments]
    constructor
    · refine .other hc ?_
      intro hbefore hs d hd
      -- a digit behind a sign that begins the text would make the two one piece
      obtain ⟨u, rfl⟩ := List.head?_eq_some_iff.1 hd
      cases hdigit : d.isDigit with
      | false => rfl
      | true => exact absurd (isSigned_cons hs hdigit u) (hsigned hbefore _ _ _)
    · refine ih (Or.inl ?_) (by simp)
      intro d hd
      rw [List.getLast?_concat] at hd
      cases hd
      exact hc
  | word w t hw ht ih =>
    rw [segments_append_of_isWord hw ht, pieced_cons_iff, flatten_segments]
    constructor
    · refine .word hw ?_ ht
      rcases hmeet with hbefore | hhead
      · exact hbefore
      · -- a word begins with a word character
        obtain ⟨c, w, rfl⟩ := List.exists_cons_of_ne_nil hw.1
        have hc : isWordChar c = false := hhead c rfl
        rw [hw.2 c (List.mem_cons_self ..)] at hc
        cases hc
    · exact ih (Or.inr ht) (by simp [hw.1])

theorem pieced_pieces (t : Text) : Pieced [] (pieces t) := by
  rcases isSigned_cases t with ⟨s, w, u, h⟩ | hplain
  · rw [h.pieces_eq, pieced_cons_iff, flatten_segments]
    constructor
    · exact .signed h.isSign h.isWord h.isDigit h.ends
    · exact pieced_segments (Or.inr h.ends) (by simp)
  · rw [pieces_of_not_isSigned hplain]
    exact pieced_segments (Or.inl (by simp)) fun _ => hplain

/-- The pieces that are cut off a text are its only segmentation. -/
theorem segmentation_iff {t : Text} {ps : List Text} : Segmentation t ps ↔ ps = pieces t := by
  constructor
  · rintro ⟨rfl, h⟩
    exact h.pieces_eq.symm
  · rintro rfl
    exact ⟨flatten_pieces t, pieced_pieces t⟩

theorem Segmentation.ne_nil_of_mem {t p : Text} {ps : List Text} (h : Segmentation t ps)
    (hp : p ∈ ps) : p ≠ [] := by
  obtain ⟨qs, rs, hps⟩ := List.append_of_mem hp
  exact (h.pieced qs p rs hps).ne_nil

/-- **Reading a text.**  Every text has exactly one segmentation.  No piece of it is empty, and its
    pieces, each taken for the token that it stands for, are the tokens of the text. -/
theorem ofExpression_of_segmentation (t : Text) :
    ∃ ps, (∀ qs, Segmentation t qs ↔ qs = ps) ∧ (∀ p ∈ ps, p ≠ []) ∧
      ofExpression t = ps.map ofText := by
  refine ⟨pieces t, ?_, ?_, rfl⟩
  · intro qs
    exact segmentation_iff
  · intro p hp
    exact (segmentation_iff.2 rfl : Segmentation t (pieces t)).ne_nil_of_mem hp

end Calculator.Token
