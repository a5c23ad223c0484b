/-
  Texts as words and the characters between them.

  1. `Text.chunks` — a text parted wherever two neighbours are not both word characters.  `Text.words`
     — those of the parts that are words; each is as long as it can be.
  2. Every text is built from the right by single characters that belong to no word and by whole words
     (`Text.wordsInduction`), and on both `chunks` and `words` have an equation.
  3. The segments that tokens are read from are the chunks (`segments_eq_chunks`).
  4. The words of a text stay the same, in their order, when its runs of signs are collapsed
     (`words_collapse`).  So every piece of the collapsed text that is a name is a word of the text
     before (`mem_words_of_mem_pieces`): the one piece that is no chunk begins with a sign.
  5. `Text.respell g` — every chunk `p` of a text is written as `g p`.  If words become words and all
     other characters stay (`Respells g`), then the segments of the new text are the new spellings of
     the segments of the text (`segments_respell`).  The pieces are so too if none of them is a number
     with a sign (`pieces_respell_of_not_isSigned`).
-/
import Calculator.Proofs.Pieces
import Mathlib.Data.List.SplitBy

namespace Calculator

namespace Text

/-- The words of a text, and the characters between them one by one. -/
def chunks (t : Text) : List Text := t.splitBy fun c d => isWordChar c && isWordChar d

/-- The words of a text, each as long as it can be. -/
def words (t : Text) : List Text := t.chunks.filter fun p => p.all isWordChar

example : words "-2a+(b_1*é)c".toList = ["2a".toList, "b_1".toList, ['c']] := by decide

/-! ## One chunk -/

theorem chunks_cons {c : Char} (h : isWordChar c = false) (t : Text) :
    chunks (c :: t) = [c] :: chunks t := by
  have happart : ∀ x ∈ [c].getLast?, ∀ y ∈ t.head?, (isWordChar x && isWordChar y) = false := by
    intro x hx y _
    obtain rfl : c = x := Option.some.inj hx
    rw [h, Bool.false_and]
  exact List.splitBy_append happart

/-- A word is a chunk where no word character follows it. -/
theorem chunks_append {w t : Text} (hw : IsWord w) (ht : ∀ c ∈ t.head?, isWordChar c = false) :
    chunks (w ++ t) = w :: chunks t := by
  have happart : ∀ x ∈ w.getLast?, ∀ y ∈ t.head?, (isWordChar x && isWordChar y) = false := by
    intro x _ y hy
    rw [ht y hy, Bool.and_false]
  have hjoin : List.Pairwise (fun c d => (isWordChar c && isWordChar d) = true) w :=
    List.pairwise_of_forall_mem_list fun c hc d hd => by rw [hw.2 c hc, hw.2 d hd]; rfl
  have hone : chunks w = [w] := List.splitBy_of_isChain hw.1 hjoin.isChain
  show List.splitBy _ (w ++ t) = w :: chunks t
  rw [List.splitBy_append happart]
  show chunks w ++ chunks t = _
  rw [hone]
  rfl

/-! ## Where a word ends -/

theorem not_isWordChar_head_dropWhile (t : Text) :
    ∀ c ∈ (t.dropWhile isWordChar).head?, isWordChar c = false := by
  intro c hc
  have hend := List.head?_dropWhile_not isWordChar t
  rw [hc] at hend
  exact hend

theorem takeWhile_word {w t : Text} (hw : ∀ c ∈ w, isWordChar c)
    (ht : ∀ c ∈ t.head?, isWordChar c = false) : (w ++ t).takeWhile isWordChar = w := by
  rw [List.takeWhile_append_of_pos hw]
  cases t with
  | nil => exact List.append_nil w
  | cons c t => rw [List.takeWhile_cons_of_neg (by simp [ht c rfl]), List.append_nil]

theorem dropWhile_word {w t : Text} (hw : ∀ c ∈ w, isWordChar c)
    (ht : ∀ c ∈ t.head?, isWordChar c = false) : (w ++ t).dropWhile isWordChar = t := by
  rw [List.dropWhile_append_of_pos hw]
  cases t with
  | nil => rfl
  | cons c t => rw [List.dropWhile_cons_of_neg (by simp [ht c rfl])]

/-! ## Induction on words -/

/-- A property holds of every text when it holds of the empty one and is kept in front of a text by
    each character that belongs to no word and by each word that ends there. -/
@[elab_as_elim]
theorem wordsInduction {motive : Text → Prop} (t : Text) (nil : motive [])
    (other : ∀ c t, isWordChar c = false → motive t → motive (c :: t))
    (word : ∀ w t, IsWord w → (∀ c ∈ t.head?, isWordChar c = false) → motive t → motive (w ++ t)) :
    motive t := by
  induction hlength : t.length using Nat.strongRecOn generalizing t with
  | ind n ih =>
    subst hlength
    cases t with
    | nil => exact nil
    | cons c t =>
      by_cases hc : isWordChar c
      · -- the text begins with a word
        have hdrop : ((c :: t).dropWhile isWordChar).length < (c :: t).length := by
          rw [List.dropWhile_cons_of_pos hc, List.length_cons]
          have := (List.dropWhile_sublist isWordChar (l := t)).length_le
          omega
        rw [← List.takeWhile_append_dropWhile (p := isWordChar) (l := c :: t)]
        refine word _ _ ⟨?_, fun _ => List.mem_takeWhile_imp⟩
          (not_isWordChar_head_dropWhile (c :: t)) (ih _ hdrop _ rfl)
        rw [List.takeWhile_cons_of_pos hc]
        exact List.cons_ne_nil _ _
      · exact other c t (by simpa using hc) (ih t.length (Nat.lt_succ_self _) t rfl)

/-! ## Words -/

theorem words_cons {c : Char} (h : isWordChar c = false) (t : Text) :
    words (c :: t) = words t := by
  rw [words, chunks_cons h, List.filter_cons_of_neg (by simp [h])]
  rfl

theorem words_append {w t : Text} (hw : IsWord w) (ht : ∀ c ∈ t.head?, isWordChar c = false) :
    words (w ++ t) = w :: words t := by
  have hall : w.all isWordChar = true := List.all_eq_true.2 hw.2
  rw [words, chunks_append hw ht, List.filter_cons, if_pos hall]
  rfl

theorem words_of_isWord {w : Text} (h : IsWord w) : words w = [w] := by
  have hword := words_append h (t := []) (by simp)
  rwa [List.append_nil] at hword

/-- A character that belongs to no word parts the words of a text. -/
theorem words_append_cons {c : Char} (h : isWordChar c = false) (s t : Text) :
    words (s ++ c :: t) = words s ++ words t := by
  induction s using wordsInduction with
  | nil => rw [List.nil_append, words_cons h]; rfl
  | other d s hd ih => rw [List.cons_append, words_cons hd, ih, words_cons hd]
  | word w s hw hs ih =>
    have hend : ∀ d ∈ (s ++ c :: t).head?, isWordChar d = false := by
      cases s with
      | nil => intro d hd; cases hd; exact h
      | cons e s => exact hs
    rw [List.append_assoc, words_append hw hend, ih, words_append hw hs]
    rfl

/-! ## Collapsed texts -/

theorem words_attach {c : Char} (h : isWordChar c = false) (t : Text) :
    words (attach c t) = words t := by
  cases t with
  | nil => exact words_cons h []
  | cons d t =>
    rw [attach]
    split
    · rename_i hsign
      rw [Bool.and_eq_true] at hsign
      rw [words_cons (not_isWordChar_of_isSign (isSign_merge c d)),
        words_cons (not_isWordChar_of_isSign hsign.2)]
    · exact words_cons h _

/-- Where no word begins, none begins in the collapsed text. -/
theorem not_isWordChar_head_collapse {t : Text} (h : ∀ c ∈ t.head?, isWordChar c = false) :
    ∀ c ∈ (collapse t).head?, isWordChar c = false := by
  cases t with
  | nil => exact h
  | cons c t =>
    have hc : isWordChar c = false := h c rfl
    rw [collapse_cons]
    generalize collapse t = u
    cases u with
    | nil => exact h
    | cons d u =>
      rw [attach]
      split
      · intro e he
        cases he
        exact not_isWordChar_of_isSign (isSign_merge c d)
      · intro e he
        cases he
        exact hc

/-- No sign stands in a word, so the word and what follows it collapse separately. -/
theorem collapse_append_of_isWord {w : Text} (h : IsWord w) (t : Text) :
    collapse (w ++ t) = w ++ collapse t := by
  have hsign : ∀ c ∈ w, isSign c = false := fun c hc => not_isSign_of_isWordChar (h.2 c hc)
  rw [collapse_append (Or.inl fun c hc => hsign c (List.mem_of_getLast? hc)), collapse_eq_self hsign]

/-- Collapsing the runs of signs keeps the words. -/
theorem words_collapse (t : Text) : words (collapse t) = words t := by
  induction t using wordsInduction with
  | nil => rfl
  | other c t hc ih => rw [collapse_cons, words_attach hc, ih, words_cons hc]
  | word w t hw ht ih =>
    rw [collapse_append_of_isWord hw, words_append hw (not_isWordChar_head_collapse ht), ih,
      words_append hw ht]

/-! ## Texts with other words -/

/-- Words become words, which begin with a digit only if they did before; other characters stay. -/
structure Respells (g : Text → Text) : Prop where
  isWord : ∀ {w}, IsWord w → IsWord (g w)
  isDigit : ∀ {w}, IsWord w → (∀ d ∈ (g w).head?, d.isDigit) → ∀ d ∈ w.head?, d.isDigit
  singleton : ∀ {c}, isWordChar c = false → g [c] = [c]

/-- The text with other spellings for its chunks. -/
def respell (g : Text → Text) (t : Text) : Text := t.chunks.flatMap g

theorem respell_append {w t : Text} (hw : IsWord w) (ht : ∀ c ∈ t.head?, isWordChar c = false)
    (g : Text → Text) : respell g (w ++ t) = g w ++ respell g t := by
  rw [respell, chunks_append hw ht, List.flatMap_cons]
  rfl

namespace Respells

variable {g : Text → Text}

theorem respell_cons (hg : Respells g) {c : Char} (h : isWordChar c = false) (t : Text) :
    respell g (c :: t) = c :: respell g t := by
  rw [respell, chunks_cons h, List.flatMap_cons, hg.singleton h]
  rfl

/-- Where no word begins, none begins in the new text. -/
theorem not_isWordChar_head (hg : Respells g) {t : Text} (h : ∀ c ∈ t.head?, isWordChar c = false) :
    ∀ c ∈ (respell g t).head?, isWordChar c = false := by
  cases t with
  | nil => exact h
  | cons c t =>
    rw [hg.respell_cons (h c rfl)]
    exact h

/-- A digit that begins the new text is the spelling of a word that begins with a digit. -/
theorem exists_isDigit_head (hg : Respells g) {t : Text} {d : Char}
    (hd : (respell g t).head? = some d) (hdigit : d.isDigit) : ∃ e, t.head? = some e ∧ e.isDigit := by
  induction t using wordsInduction with
  | nil => cases hd
  | other c t hc =>
    rw [hg.respell_cons hc] at hd
    cases hd
    exact ⟨_, rfl, hdigit⟩
  | word w t hw ht =>
    rw [respell_append hw ht, List.head?_append_of_ne_nil _ (hg.isWord hw).1] at hd
    have hfirst : ∀ e ∈ (g w).head?, e.isDigit := by
      intro e he
      rw [hd] at he
      cases he
      exact hdigit
    obtain ⟨e, w, rfl⟩ := List.exists_cons_of_ne_nil hw.1
    exact ⟨e, rfl, hg.isDigit hw hfirst e rfl⟩

end Respells

end Text

namespace Token

open Text

/-! ## Segments and pieces -/

/-- A word is a segment where no word character follows it. -/
theorem segments_append_of_isWord {w t : Text} (hw : IsWord w)
    (ht : ∀ c ∈ t.head?, isWordChar c = false) : segments (w ++ t) = w :: segments t := by
  cases t with
  | nil => rw [List.append_nil, segments_word hw]; rfl
  | cons c t =>
    have hc : isWordChar c = false := ht c rfl
    rw [segments_append_cons hc, segments_word hw, segments_cons_of_not_isWordChar hc]
    rfl

/-- **Segments are chunks**: what is read as one token, but for a sign in front, is a whole word or a
    single character. -/
theorem segments_eq_chunks (t : Text) : segments t = t.chunks := by
  induction t using wordsInduction with
  | nil => rfl
  | other c t hc ih => rw [segments_cons_of_not_isWordChar hc, ih, chunks_cons hc]
  | word w t hw ht ih => rw [segments_append_of_isWord hw ht, ih, chunks_append hw ht]

/-- A text with other words is parted where the text is parted. -/
theorem segments_respell {g : Text → Text} (hg : Respells g) (t : Text) :
    segments (respell g t) = (segments t).map g := by
  induction t using wordsInduction with
  | nil => rfl
  | other c t hc ih =>
    rw [hg.respell_cons hc, segments_cons_of_not_isWordChar hc, ih, segments_cons_of_not_isWordChar hc,
      List.map_cons, hg.singleton hc]
  | word w t hw ht ih =>
    rw [respell_append hw ht, segments_append_of_isWord (hg.isWord hw) (hg.not_isWordChar_head ht), ih,
      segments_append_of_isWord hw ht, List.map_cons]

/-- Texts that begin with a sign in front of a digit: the sign, the word of the digit and the rest. -/
structure IsSigned (t : Text) (s : Char) (w u : Text) : Prop where
  eq_cons : t = s :: (w ++ u)
  isSign : isSign s
  isWord : IsWord w
  isDigit : ∀ d ∈ w.head?, d.isDigit
  ends : ∀ c ∈ u.head?, isWordChar c = false

/-- The sign and the word behind it are one piece. -/
theorem IsSigned.pieces_eq {t w u : Text} {s : Char} (h : IsSigned t s w u) :
    pieces t = (s :: w) :: segments u := by
  obtain ⟨rfl, hs, hw, hd, hu⟩ := h
  have htake : (w ++ u).takeWhile isWordChar = w := takeWhile_word hw.2 hu
  have hdrop : (w ++ u).dropWhile isWordChar = u := dropWhile_word hw.2 hu
  cases w with
  | nil => exact absurd rfl hw.1
  | cons d w =>
    rw [List.cons_append] at htake hdrop ⊢
    rw [pieces, hs, hd d rfl, htake, hdrop]
    rfl

/-- A sign in front of a digit at the beginning is all that this takes. -/
theorem isSigned_cons {s d : Char} (hs : isSign s) (hd : d.isDigit) (t : Text) :
    IsSigned (s :: d :: t) s ((d :: t).takeWhile isWordChar) ((d :: t).dropWhile isWordChar) where
  eq_cons := by rw [List.takeWhile_append_dropWhile]
  isSign := hs
  isWord := by
    refine ⟨?_, fun _ => List.mem_takeWhile_imp⟩
    rw [List.takeWhile_cons_of_pos (isWordChar_of_isDigit hd)]
    exact List.cons_ne_nil _ _
  isDigit := by
    rw [List.takeWhile_cons_of_pos (isWordChar_of_isDigit hd)]
    intro e he
    cases he
    exact hd
  ends := not_isWordChar_head_dropWhile (d :: t)

/-- No sign comes to stand before a digit at the beginning of a text with other words. -/
theorem isSigned_of_respell {g : Text → Text} (hg : Respells g) {t w u : Text} {s : Char}
    (h : IsSigned (respell g t) s w u) : ∃ w u, IsSigned t s w u := by
  obtain ⟨d, w, rfl⟩ := List.exists_cons_of_ne_nil h.isWord.1
  have hd : d.isDigit := h.isDigit d rfl
  induction t using wordsInduction with
  | nil => exact absurd h.eq_cons (List.cons_ne_nil _ _).symm
  | other c t hc =>
    obtain ⟨rfl, htail⟩ := List.cons.inj ((hg.respell_cons hc t).symm.trans h.eq_cons)
    have hhead : (respell g t).head? = some d := by
      rw [htail]
      rfl
    obtain ⟨e, he, hdigit⟩ := hg.exists_isDigit_head hhead hd
    obtain ⟨t, rfl⟩ := List.head?_eq_some_iff.1 he
    exact ⟨_, _, isSigned_cons h.isSign hdigit t⟩
  | word v t hv ht =>
    -- a text that begins with a word has no sign in front
    have hsign : isSign s = false := by
      refine (hg.isWord hv).not_isSign_head (respell g t) s ?_
      rw [← respell_append hv ht, h.eq_cons]
      rfl
    rw [h.isSign] at hsign
    cases hsign

/-- A number with a sign begins a text, or none does. -/
theorem isSigned_cases (t : Text) : (∃ s w u, IsSigned t s w u) ∨ ∀ s w u, ¬ IsSigned t s w u := by
  by_cases hsigned : ∃ s w u, IsSigned t s w u
  · exact Or.inl hsigned
  · refine Or.inr ?_
    intro s w u h
    exact hsigned ⟨s, w, u, h⟩

/-- All other texts are cut into their segments. -/
theorem pieces_of_not_isSigned {t : Text} (h : ∀ s w u, ¬ IsSigned t s w u) :
    pieces t = segments t := by
  unfold pieces
  split
  · rename_i s d t
    split
    · rename_i hsd
      rw [Bool.and_eq_true] at hsd
      exact absurd (isSigned_cons hsd.1 hsd.2 t) (h _ _ _)
    · rfl
  · rfl

/-- A text with other words is parted into pieces where the text is parted, unless there is a number
    with a sign in front. -/
theorem pieces_respell_of_not_isSigned {g : Text → Text} (hg : Respells g) {t : Text}
    (h : ∀ s w u, ¬ IsSigned t s w u) : pieces (respell g t) = (pieces t).map g := by
  have hnew : ∀ s w u, ¬ IsSigned (respell g t) s w u := by
    intro s w u hsigned
    obtain ⟨w, u, hold⟩ := isSigned_of_respell hg hsigned
    exact h s w u hold
  rw [pieces_of_not_isSigned hnew, pieces_of_not_isSigned h, segments_respell hg]

theorem mem_words_of_mem_segments {t x : Text} (h : x ∈ segments t) (hx : x.isName) :
    x ∈ t.words := by
  rw [segments_eq_chunks] at h
  exact List.mem_filter.2 ⟨h, List.all_eq_true.2 fun c hc => isWordChar_of_isName hx hc⟩

/-- A piece that is a name is a word of the text. -/
theorem mem_words_of_mem_pieces {t x : Text} (h : x ∈ pieces t) (hx : x.isName) : x ∈ t.words := by
  rcases isSigned_cases t with ⟨s, w, u, hsigned⟩ | hplain
  · rw [hsigned.pieces_eq] at h
    rcases List.mem_cons.1 h with rfl | h
    · -- no name begins with a sign
      have hs : isWordChar s := isWordChar_of_isName hx (List.mem_cons_self ..)
      rw [not_isWordChar_of_isSign hsigned.isSign] at hs
      cases hs
    · rw [hsigned.eq_cons, words_cons (not_isWordChar_of_isSign hsigned.isSign),
        words_append hsigned.isWord hsigned.ends]
      exact List.mem_cons_of_mem _ (mem_words_of_mem_segments h hx)
  · rw [pieces_of_not_isSigned hplain] at h
    exact mem_words_of_mem_segments h hx

end Token

end Calculator
