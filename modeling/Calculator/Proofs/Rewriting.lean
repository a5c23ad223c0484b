/-
  Normalizing as the rewriting of pairs of signs.

  1. `contractions` — the pairs of neighbouring signs, each with the sign that may replace it.
     `Rewrites s t` — somewhere in `s` one such pair is replaced, and that makes `t`.  `Reaches` is any
     number of these steps, and `IsSettled` says that no step is left.
  2. Every step makes a text shorter by one character (`Rewrites.length_eq`), so no sequence of steps
     goes on for ever.
  3. No step changes what a text collapses to (`Rewrites.collapse_eq`), because signs merge
     associatively.  A text reaches what it collapses to (`reaches_collapse`), and where no step is
     left it has collapsed (`IsSettled.collapse_eq`).  So the order of the steps does not matter.
  4. One particular order: `sweep` replaces all pairs of one kind after the other, and `settle` sweeps
     until nothing changes.
  5. Steps may be made in the parts of a text before they are made in the whole (`Reaches.append`), so it
     does no harm to collapse the parts first (`collapse_collapse_append`), wherever a run of signs is
     cut.  On a settled text no two signs meet (`isSettled_iff_isChain`).
-/
import Calculator.Proofs.Sign
import Mathlib.Data.List.Chain
import Mathlib.Logic.Relation

namespace Calculator.Text

/-! ## Steps -/

/-- Two neighbouring signs, and the sign that may replace them. -/
structure Contraction where
  left : Char
  right : Char
  sign : Char
  deriving DecidableEq

/-- Signs that are alike make a plus, signs that differ a minus. -/
def contractions : List Contraction :=
  [⟨'-', '-', '+'⟩, ⟨'+', '+', '+'⟩, ⟨'+', '-', '-'⟩, ⟨'-', '+', '-'⟩]

/-- One step: a pair of signs is replaced, wherever it stands. -/
inductive Rewrites : Text → Text → Prop
  | step {k : Contraction} (hk : k ∈ contractions) (before behind : Text) :
      Rewrites (before ++ k.left :: k.right :: behind) (before ++ k.sign :: behind)

/-- Any number of steps. -/
abbrev Reaches : Text → Text → Prop := Relation.ReflTransGen Rewrites

/-- No step is left. -/
def IsSettled (t : Text) : Prop := ∀ s, ¬ Rewrites t s

theorem mem_contractions_iff {k : Contraction} :
    k ∈ contractions ↔ isSign k.left ∧ isSign k.right ∧ merge k.left k.right = k.sign := by
  constructor
  · intro h
    simp only [contractions, List.mem_cons, List.not_mem_nil, or_false] at h
    rcases h with rfl | rfl | rfl | rfl <;> exact ⟨rfl, rfl, rfl⟩
  · obtain ⟨a, b, c⟩ := k
    rintro ⟨ha, hb, hc⟩
    obtain rfl : merge a b = c := hc
    rcases isSign_iff.1 ha with rfl | rfl <;> rcases isSign_iff.1 hb with rfl | rfl <;> decide

/-- A step takes one character away. -/
theorem Rewrites.length_eq {s t : Text} (h : Rewrites s t) : s.length = t.length + 1 := by
  cases h with
  | step _ before behind => simp only [List.length_append, List.length_cons]; omega

/-- A step in a part of a text is a step in the text. -/
theorem Rewrites.around {s t : Text} (h : Rewrites s t) (before behind : Text) :
    Rewrites (before ++ s ++ behind) (before ++ t ++ behind) := by
  cases h with
  | @step k hk u v =>
    have hstep := Rewrites.step hk (before ++ u) (v ++ behind)
    simpa only [List.append_assoc, List.cons_append] using hstep

/-- There is no infinite sequence of steps. -/
theorem wellFounded_rewrites : WellFounded fun s t : Text => Rewrites t s := by
  have hlt : Subrelation (fun s t : Text => Rewrites t s) (InvImage (· < ·) List.length) := by
    intro s t h
    have := h.length_eq
    show s.length < t.length
    omega
  exact hlt.wf (measure List.length).wf

namespace Reaches

variable {s t : Text}

theorem around (h : Reaches s t) (before behind : Text) :
    Reaches (before ++ s ++ behind) (before ++ t ++ behind) :=
  Relation.ReflTransGen.lift (before ++ · ++ behind)
    (fun _ _ hstep => Rewrites.around hstep before behind) s t h

theorem cons (h : Reaches s t) (c : Char) : Reaches (c :: s) (c :: t) := by
  have haround := h.around [c] []
  rwa [List.append_nil, List.append_nil] at haround

/-- Both parts of a text may be rewritten. -/
theorem append {s' t' : Text} (h : Reaches s t) (h' : Reaches s' t') :
    Reaches (s ++ s') (t ++ t') := by
  have hleft : Reaches (s ++ s') (t ++ s') := h.around [] s'
  have hright : Reaches (t ++ s') (t ++ t') := by
    have haround := h'.around t []
    rwa [List.append_nil, List.append_nil] at haround
  exact hleft.trans hright

/-- What a text reaches is the text itself or shorter. -/
theorem eq_or_length_lt (h : Reaches s t) : t = s ∨ t.length < s.length := by
  induction h with
  | refl => exact Or.inl rfl
  | tail _ hstep ih =>
    have hlength := hstep.length_eq
    rcases ih with rfl | hlt
    · exact Or.inr (by omega)
    · exact Or.inr (by omega)

/-- There is no way back. -/
theorem antisymm (h : Reaches s t) (h' : Reaches t s) : s = t := by
  rcases h.eq_or_length_lt with rfl | hlt
  · rfl
  · rcases h'.eq_or_length_lt with rfl | hlt'
    · rfl
    · omega

/-- Where no step is left, nothing else is reached. -/
theorem eq_of_isSettled (h : Reaches s t) (hs : IsSettled s) : t = s := by
  rcases Relation.ReflTransGen.cases_head h with heq | ⟨r, hstep, -⟩
  · exact heq.symm
  · exact absurd hstep (hs r)

end Reaches

/-! ## Steps and collapsing -/

theorem merge_assoc {a b c : Char} (ha : isSign a) (hb : isSign b) (hc : isSign c) :
    merge a (merge b c) = merge (merge a b) c := by
  rcases isSign_iff.1 ha with rfl | rfl <;> rcases isSign_iff.1 hb with rfl | rfl <;>
    rcases isSign_iff.1 hc with rfl | rfl <;> rfl

/-- Two signs attach like the one that they merge to. -/
theorem attach_attach {a b : Char} (ha : isSign a) (hb : isSign b) (t : Text) :
    attach a (attach b t) = attach (merge a b) t := by
  have hab := isSign_merge a b
  cases t with
  | nil => simp [attach, ha, hb]
  | cons c t =>
    cases hc : isSign c with
    | true => simp [attach, ha, hb, hc, hab, isSign_merge, merge_assoc ha hb hc]
    | false => simp [attach, ha, hb, hc]

/-- **A step keeps the collapsed text.** -/
theorem Rewrites.collapse_eq {s t : Text} (h : Rewrites s t) : collapse s = collapse t := by
  cases h with
  | @step k hk before behind =>
    obtain ⟨hleft, hright, hsign⟩ := mem_contractions_iff.1 hk
    rw [collapse, collapse, List.foldr_append, List.foldr_append, ← hsign]
    congr 1
    exact attach_attach hleft hright (collapse behind)

theorem Reaches.collapse_eq {s t : Text} (h : Reaches s t) : collapse s = collapse t := by
  induction h with
  | refl => rfl
  | tail _ hstep ih => exact ih.trans hstep.collapse_eq

theorem reaches_attach (c : Char) (t : Text) : Reaches (c :: t) (attach c t) := by
  cases t with
  | nil => exact .refl
  | cons d t =>
    rw [attach]
    split
    · rename_i hsigns
      rw [Bool.and_eq_true] at hsigns
      have hk : ⟨c, d, merge c d⟩ ∈ contractions := mem_contractions_iff.2 ⟨hsigns.1, hsigns.2, rfl⟩
      exact .head (.step hk [] t) .refl
    · exact .refl

theorem reaches_collapse (t : Text) : Reaches t (collapse t) := by
  induction t with
  | nil => exact .refl
  | cons c t ih => exact (ih.cons c).trans (reaches_attach c (collapse t))

/-- A text on which no step is left has collapsed. -/
theorem IsSettled.collapse_eq {t : Text} (h : IsSettled t) : collapse t = t :=
  (reaches_collapse t).eq_of_isSettled h

theorem isSettled_collapse (t : Text) : IsSettled (collapse t) := by
  intro s h
  -- the step would lead to a shorter text with the same collapsed text
  have hcollapse : collapse s = collapse t := by
    rw [← h.collapse_eq, ← (reaches_collapse t).collapse_eq]
  have hlength := h.length_eq
  rcases (reaches_collapse s).eq_or_length_lt with heq | hlt
  · rw [← hcollapse, heq] at hlength
    omega
  · rw [hcollapse] at hlt
    omega

/-- **Confluence.**  Whatever the order of the steps, they end in the collapsed text. -/
theorem reaches_and_isSettled_iff {s t : Text} :
    Reaches s t ∧ IsSettled t ↔ t = collapse s := by
  constructor
  · rintro ⟨hreach, hsettled⟩
    rw [hreach.collapse_eq, hsettled.collapse_eq]
  · rintro rfl
    exact ⟨reaches_collapse s, isSettled_collapse s⟩

/-! ## One order of the steps -/

/-- Replaces every such pair, from left to right.  What is put in is not looked at again. -/
def replacePair (k : Contraction) : Text → Text
  | c :: d :: t =>
    if c = k.left ∧ d = k.right then k.sign :: replacePair k t else c :: replacePair k (d :: t)
  | t => t

/-- Replaces the pairs of one kind after those of another. -/
def replacePairs (ks : List Contraction) (t : Text) : Text :=
  ks.foldl (fun t k => replacePair k t) t

/-- Replaces the pairs of every kind once. -/
def sweep (t : Text) : Text := replacePairs contractions t

/-- A sweep may leave new pairs behind. -/
example : sweep "1---2-+-3".toList = "1-2--3".toList := by decide

theorem reaches_replacePair {k : Contraction} (hk : k ∈ contractions) (t : Text) :
    Reaches t (replacePair k t) := by
  fun_induction replacePair k t with
  | case1 c d t hpair ih =>
    obtain ⟨rfl, rfl⟩ := hpair
    exact .head (.step hk [] t) (ih.cons k.sign)
  | case2 c d t _ ih => exact ih.cons c
  | case3 t => exact .refl

theorem length_replacePair_le (k : Contraction) (t : Text) :
    (replacePair k t).length ≤ t.length := by
  fun_induction replacePair k t with
  | case1 c d t _ ih => simp only [List.length_cons]; omega
  | case2 c d t _ ih => exact Nat.succ_le_succ ih
  | case3 t => exact Nat.le_refl _

/-- If a pair is there, one is replaced. -/
theorem length_replacePair_lt (k : Contraction) (before behind : Text) :
    (replacePair k (before ++ k.left :: k.right :: behind)).length <
      (before ++ k.left :: k.right :: behind).length := by
  induction before with
  | nil =>
    have := length_replacePair_le k behind
    rw [List.nil_append, replacePair, if_pos ⟨rfl, rfl⟩]
    simp only [List.length_cons]
    omega
  | cons c before ih =>
    obtain ⟨d, t, hdt⟩ : ∃ d t, before ++ k.left :: k.right :: behind = d :: t := by
      cases before with
      | nil => exact ⟨_, _, rfl⟩
      | cons d before => exact ⟨_, _, rfl⟩
    rw [hdt] at ih
    rw [List.cons_append, hdt, replacePair]
    split
    · -- another pair begins with the character in front, and is replaced
      have := length_replacePair_le k t
      simp only [List.length_cons]
      omega
    · exact Nat.succ_lt_succ ih

theorem reaches_replacePairs {ks : List Contraction} (h : ks ⊆ contractions) (t : Text) :
    Reaches t (replacePairs ks t) := by
  induction ks generalizing t with
  | nil => exact .refl
  | cons k ks ih =>
    obtain ⟨hk, hks⟩ := List.cons_subset.1 h
    exact (reaches_replacePair hk t).trans (ih hks (replacePair k t))

/-- What changes nothing in all changes nothing on its way, because there is no way back. -/
theorem replacePair_of_replacePairs_eq {ks : List Contraction} (h : ks ⊆ contractions) {t : Text}
    (ht : replacePairs ks t = t) : ∀ k ∈ ks, replacePair k t = t := by
  induction ks with
  | nil => simp
  | cons k ks ih =>
    obtain ⟨hk, hks⟩ := List.cons_subset.1 h
    have hrest : replacePairs ks (replacePair k t) = t := ht
    have hself : replacePair k t = t := by
      have hback := reaches_replacePairs hks (replacePair k t)
      rw [hrest] at hback
      exact hback.antisymm (reaches_replacePair hk t)
    rw [hself] at hrest
    intro l hl
    rcases List.mem_cons.1 hl with rfl | hl
    · exact hself
    · exact ih hks hrest l hl

theorem reaches_sweep (t : Text) : Reaches t (sweep t) :=
  reaches_replacePairs (List.Subset.refl _) t

theorem isSettled_of_sweep_eq {t : Text} (h : sweep t = t) : IsSettled t := by
  intro s hstep
  cases hstep with
  | @step k hk before behind =>
    have hlt := length_replacePair_lt k before behind
    rw [replacePair_of_replacePairs_eq (List.Subset.refl _) h k hk] at hlt
    omega

/-- Sweeps until nothing changes any more. -/
def settle (t : Text) : Text := if sweep t = t then t else settle (sweep t)
termination_by t.length
decreasing_by exact (reaches_sweep t).eq_or_length_lt.resolve_left ‹_›

theorem reaches_settle (t : Text) : Reaches t (settle t) := by
  fun_induction settle t with
  | case1 t => exact .refl
  | case2 t _ ih => exact (reaches_sweep t).trans ih

theorem isSettled_settle (t : Text) : IsSettled (settle t) := by
  fun_induction settle t with
  | case1 t h => exact isSettled_of_sweep_eq h
  | case2 t _ ih => exact ih

theorem settle_eq_collapse (t : Text) : settle t = collapse t :=
  reaches_and_isSettled_iff.1 ⟨reaches_settle t, isSettled_settle t⟩

/-- **Normalizing is rewriting, in any order.**  Every sequence of steps ends.  From the text without
    its blanks the normalized text is reached and no step is left on it, and that holds of no other
    text.  In particular the sweeps end in it. -/
theorem rewriting_ends_in_normalize :
    (WellFounded fun s t : Text => Rewrites t s) ∧
    (∀ line t : Text, Reaches line.strip t ∧ IsSettled t ↔ t = line.normalize) ∧
    ∀ line : Text, settle line.strip = line.normalize :=
  ⟨wellFounded_rewrites, fun _ _ => reaches_and_isSettled_iff, fun _ => settle_eq_collapse _⟩

/-! ## Texts in parts -/

/-- The parts of a text may be collapsed before the text is. -/
theorem collapse_collapse_append (s t : Text) :
    collapse (collapse s ++ collapse t) = collapse (s ++ t) := by
  have hparts : Reaches (s ++ t) (collapse s ++ collapse t) :=
    (reaches_collapse s).append (reaches_collapse t)
  exact hparts.collapse_eq.symm

/-- A step is left just where two signs meet. -/
theorem isSettled_iff_isChain {t : Text} :
    IsSettled t ↔ t.IsChain fun c d => ¬(isSign c ∧ isSign d) := by
  rw [List.isChain_iff_forall_rel_of_append_cons_cons]
  constructor
  · rintro h c d before behind rfl ⟨hc, hd⟩
    have hk : ⟨c, d, merge c d⟩ ∈ contractions := mem_contractions_iff.2 ⟨hc, hd, rfl⟩
    exact h _ (.step hk before behind)
  · intro h s hstep
    cases hstep with
    | @step k hk before behind =>
      obtain ⟨hleft, hright, -⟩ := mem_contractions_iff.1 hk
      exact h rfl ⟨hleft, hright⟩

theorem isBlank_of_isSign {c : Char} (h : isSign c) : isBlank c = false := by
  rcases isSign_iff.1 h with rfl | rfl <;> decide

theorem isBlank_of_mem_normalize {c : Char} {t : Text} (h : c ∈ t.normalize) : isBlank c = false := by
  by_cases hs : isSign c
  · exact isBlank_of_isSign hs
  · -- what is no sign was there before
    have hmem : c ∈ t.normalize.filter fun c => !isSign c := List.mem_filter.2 ⟨h, by simpa using hs⟩
    rw [Text.normalize, filter_collapse] at hmem
    exact isBlank_of_mem_strip (List.mem_filter.1 hmem).1

theorem strip_normalize (t : Text) : t.normalize.strip = t.normalize :=
  strip_eq_self fun _ => isBlank_of_mem_normalize

/-- **Normalizing in parts.**  A text is normalized by normalizing two parts of it and then what they are
    together, wherever it is parted; so normalizing twice is normalizing once.  No blank is left then and
    no two signs meet, and all else that the text was made of is there in its order. -/
theorem normalize_append (s t : Text) :
    (s ++ t).normalize = (s.normalize ++ t.normalize).normalize ∧
    s.normalize.normalize = s.normalize ∧
    (∀ c ∈ s.normalize, isBlank c = false) ∧
    (s.normalize.IsChain fun c d => ¬(isSign c ∧ isSign d)) ∧
    s.normalize.filter (fun c => !isSign c) = s.filter fun c => !isSign c && !isBlank c := by
  have hparts : ∀ s t : Text, (s ++ t).normalize = (s.normalize ++ t.normalize).normalize := by
    intro s t
    show collapse (strip (s ++ t)) = collapse (strip (s.normalize ++ t.normalize))
    rw [strip_append, strip_append, strip_normalize, strip_normalize]
    exact (collapse_collapse_append s.strip t.strip).symm
  refine ⟨hparts s t, ?_, fun _ => isBlank_of_mem_normalize, ?_, ?_⟩
  · have hempty := hparts s []
    have hnil : Text.normalize [] = [] := rfl
    rw [hnil, List.append_nil, List.append_nil] at hempty
    exact hempty.symm
  · exact isSettled_iff_isChain.1 (isSettled_collapse s.strip)
  · rw [Text.normalize, filter_collapse, Text.strip, List.filter_filter]

end Calculator.Text
