/-
  Parentheses: the conversion fails exactly where they do not match.

  1. `parens` — the parentheses of a text, and those of tokens.  Normalizing and cutting a text changes
     neither them nor their order (`parens_ofText`).
  2. `Overclosed d ps` — read behind `d` open ones, some closing parenthesis has no partner.
  3. The depth of a stack is the number of parentheses that are open on it.  A run fails when its
     parentheses are overclosed at the depth it starts from, and ends at the depth that they lead to
     otherwise (`foldlM_feed_parens`).
  4. So parentheses alone decide between the two errors of a conversion and its success
     (`toPostorder_of_overclosed`, `toPostorder_of_not_overclosed`).  Counted among the tokens, they
     do so in `toPostorder_decides`.
-/
import Calculator.Expression
import Calculator.Proofs.Pieces
import Calculator.Proofs.Conversion

namespace Calculator

/-! ## The parentheses of texts and tokens -/

theorem Paren.ofChar?_eq_some_iff {c : Char} {p : Paren} : ofChar? c = some p ↔ c = p.symbol := by
  constructor
  · exact fun h => (symbol_of_ofChar? h).symm
  · rintro rfl
    exact ofChar?_symbol p

/-- The parentheses of a text, in order. -/
def Text.parens (t : Text) : List Paren := t.filterMap Paren.ofChar?

/-- The parenthesis that a token is. -/
def Token.paren? : Token → Option Paren
  | .paren p => some p
  | _ => none

theorem Token.eq_paren_of_paren? {tok : Token} {p : Paren} (h : tok.paren? = some p) :
    tok = .paren p := by
  cases tok with
  | paren q => cases h; rfl
  | operand x => cases h
  | operator op => cases h

/-- The parentheses among tokens, in order. -/
def Token.parens (tokens : List Token) : List Paren := tokens.filterMap paren?

theorem Text.parens_symbol_cons (p : Paren) (t : Text) : parens (p.symbol :: t) = p :: parens t :=
  List.filterMap_cons_some (Paren.ofChar?_symbol p)

theorem Text.parens_cons_of_none {c : Char} (h : Paren.ofChar? c = none) (t : Text) :
    parens (c :: t) = parens t := List.filterMap_cons_none h

theorem Token.parens_paren_cons (p : Paren) (tokens : List Token) :
    parens (.paren p :: tokens) = p :: parens tokens := rfl

theorem Token.parens_cons_of_none {tok : Token} (h : tok.paren? = none) (tokens : List Token) :
    parens (tok :: tokens) = parens tokens := List.filterMap_cons_none h

namespace Text

open Paren

theorem ofChar?_of_isSign {c : Char} (h : isSign c) : ofChar? c = none := by
  rcases isSign_iff.1 h with rfl | rfl <;> rfl

theorem ofChar?_of_isWordChar {c : Char} (h : isWordChar c) : ofChar? c = none := by
  cases hc : ofChar? c with
  | none => rfl
  | some p =>
    rw [ofChar?_eq_some_iff.1 hc] at h
    cases p <;> exact absurd h (by decide)

theorem parens_collapse (t : Text) : parens (collapse t) = parens t := by
  have hskip : ∀ u : Text, parens (u.filter fun c => !isSign c) = parens u := by
    intro u
    rw [parens, parens, List.filterMap_filter]
    congr 1
    funext c
    by_cases h : isSign c
    · simp [h, ofChar?_of_isSign h]
    · simp [h]
  rw [← hskip (collapse t), filter_collapse, hskip]

/-- Each parenthesis occurs in a text as often as its symbol. -/
theorem count_parens (p : Paren) (t : Text) : t.parens.count p = t.count p.symbol := by
  rw [parens, List.count_filterMap, List.count]
  congr 1
  funext c
  rw [Bool.eq_iff_iff, beq_iff_eq, beq_iff_eq, ofChar?_eq_some_iff]

end Text

namespace Token

open Text

theorem paren?_ofText_singleton (c : Char) : paren? (ofText [c]) = Paren.ofChar? c := by
  cases hop : Operator.ofChar? c with
  | some op =>
    rw [← Operator.symbol_of_ofChar? hop]
    cases op <;> rfl
  | none =>
    cases hp : Paren.ofChar? c with
    | some p =>
      rw [Paren.ofChar?_eq_some_iff.1 hp]
      cases p <;> rfl
    | none => simp [ofText, symbol?, hop, hp, paren?]

/-- A text without parentheses is no parenthesis. -/
theorem paren?_ofText_of_none {t : Text} (h : ∀ c ∈ t, Paren.ofChar? c = none) :
    paren? (ofText t) = none := by
  match t with
  | [] => rfl
  | [c] => rw [paren?_ofText_singleton, h c (List.mem_cons_self ..)]
  | _ :: _ :: _ => rfl

/-- A piece is the one parenthesis it holds, or it holds none. -/
theorem toList_paren?_ofText {t p : Text} (h : p ∈ pieces t) :
    (paren? (ofText p)).toList = p.parens := by
  rcases mem_pieces h with ⟨c, rfl⟩ | hp
  · rw [paren?_ofText_singleton, Text.parens, List.filterMap_cons]
    cases Paren.ofChar? c <;> rfl
  · have hnone : ∀ c ∈ p, Paren.ofChar? c = none := by
      intro c hc
      rcases hp c hc with hw | hs
      · exact ofChar?_of_isWordChar hw
      · exact ofChar?_of_isSign hs
    rw [paren?_ofText_of_none hnone, Text.parens, List.filterMap_eq_nil_iff.2 hnone]
    rfl

/-- Each parenthesis is counted among the parentheses as often as it occurs. -/
theorem count_parens (p : Paren) (tokens : List Token) :
    (parens tokens).count p = tokens.count (.paren p) := by
  rw [parens, List.count_filterMap, List.count]
  congr 1
  funext tok
  rw [Bool.eq_iff_iff, beq_iff_eq, beq_iff_eq]
  constructor
  · exact eq_paren_of_paren?
  · rintro rfl
    rfl

theorem parens_map_ofText {ps : List Text}
    (h : ∀ p ∈ ps, (paren? (ofText p)).toList = p.parens) :
    parens (ps.map ofText) = Text.parens ps.flatten := by
  induction ps with
  | nil => rfl
  | cons p ps ih =>
    have hp := h p (List.mem_cons_self ..)
    have ih' := ih fun q hq => h q (List.mem_cons_of_mem p hq)
    rw [parens, Text.parens] at ih'
    rw [Text.parens] at hp
    rw [parens, Text.parens, List.map_cons, List.filterMap_cons, List.flatten_cons,
      List.filterMap_append, ← ih', ← hp]
    cases paren? (ofText p) <;> rfl

theorem parens_ofExpression (t : Text) : parens (ofExpression t) = t.parens := by
  rw [ofExpression, parens_map_ofText fun p hp => toList_paren?_ofText hp, flatten_pieces]

end Token

namespace Expression

theorem parens_ofText (t : Text) : Token.parens (ofText t) = t.strip.parens := by
  rw [ofText, Token.parens_ofExpression, Text.normalize, Text.parens_collapse]

/-! ## Closing more than is open -/

/-- Behind `d` open parentheses, some beginning of these closes more than there are to close. -/
def Overclosed (d : Nat) (ps : List Paren) : Prop :=
  ∃ q, q <+: ps ∧ d + q.count .opening < q.count .closing

theorem not_overclosed_nil (d : Nat) : ¬ Overclosed d [] := by
  rintro ⟨q, hq, hlt⟩
  rw [List.prefix_nil.1 hq] at hlt
  simp at hlt

theorem overclosed_cons {d : Nat} {p : Paren} {ps : List Paren} :
    Overclosed d (p :: ps) ↔
      ∃ q, q <+: ps ∧ d + (p :: q).count .opening < (p :: q).count .closing := by
  constructor
  · rintro ⟨q, hq, hlt⟩
    rcases List.prefix_cons_iff.1 hq with rfl | ⟨r, rfl, hr⟩
    · simp at hlt
    · exact ⟨r, hr, hlt⟩
  · rintro ⟨q, hq, hlt⟩
    exact ⟨p :: q, List.cons_prefix_cons.2 ⟨rfl, hq⟩, hlt⟩

theorem count_opening_cons (ps : List Paren) :
    (Paren.opening :: ps).count .opening = ps.count .opening + 1 ∧
      (Paren.opening :: ps).count .closing = ps.count .closing := by
  constructor
  · exact List.count_cons_self
  · exact List.count_cons_of_ne (by decide)

theorem count_closing_cons (ps : List Paren) :
    (Paren.closing :: ps).count .opening = ps.count .opening ∧
      (Paren.closing :: ps).count .closing = ps.count .closing + 1 := by
  constructor
  · exact List.count_cons_of_ne (by decide)
  · exact List.count_cons_self

/-- Behind an opening parenthesis one more may be closed. -/
theorem overclosed_opening {d : Nat} {ps : List Paren} :
    Overclosed d (.opening :: ps) ↔ Overclosed (d + 1) ps := by
  rw [overclosed_cons]
  constructor
  · rintro ⟨q, hq, hlt⟩
    refine ⟨q, hq, ?_⟩
    have hcount := count_opening_cons q
    omega
  · rintro ⟨q, hq, hlt⟩
    refine ⟨q, hq, ?_⟩
    have hcount := count_opening_cons q
    omega

/-- A closing parenthesis is one too many, or one less may be closed behind it. -/
theorem overclosed_closing {d : Nat} {ps : List Paren} :
    Overclosed d (.closing :: ps) ↔ d = 0 ∨ Overclosed (d - 1) ps := by
  rw [overclosed_cons]
  constructor
  · rintro ⟨q, hq, hlt⟩
    rcases Nat.eq_zero_or_pos d with hd | hd
    · exact Or.inl hd
    · refine Or.inr ⟨q, hq, ?_⟩
      have hcount := count_closing_cons q
      omega
  · rintro (rfl | ⟨q, hq, hlt⟩)
    · -- the parenthesis alone is a beginning that closes too many
      exact ⟨[], List.nil_prefix, by decide⟩
    · refine ⟨q, hq, ?_⟩
      have hcount := count_closing_cons q
      omega

/-- The parentheses in a list are overclosed when some beginning of the list closes too many. -/
theorem overclosed_filterMap_iff {α : Type} (f : α → Option Paren) (d : Nat) (l : List α) :
    Overclosed d (l.filterMap f) ↔
      ∃ p, p <+: l ∧ d + (p.filterMap f).count .opening < (p.filterMap f).count .closing := by
  constructor
  · rintro ⟨q, hq, hlt⟩
    obtain ⟨p, hp, rfl⟩ := List.prefix_filterMap_iff.1 hq
    exact ⟨p, hp, hlt⟩
  · rintro ⟨p, hp, hlt⟩
    exact ⟨p.filterMap f, hp.filterMap f, hlt⟩

/-- A text is overclosed when some beginning of it has more closing than opening parentheses. -/
theorem overclosed_parens_iff (t : Text) :
    Overclosed 0 t.parens ↔ ∃ p, p <+: t ∧ p.count '(' < p.count ')' := by
  rw [Text.parens, overclosed_filterMap_iff]
  refine exists_congr fun p => and_congr_right fun _ => ?_
  have hopening : (p.filterMap Paren.ofChar?).count .opening = p.count '(' :=
    Text.count_parens .opening p
  have hclosing : (p.filterMap Paren.ofChar?).count .closing = p.count ')' :=
    Text.count_parens .closing p
  omega

/-- Tokens are overclosed when some beginning of them has more closing than opening parentheses. -/
theorem overclosed_parens_tokens_iff (tokens : List Token) :
    Overclosed 0 (Token.parens tokens) ↔
      ∃ p, p <+: tokens ∧ p.count (.paren .opening) < p.count (.paren .closing) := by
  rw [Token.parens, overclosed_filterMap_iff]
  refine exists_congr fun p => and_congr_right fun _ => ?_
  have hopening := Token.count_parens .opening p
  have hclosing := Token.count_parens .closing p
  rw [Token.parens] at hopening hclosing
  omega

/-! ## Depth -/

namespace Conversion

/-- The number of parentheses that are open on a stack. -/
def depth (stack : List Pending) : Nat := stack.count .opening

theorem depth_append (ops : List Operator) (stack : List Pending) :
    depth (ops.map .operator ++ stack) = depth stack := by
  rw [depth, List.count_append, List.count_eq_zero.2, Nat.zero_add]
  · rfl
  · simp

theorem depth_operators (ops : List Operator) : depth (ops.map .operator) = 0 := by
  rw [← List.append_nil (ops.map _), depth_append]
  rfl

theorem depth_opening (stack : List Pending) : depth (.opening :: stack) = depth stack + 1 :=
  List.count_cons_self

theorem depth_operator (op : Operator) (stack : List Pending) :
    depth (.operator op :: stack) = depth stack :=
  depth_append [op] stack

/-- Tokens that are no parentheses leave the depth as it is. -/
theorem exists_feed_of_paren?_eq_none {tok : Token} (h : tok.paren? = none) (c : Conversion) :
    ∃ d, feed c tok = .ok d ∧ depth d.stack = depth c.stack := by
  cases tok with
  | operand x => exact ⟨_, rfl, rfl⟩
  | operator op =>
    obtain ⟨ops, rest, hstack, -, -, hrel⟩ := exists_release (yieldsTo op) c.stack
    refine ⟨⟨_, .operator op :: rest⟩, by rw [feed, hrel], ?_⟩
    rw [hstack, depth_append, depth_operator]
  | paren p => cases h

/-- A closing parenthesis needs an open one, and closes it. -/
theorem feed_closing_of_depth (c : Conversion) :
    (depth c.stack = 0 ∧ feed c (.paren .closing) = .error .unmatchedClosing) ∨
      ∃ d, feed c (.paren .closing) = .ok d ∧ depth c.stack = depth d.stack + 1 := by
  obtain ⟨output, stack⟩ := c
  obtain ⟨ops, rest, rfl, hrest, -⟩ := exists_release_all stack
  rcases hrest with rfl | ⟨below, rfl⟩
  · rw [List.append_nil]
    exact Or.inl ⟨depth_operators ops, feed_closing_of_operators ops output⟩
  · refine Or.inr ⟨_, feed_closing ops output below, ?_⟩
    show depth (ops.map .operator ++ .opening :: below) = _
    rw [depth_append, depth_opening]

theorem finish_of_depth (c : Conversion) :
    (depth c.stack = 0 ∧ ∃ post, finish c = .ok post) ∨
      (0 < depth c.stack ∧ finish c = .error .unmatchedOpening) := by
  obtain ⟨output, stack⟩ := c
  obtain ⟨ops, rest, rfl, hrest, -⟩ := exists_release_all stack
  rcases hrest with rfl | ⟨below, rfl⟩
  · rw [List.append_nil]
    exact Or.inl ⟨depth_operators ops, _, finish_operators ops output⟩
  · refine Or.inr ⟨?_, finish_opening ops output below⟩
    show 0 < depth (ops.map .operator ++ .opening :: below)
    rw [depth_append, depth_opening]
    exact Nat.succ_pos _

/-! ## Runs -/

/-- What a run comes to is decided by the parentheses among its tokens and the depth it starts from:
    they are overclosed and it fails, or it ends at the depth that they lead to. -/
theorem foldlM_feed_parens (tokens : List Token) (c : Conversion) :
    (Overclosed (depth c.stack) (Token.parens tokens) ∧
      tokens.foldlM feed c = .error .unmatchedClosing) ∨
    (¬ Overclosed (depth c.stack) (Token.parens tokens) ∧
      ∃ d, tokens.foldlM feed c = .ok d ∧
        depth d.stack + (Token.parens tokens).count .closing =
          depth c.stack + (Token.parens tokens).count .opening) := by
  induction tokens generalizing c with
  | nil => exact Or.inr ⟨not_overclosed_nil _, c, rfl, rfl⟩
  | cons tok tokens ih =>
    rw [List.foldlM_cons]
    cases hp : tok.paren? with
    | none =>
      obtain ⟨d, hd, hdepth⟩ := exists_feed_of_paren?_eq_none hp c
      rw [Token.parens_cons_of_none hp, hd, ← hdepth]
      exact ih d
    | some p =>
      rw [Token.eq_paren_of_paren? hp, Token.parens_paren_cons]
      cases p with
      | opening =>
        have hcons := count_opening_cons (Token.parens tokens)
        rw [feed_opening, overclosed_opening, ← depth_opening]
        rcases ih ⟨c.output, .opening :: c.stack⟩ with hfail | ⟨hnot, d, hd, hcount⟩
        · exact Or.inl hfail
        · refine Or.inr ⟨hnot, d, hd, ?_⟩
          rw [depth_opening] at hcount
          omega
      | closing =>
        have hcons := count_closing_cons (Token.parens tokens)
        rw [overclosed_closing]
        rcases feed_closing_of_depth c with ⟨hzero, herror⟩ | ⟨e, he, hdepth⟩
        · -- no parenthesis is open
          rw [herror]
          exact Or.inl ⟨Or.inl hzero, rfl⟩
        · rw [he, hdepth, Nat.add_sub_cancel]
          rcases ih e with ⟨hover, herror⟩ | ⟨hnot, d, hd, hcount⟩
          · exact Or.inl ⟨Or.inr hover, herror⟩
          · refine Or.inr ⟨fun h => hnot (h.resolve_left (Nat.succ_ne_zero _)), d, hd, ?_⟩
            omega

end Conversion

open Conversion

/-! ## The whole conversion -/

theorem toPostorder_of_overclosed {tokens : List Token} (h : Overclosed 0 (Token.parens tokens)) :
    toPostorder tokens = .error .unmatchedClosing := by
  rcases foldlM_feed_parens tokens start with ⟨-, herror⟩ | ⟨hnot, -⟩
  · rw [toPostorder, herror]
    rfl
  · exact absurd h hnot

/-- Without a closing parenthesis too many, the conversion fails if some are left open, and succeeds
    if none is. -/
theorem toPostorder_of_not_overclosed {tokens : List Token}
    (h : ¬ Overclosed 0 (Token.parens tokens)) :
    ((Token.parens tokens).count .closing < (Token.parens tokens).count .opening ∧
      toPostorder tokens = .error .unmatchedOpening) ∨
    ((Token.parens tokens).count .closing = (Token.parens tokens).count .opening ∧
      ∃ post, toPostorder tokens = .ok post) := by
  rcases foldlM_feed_parens tokens start with ⟨hover, -⟩ | ⟨-, d, hd, hcount⟩
  · exact absurd hover h
  · have hstart : depth start.stack = 0 := rfl
    rw [toPostorder, hd]
    rcases finish_of_depth d with ⟨hzero, hok⟩ | ⟨hpos, herror⟩
    · exact Or.inr ⟨by omega, hok⟩
    · exact Or.inl ⟨by omega, herror⟩

/-- Every outcome of a conversion, with what it tells about the parentheses. -/
theorem toPostorder_cases (tokens : List Token) :
    (Overclosed 0 (Token.parens tokens) ∧ toPostorder tokens = .error .unmatchedClosing) ∨
    (¬ Overclosed 0 (Token.parens tokens) ∧
      tokens.count (.paren .closing) < tokens.count (.paren .opening) ∧
      toPostorder tokens = .error .unmatchedOpening) ∨
    (¬ Overclosed 0 (Token.parens tokens) ∧
      ¬ tokens.count (.paren .closing) < tokens.count (.paren .opening) ∧
      ∃ post, toPostorder tokens = .ok post) := by
  by_cases h : Overclosed 0 (Token.parens tokens)
  · exact Or.inl ⟨h, toPostorder_of_overclosed h⟩
  · have hopening := Token.count_parens .opening tokens
    have hclosing := Token.count_parens .closing tokens
    rcases toPostorder_of_not_overclosed h with ⟨hlt, herror⟩ | ⟨heq, hok⟩
    · exact Or.inr (Or.inl ⟨h, by omega, herror⟩)
    · exact Or.inr (Or.inr ⟨h, by omega, hok⟩)

/-- **Conversion and balance.**  Whatever their order otherwise, tokens are refused for a closing
    parenthesis just when some beginning of them closes more than it opens.  If none does, they are
    refused for an opening one just when all of them open more than they close, and else they are
    converted. -/
theorem toPostorder_decides (tokens : List Token) :
    (toPostorder tokens = .error .unmatchedClosing ↔
      ∃ p, p <+: tokens ∧ p.count (.paren .opening) < p.count (.paren .closing)) ∧
    (toPostorder tokens = .error .unmatchedOpening ↔
      (¬ ∃ p, p <+: tokens ∧ p.count (.paren .opening) < p.count (.paren .closing)) ∧
        tokens.count (.paren .closing) < tokens.count (.paren .opening)) ∧
    ((∃ post, toPostorder tokens = .ok post) ↔
      (¬ ∃ p, p <+: tokens ∧ p.count (.paren .opening) < p.count (.paren .closing)) ∧
        ¬ tokens.count (.paren .closing) < tokens.count (.paren .opening)) ∧
    (Error.unmatchedClosing.kind = .invalidExpression ∧
      Error.unmatchedClosing.detail = some "unmatched closing parenthesis".toList) ∧
    Error.unmatchedOpening.kind = .invalidExpression ∧
      Error.unmatchedOpening.detail = some "unmatched opening parenthesis".toList := by
  rw [← overclosed_parens_tokens_iff]
  rcases toPostorder_cases tokens with ⟨hover, h⟩ | ⟨hover, hlt, h⟩ | ⟨hover, hlt, post, h⟩
  · rw [h]
    exact ⟨iff_of_true rfl hover, iff_of_false nofun fun hnot => hnot.1 hover,
      iff_of_false nofun fun hnot => hnot.1 hover, ⟨rfl, rfl⟩, rfl, rfl⟩
  · rw [h]
    exact ⟨iff_of_false nofun hover, iff_of_true rfl ⟨hover, hlt⟩,
      iff_of_false nofun fun hnot => hnot.2 hlt, ⟨rfl, rfl⟩, rfl, rfl⟩
  · rw [h]
    exact ⟨iff_of_false nofun hover, iff_of_false nofun fun hopen => hlt hopen.2,
      iff_of_true ⟨post, rfl⟩ ⟨hover, hlt⟩, ⟨rfl, rfl⟩, rfl, rfl⟩

/-- The parentheses of a text match: none closes too many, and none is left open. -/
structure Balanced (t : Text) : Prop where
  not_overclosed : ¬ Overclosed 0 t.parens
  count_eq : t.parens.count .closing = t.parens.count .opening

/-- A text that is not overclosed leaves a parenthesis open, or it is balanced. -/
theorem balanced_iff {t : Text} (h : ¬ Overclosed 0 t.parens) :
    Balanced t ↔ ¬ t.count ')' < t.count '(' := by
  have hopening : t.parens.count .opening = t.count '(' := Text.count_parens .opening t
  have hclosing : t.parens.count .closing = t.count ')' := Text.count_parens .closing t
  constructor
  · intro ⟨_, heq⟩
    omega
  · intro hge
    -- the whole text is a beginning of itself
    have hle : ¬ t.count '(' < t.count ')' := fun hlt =>
      h ((overclosed_parens_iff t).2 ⟨t, List.prefix_refl t, hlt⟩)
    exact ⟨h, by omega⟩

/-- The conversion of a balanced text succeeds. -/
theorem Balanced.exists_postorder {t : Text} (h : Balanced t.strip) : ∃ post, postorder t = .ok post := by
  obtain ⟨hover, hcount⟩ := h
  rw [← parens_ofText] at hover hcount
  rcases toPostorder_of_not_overclosed hover with ⟨hlt, -⟩ | ⟨-, hok⟩
  · omega
  · exact hok

end Expression

end Calculator
