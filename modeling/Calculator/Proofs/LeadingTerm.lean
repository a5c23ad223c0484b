/-
  The leading term of an expression, and a sign in front of it that is part of no number.

  1. `upToSign` — a text up to the first sign outside of parentheses.  An expression is a term, or a
     term and then a run of signs and more (`Spelling.exists_leading_term`); no sign of the term
     stands outside of parentheses (`Spelling.upToSign_append`), so the text up to the first sign is
     the leading term.
  2. A sign that stands first as a token of its own waits at the bottom of the stack below all
     operators of the leading term.  Whatever comes next, the end or another sign, it is released
     directly behind the term (`toPostorder_detached`, `toPostorder_detached_append`).
  3. It then finds one value where it needs two, or no value because the term has an error, and what
     follows is not looked at (`value_detached`).
-/
import Calculator.Proofs.Spelling
import Calculator.Proofs.Evaluation

namespace Calculator

namespace Text

/-! ## Up to the first sign -/

/-- The number of open parentheses behind one more character. -/
def depthBehind (d : Nat) (c : Char) : Nat :=
  match Paren.ofChar? c with
  | some .opening => d + 1
  | some .closing => d - 1
  | none => d

/-- The text up to the first sign outside of parentheses, of which `d` are open already. -/
def upToSign : Nat → Text → Text
  | _, [] => []
  | d, c :: t => if d = 0 ∧ isSign c then [] else c :: upToSign (depthBehind d c) t

theorem upToSign_cons {d : Nat} {c : Char} (h : 0 < d ∨ isSign c = false) (t : Text) :
    upToSign d (c :: t) = c :: upToSign (depthBehind d c) t := by
  rw [upToSign, if_neg]
  rintro ⟨hd, hc⟩
  rcases h with h | h
  · omega
  · rw [h] at hc
    cases hc

theorem upToSign_of_head? {t : Text} (h : ∀ c ∈ t.head?, isSign c) : upToSign 0 t = [] := by
  cases t with
  | nil => rfl
  | cons c t => rw [upToSign, if_pos ⟨rfl, h c rfl⟩]

/-- Characters that are no parentheses, and no signs where signs matter, are passed by. -/
theorem upToSign_append {d : Nat} {s : Text} (hparen : ∀ c ∈ s, Paren.ofChar? c = none)
    (hsign : ∀ c ∈ s, 0 < d ∨ isSign c = false) (t : Text) :
    upToSign d (s ++ t) = s ++ upToSign d t := by
  induction s with
  | nil => rfl
  | cons c s ih =>
    have hdepth : depthBehind d c = d := by rw [depthBehind, hparen c (List.mem_cons_self ..)]
    rw [List.cons_append, upToSign_cons (hsign c (List.mem_cons_self ..)), hdepth,
      ih (fun e he => hparen e (List.mem_cons_of_mem _ he))
        fun e he => hsign e (List.mem_cons_of_mem _ he)]
    rfl

/-- `2*(a-b)` is what stands before the first sign of `2*(a-b)-+3-c` outside of parentheses. -/
example : upToSign 0 "2*(a-b)-+3-c".toList = "2*(a-b)".toList := by decide

end Text

namespace Expression

open Text Conversion

namespace Spelling

/-- Up to its first sign outside of parentheses an expression is a term; within parentheses signs do
    not count. -/
theorem upToSign_append {first : Bool} {phrase : Phrase} {t : Text} {x : Tree}
    (h : Spelling first phrase t x) (hfirst : first = false) {d : Nat}
    (hd : 0 < d ∨ phrase ≠ .expression) (u : Text) :
    upToSign d (t ++ u) = t ++ upToSign d u := by
  induction h generalizing d u with
  | term _ ih => exact ih hfirst (Or.inr (by decide)) u
  | power _ ih => exact ih hfirst (Or.inr (by decide)) u
  | atom _ ih => exact ih hfirst (Or.inr (by decide)) u
  | sum _ run _ ihl ihr =>
    -- signs between terms stand in parentheses here
    have hpos : 0 < d := hd.resolve_right fun hne => hne rfl
    rw [List.append_assoc, List.append_assoc, ihl hfirst (Or.inl hpos),
      Text.upToSign_append (fun c hc => ofChar?_of_isSign (run.2 c hc)) fun _ _ => Or.inl hpos,
      ihr rfl (Or.inl hpos), List.append_assoc, List.append_assoc]
  | @product first op l t x y hop _ _ ihl ihr =>
    have hsymbol : isSign op.symbol = false ∧ depthBehind d op.symbol = d := by
      rcases hop with rfl | rfl <;> exact ⟨rfl, rfl⟩
    rw [List.append_assoc, List.cons_append, ihl hfirst (Or.inr (by decide)),
      upToSign_cons (Or.inr hsymbol.1), hsymbol.2, ihr rfl (Or.inr (by decide)), List.append_assoc,
      List.cons_append]
  | pow _ _ ihl ihr =>
    have hdepth : depthBehind d '^' = d := rfl
    rw [List.append_assoc, List.cons_append, ihl hfirst (Or.inr (by decide)),
      upToSign_cons (Or.inr rfl), hdepth, ihr rfl (Or.inr (by decide)), List.append_assoc,
      List.cons_append]
  | word hw =>
    exact Text.upToSign_append (fun c hc => ofChar?_of_isWordChar (hw.2 c hc))
      (fun c hc => Or.inr (not_isSign_of_isWordChar (hw.2 c hc))) u
  | signed => cases hfirst
  | @group first t x _ ih =>
    have hopening : depthBehind d '(' = d + 1 := rfl
    have hclosing : depthBehind (d + 1) ')' = d := rfl
    rw [List.append_assoc, List.cons_append, upToSign_cons (Or.inr rfl), hopening,
      ih rfl (Or.inl (Nat.succ_pos d)), List.singleton_append,
      upToSign_cons (Or.inl (Nat.succ_pos d)), hclosing]
    simp

/-- An expression begins with a term, and what follows it, if anything does, begins with a sign. -/
theorem exists_leading_term {first : Bool} {phrase : Phrase} {t : Text} {x : Tree}
    (h : Spelling first phrase t x) (hphrase : phrase = .expression) :
    ∃ u v y, t = u ++ v ∧ Spelling first .term u y ∧ ∀ c ∈ v.head?, isSign c := by
  induction h with
  | term h => exact ⟨_, [], _, (List.append_nil _).symm, h, by simp⟩
  | @sum first l r t x y _ run _ ih _ =>
    obtain ⟨u, v, z, rfl, hu, hv⟩ := ih rfl
    refine ⟨u, v ++ (r ++ t), z, by simp, hu, ?_⟩
    cases v with
    | nil =>
      rw [List.nil_append, List.head?_append_of_ne_nil _ run.1]
      exact fun c hc => run.2 c (List.mem_of_mem_head? hc)
    | cons c v => exact hv
  | power | product | atom | pow | word | signed | group => cases hphrase

end Spelling

/-! ## The tokens of a detached sign and what follows -/

/-- A sign in front collapses to a sign, whatever follows it. -/
theorem exists_collapse_of_isSign {c : Char} (hc : isSign c) (t : Text) :
    ∃ (op : Operator) (u : Text), op.precedence = 0 ∧ collapse (c :: t) = op.symbol :: u := by
  have hop : ∀ d, isSign d → ∃ op : Operator, op.precedence = 0 ∧ d = op.symbol := fun d hd =>
    ⟨.ofRun [d], Operator.precedence_ofRun _, (Operator.symbol_ofRun_singleton hd).symm⟩
  rw [collapse_cons]
  cases collapse t with
  | nil =>
    obtain ⟨op, hprec, rfl⟩ := hop c hc
    exact ⟨op, [], hprec, rfl⟩
  | cons d u =>
    rw [attach]
    split
    · obtain ⟨op, hprec, hsymbol⟩ := hop _ (isSign_merge c d)
      exact ⟨op, u, hprec, by rw [hsymbol]⟩
    · obtain ⟨op, hprec, rfl⟩ := hop c hc
      exact ⟨op, d :: u, hprec, rfl⟩

/-- The tokens of a detached sign in front of a leading term: the sign, the tokens of the term, and
    then nothing or another sign. -/
theorem exists_ofText_detached {line r u v : Text} {y : Tree} (hline : line.strip = r ++ (u ++ v))
    (hr : IsRun r) (hu : Spelling false .term u y) (hdigit : ∀ c ∈ u.head?, c.isDigit = false)
    (hv : ∀ c ∈ v.head?, isSign c) :
    ∃ tokens, Infix 1 tokens y ∧
      (ofText line = .operator (.ofRun r) :: tokens ∨
        ∃ (op : Operator) (after : List Token), op.precedence = 0 ∧
          ofText line = .operator (.ofRun r) :: tokens ++ .operator op :: after) := by
  have hhead : (collapse u).head? = u.head? := head?_collapse_of_not_isSign (hu.not_isSign_head rfl)
  have hne : collapse u ≠ [] := collapse_ne_nil hu.ne_nil
  have hcollapse : collapse line.strip = (Operator.ofRun r).symbol :: (collapse u ++ collapse v) := by
    rw [hline, collapse_run_append hr, collapse_append (Or.inl hu.not_isSign_getLast)]
    rw [List.head?_append_of_ne_nil _ hu.ne_nil]
    exact hu.not_isSign_head rfl
  -- what follows the sign is no digit, so the sign is a piece of its own
  have hpieces : ofText line = .operator (.ofRun r) ::
      (cut false (collapse u ++ collapse v)).map Token.ofText := by
    rw [ofText, Token.ofExpression, Text.normalize, hcollapse,
      Token.pieces_sign_of_head? (Operator.isSign_symbol_ofRun r)]
    · rw [List.map_cons]
      congr 1
      cases Operator.ofRun r <;> rfl
    · rwa [List.head?_append_of_ne_nil _ hne, hhead]
  refine ⟨(cut false (collapse u)).map Token.ofText, hu.infix_cut, ?_⟩
  cases v with
  | nil =>
    rw [collapse_nil, List.append_nil] at hpieces
    exact Or.inl hpieces
  | cons c v =>
    obtain ⟨op, w, hprec, hw⟩ := exists_collapse_of_isSign (hv c rfl) v
    rw [hw, map_ofText_cut_operator op false hne] at hpieces
    exact Or.inr ⟨op, _, hprec, hpieces⟩

/-! ## Where a detached sign goes -/

/-- The operators of a term leave a sign below them alone: it is the last to be released. -/
theorem exists_foldlM_feed_detached {s : Operator} (hs : s.precedence = 0) {tokens : List Token}
    {y : Tree} (h : Infix 1 tokens y) :
    ∃ (ops : List Operator) (rest : List Token),
      (ops.map Token.operator).reverse ++ rest = .operator s :: y.postorder.reverse ∧
      (Token.operator s :: tokens).foldlM feed start = .ok ⟨rest, ops.map .operator⟩ := by
  have hbelow : Below 1 [.operator s] := fun op hop => by cases hop; omega
  obtain ⟨ops, rest, -, hpost, hrun⟩ := foldlM_feed_infix h [] [.operator s] hbelow
  refine ⟨ops ++ [s], rest, ?_, ?_⟩
  · rw [List.map_append, List.reverse_append, List.append_assoc, hpost, List.append_nil]
    rfl
  · rw [List.map_append]
    exact hrun

/-- At the end it is released behind the term. -/
theorem toPostorder_detached {s : Operator} (hs : s.precedence = 0) {tokens : List Token} {y : Tree}
    (h : Infix 1 tokens y) :
    toPostorder (.operator s :: tokens) = .ok (y.postorder ++ [.operator s]) := by
  obtain ⟨ops, rest, hpost, hrun⟩ := exists_foldlM_feed_detached hs h
  rw [toPostorder, hrun]
  show finish ⟨rest, ops.map .operator⟩ = _
  rw [finish_operators, hpost, List.reverse_cons, List.reverse_reverse]

/-- Another sign releases it there as well. -/
theorem toPostorder_detached_append {s op : Operator} (hs : s.precedence = 0)
    (hop : op.precedence = 0) {tokens : List Token} {y : Tree} (h : Infix 1 tokens y)
    (after : List Token) :
    toPostorder (.operator s :: tokens ++ .operator op :: after) =
      (after.foldlM feed ⟨[], [.operator op]⟩ >>= finish).map
        (y.postorder ++ [.operator s] ++ ·) := by
  obtain ⟨ops, rest, hpost, hrun⟩ := exists_foldlM_feed_detached hs h
  have hfeed : feed ⟨rest, ops.map .operator⟩ (.operator op) =
      .ok (onto ⟨[], [.operator op]⟩ (.operator s :: y.postorder.reverse)) := by
    have hall : ∀ o ∈ ops, op.precedence ≤ o.precedence := fun o _ => by omega
    have hnil : ∀ o, ([] : List Pending).head? = some (.operator o) → o.precedence < op.precedence :=
      fun o ho => by cases ho
    have := feed_operator hall hnil rest
    rwa [List.append_nil, hpost] at this
  rw [toPostorder, List.foldlM_append, hrun]
  show (Token.operator op :: after).foldlM feed ⟨rest, ops.map .operator⟩ >>= finish = _
  rw [List.foldlM_cons, hfeed]
  show after.foldlM feed (onto _ _) >>= finish = _
  rw [foldlM_feed_onto]
  cases after.foldlM feed ⟨[], [.operator op]⟩ with
  | error e => rfl
  | ok d =>
    show finish (d.onto _) = (finish d).map _
    rw [finish_onto, List.reverse_cons, List.reverse_reverse]

/-- Wherever the conversion of an expression with a detached sign succeeds, the postorder of the
    leading term and the sign come first. -/
theorem exists_postorder_detached {line r u v : Text} {y : Tree} (hline : line.strip = r ++ (u ++ v))
    (hr : IsRun r) (hu : Spelling false .term u y) (hdigit : ∀ c ∈ u.head?, c.isDigit = false)
    (hv : ∀ c ∈ v.head?, isSign c) (hbalanced : Balanced line.strip) :
    ∃ rest, postorder line = .ok (y.postorder ++ [.operator (.ofRun r)] ++ rest) := by
  have hs : (Operator.ofRun r).precedence = 0 := Operator.precedence_ofRun r
  obtain ⟨tokens, hinfix, htokens⟩ := exists_ofText_detached hline hr hu hdigit hv
  rcases htokens with htokens | ⟨op, after, hop, htokens⟩
  · refine ⟨[], ?_⟩
    rw [postorder, htokens, toPostorder_detached hs hinfix, List.append_nil]
  · obtain ⟨post, hpost⟩ := hbalanced.exists_postorder
    rw [postorder, htokens, toPostorder_detached_append hs hop hinfix] at hpost ⊢
    obtain ⟨rest, hrest, -⟩ := Result.map_eq_ok_iff.1 hpost
    exact ⟨rest, Result.map_eq_ok_iff.2 ⟨rest, hrest, rfl⟩⟩

/-! ## What a detached sign comes to -/

/-- The error of a sign behind the postorder of a tree: that of the tree, if it has one, else the
    sign finds too few values. -/
def detachedError (s : Operator) : Except Error Int → Error
  | .error e => e
  | .ok _ => .missingOperand s

/-- Nothing behind the sign is looked at. -/
theorem value_detached (store : Store) (y : Tree) (s : Operator) (rest : List Token) :
    value store (y.postorder ++ [.operator s] ++ rest) = .error (detachedError s (y.value store)) := by
  rw [value, values, List.foldlM_append, List.foldlM_append, Tree.foldlM_push_postorder]
  cases y.value store <;> rfl

end Expression

end Calculator
