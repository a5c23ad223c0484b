/-
  Tokens in any order: what of their evaluation is decided by counting operands and operators.

  1. `Lacking before` — the tokens before an operator hold fewer than two more operands than operators.
     `Complete tokens` — this is so before none of the operators.  `FirstLacking tokens op` — it is so
     before `op`, and before no operator in front of it.
  2. Every token that is taken changes the number of values on the stack by what it adds to the count
     (`length_of_push`), so behind any tokens there are as many values as there are more operands than
     operators (`length_of_values`).  No step leaves the stack empty (`ne_nil_of_push`).
  3. `Unfailing store tokens` — nothing can go wrong with the tokens but the way they are arranged:
     there are no parentheses, the variables have values, and so have the operators that are reached.
     Complete tokens are then evaluated to their end (`exists_values`), and all others up to the first
     operator that lacks an operand (`values_of_firstLacking`).
  4. `value_cases` — the outcomes, each with the count that decides on it.  The errors among them are told
     apart by what they say (`Misarranged.eq_of_detail_eq`), so `value_decided_by_counts` can tell from the
     counts which words come out, whether there is a value, and what is noted down.
-/
import Calculator.Expression
import Calculator.Proofs.Conservation
import Calculator.Proofs.Evaluation
import Mathlib.Data.List.Induction

namespace Calculator.Expression

open Token

/-! ## Counting -/

/-- There are fewer than two more operands than operators. -/
def Lacking (before : List Token) : Prop :=
  (operands before).length < (operators before).length + 2

/-- No operator lacks an operand. -/
def Complete (tokens : List Token) : Prop :=
  ∀ s op, s ++ [.operator op] <+: tokens → ¬ Lacking s

/-- The operator is the first one that lacks an operand. -/
def FirstLacking (tokens : List Token) (op : Operator) : Prop :=
  ∃ s, s ++ [.operator op] <+: tokens ∧ Lacking s ∧ Complete s

theorem Complete.of_prefix {s tokens : List Token} (h : Complete tokens) (hs : s <+: tokens) :
    Complete s := by
  intro r op hr
  exact h r op (hr.trans hs)

theorem FirstLacking.of_prefix {s tokens : List Token} {op : Operator} (h : FirstLacking s op)
    (hs : s <+: tokens) : FirstLacking tokens op := by
  obtain ⟨r, hr, hlacking, hcomplete⟩ := h
  exact ⟨r, hr.trans hs, hlacking, hcomplete⟩

theorem FirstLacking.not_complete {tokens : List Token} {op : Operator} (h : FirstLacking tokens op) :
    ¬ Complete tokens := by
  obtain ⟨s, hs, hlacking, -⟩ := h
  intro hcomplete
  exact hcomplete s op hs hlacking

theorem complete_nil : Complete [] := by
  intro s op hs
  exact absurd (List.prefix_nil.1 hs) (by simp)

/-- One more token is complete behind complete ones, unless it is an operator that lacks an operand. -/
theorem complete_append_singleton {s : List Token} {tok : Token} (h : Complete s)
    (htok : ∀ op, tok = .operator op → ¬ Lacking s) : Complete (s ++ [tok]) := by
  intro r op hr
  rcases List.prefix_concat_iff.1 hr with heq | hr
  · obtain ⟨rfl, hop⟩ := List.append_inj' heq rfl
    exact htok op (List.cons.inj hop).1.symm
  · exact h r op hr

/-- Tokens are complete, or one of their operators is the first to lack an operand. -/
theorem complete_or_exists_firstLacking (tokens : List Token) :
    Complete tokens ∨ ∃ op, FirstLacking tokens op := by
  induction tokens using List.reverseRecOn with
  | nil => exact Or.inl complete_nil
  | append_singleton s tok ih =>
    rcases ih with hcomplete | ⟨op, hop⟩
    · by_cases h : ∃ op, tok = .operator op ∧ Lacking s
      · obtain ⟨op, rfl, hlacking⟩ := h
        exact Or.inr ⟨op, s, List.prefix_refl _, hlacking, hcomplete⟩
      · refine Or.inl (complete_append_singleton hcomplete ?_)
        intro op htok hlacking
        exact h ⟨op, htok, hlacking⟩
    · exact Or.inr ⟨op, hop.of_prefix (List.prefix_append _ _)⟩

/-! ## The height of the stack -/

/-- An operand makes the stack higher by one value, an operator makes it lower by one. -/
theorem length_of_push {store : Store} {ns ns' : List Int} {tok : Token}
    (h : push store ns tok = .ok ns') :
    (operands [tok]).length + ns.length = (operators [tok]).length + ns'.length := by
  rcases push_cases h with ⟨x, n, rfl, -, rfl⟩ | ⟨op, lhs, rhs, rest, n, rfl, rfl, -, rfl⟩
  · show 1 + ns.length = 0 + (ns.length + 1)
    omega
  · show 0 + (rest.length + 2) = 1 + (rest.length + 1)
    omega

theorem ne_nil_of_push {store : Store} {ns ns' : List Int} {tok : Token}
    (h : push store ns tok = .ok ns') : ns' ≠ [] := by
  rcases push_cases h with ⟨x, n, -, -, rfl⟩ | ⟨op, lhs, rhs, rest, n, -, -, -, rfl⟩
  · exact List.cons_ne_nil _ _
  · exact List.cons_ne_nil _ _

theorem values_append_singleton (store : Store) (s : List Token) (tok : Token) :
    values store (s ++ [tok]) = values store s >>= fun ns => push store ns tok := by
  rw [values, List.foldlM_append]
  show (values store s >>= fun ns => [tok].foldlM (push store) ns) = _
  simp only [List.foldlM_cons, List.foldlM_nil, bind_pure]

/-- There are as many values as there are more operands than operators. -/
theorem length_of_values {store : Store} {tokens : List Token} {ns : List Int}
    (h : values store tokens = .ok ns) :
    (operands tokens).length = (operators tokens).length + ns.length := by
  induction tokens using List.reverseRecOn generalizing ns with
  | nil => cases h; rfl
  | append_singleton s tok ih =>
    rw [values_append_singleton] at h
    obtain ⟨before, hbefore, hpush⟩ := Result.bind_eq_ok_iff.1 h
    have hs := ih hbefore
    have htok := length_of_push hpush
    rw [operands_append, operators_append, List.length_append, List.length_append]
    omega

/-- Only no tokens leave no value. -/
theorem values_eq_ok_nil_iff {store : Store} {tokens : List Token} :
    values store tokens = .ok [] ↔ tokens = [] := by
  constructor
  · intro h
    rcases List.eq_nil_or_concat tokens with hnil | ⟨s, tok, rfl⟩
    · exact hnil
    · rw [List.concat_eq_append, values_append_singleton] at h
      obtain ⟨before, -, hpush⟩ := Result.bind_eq_ok_iff.1 h
      exact absurd rfl (ne_nil_of_push hpush)
  · rintro rfl
    rfl

/-- Behind some tokens an operator lacks an operand just when there are fewer than two values. -/
theorem lacking_iff {store : Store} {s : List Token} {ns : List Int} (h : values store s = .ok ns) :
    Lacking s ↔ ns.length < 2 := by
  have hlength := length_of_values h
  rw [Lacking]
  omega

/-! ## Tokens that only their arrangement can make fail -/

/-- Nothing can go wrong with these tokens but the way they are arranged: there are no parentheses,
    all variables have values, and every operator that finds two operands has a value at them. -/
structure Unfailing (store : Store) (tokens : List Token) : Prop where
  noParen : ∀ p, .paren p ∉ tokens
  bound : ∀ name, .operand (.identifier name) ∈ tokens →
    name.isName ∧ (store.get? name).isSome
  applies : ∀ s op lhs rhs below, s ++ [.operator op] <+: tokens →
    values store s = .ok (rhs :: lhs :: below) → ∃ n, op.apply lhs rhs = .ok n

theorem Unfailing.of_prefix {store : Store} {s tokens : List Token} (h : Unfailing store tokens)
    (hs : s <+: tokens) : Unfailing store s where
  noParen p hp := h.noParen p (hs.subset hp)
  bound name hname := h.bound name (hs.subset hname)
  applies r op lhs rhs below hr := h.applies r op lhs rhs below (hr.trans hs)

theorem Unfailing.exists_operand_value {store : Store} {tokens : List Token}
    (h : Unfailing store tokens) {x : Operand} (hx : .operand x ∈ tokens) :
    ∃ n, x.value store = .ok n := by
  cases x with
  | number n => exact ⟨n, rfl⟩
  | identifier name =>
    obtain ⟨hname, hsome⟩ := h.bound name hx
    obtain ⟨n, hn⟩ := Option.isSome_iff_exists.1 hsome
    refine ⟨n, ?_⟩
    rw [Operand.value, if_pos hname, Store.lookup_eq_ok_iff]
    exact hn

/-- A token is taken unless it is an operator that lacks an operand. -/
theorem Unfailing.exists_push {store : Store} {s : List Token} {tok : Token} {ns : List Int}
    (h : Unfailing store (s ++ [tok])) (hs : values store s = .ok ns)
    (htok : ∀ op, tok = .operator op → ¬ Lacking s) : ∃ ns', push store ns tok = .ok ns' := by
  have hmem : tok ∈ s ++ [tok] := by simp
  cases tok with
  | operand x =>
    obtain ⟨n, hn⟩ := h.exists_operand_value hmem
    exact ⟨n :: ns, Result.bind_eq_ok_iff.2 ⟨n, hn, rfl⟩⟩
  | operator op =>
    have htwo : 2 ≤ ns.length := by
      have := htok op rfl
      rw [lacking_iff hs] at this
      omega
    obtain ⟨rhs, lhs, rest, rfl⟩ : ∃ rhs lhs rest, ns = rhs :: lhs :: rest := by
      rcases ns with _ | ⟨rhs, _ | ⟨lhs, rest⟩⟩
      · simp at htwo
      · simp at htwo
      · exact ⟨rhs, lhs, rest, rfl⟩
    obtain ⟨n, hn⟩ := h.applies s op lhs rhs rest (List.prefix_refl _) hs
    exact ⟨n :: rest, Result.bind_eq_ok_iff.2 ⟨n, hn, rfl⟩⟩
  | paren p => exact absurd hmem (h.noParen p)

/-- Complete tokens are evaluated to their end. -/
theorem exists_values {store : Store} {tokens : List Token} (h : Unfailing store tokens)
    (hcomplete : Complete tokens) : ∃ ns, values store tokens = .ok ns := by
  induction tokens using List.reverseRecOn with
  | nil => exact ⟨[], rfl⟩
  | append_singleton s tok ih =>
    have hprefix : s <+: s ++ [tok] := List.prefix_append _ _
    obtain ⟨ns, hns⟩ := ih (h.of_prefix hprefix) (hcomplete.of_prefix hprefix)
    have htok : ∀ op, tok = .operator op → ¬ Lacking s := by
      rintro op rfl
      exact hcomplete s op (List.prefix_refl _)
    obtain ⟨ns', hpush⟩ := h.exists_push hns htok
    refine ⟨ns', ?_⟩
    rw [values_append_singleton, hns]
    exact hpush

/-- An operator cannot be taken where there are fewer than two values. -/
theorem push_of_length_lt {ns : List Int} (h : ns.length < 2) (store : Store) (op : Operator) :
    push store ns (.operator op) = .error (.missingOperand op) := by
  rcases ns with _ | ⟨n, _ | ⟨m, ns⟩⟩
  · rfl
  · rfl
  · rw [List.length_cons, List.length_cons] at h
    omega

/-- All others are evaluated up to the first operator that lacks an operand. -/
theorem values_of_firstLacking {store : Store} {tokens : List Token} (h : Unfailing store tokens)
    {op : Operator} (hop : FirstLacking tokens op) :
    values store tokens = .error (.missingOperand op) := by
  obtain ⟨s, ⟨after, rfl⟩, hlacking, hcomplete⟩ := hop
  have hprefix : s <+: s ++ [.operator op] ++ after :=
    (List.prefix_append _ _).trans (List.prefix_append _ _)
  obtain ⟨ns, hns⟩ := exists_values (h.of_prefix hprefix) hcomplete
  have hstop : values store (s ++ [.operator op]) = .error (.missingOperand op) := by
    rw [values_append_singleton, hns]
    exact push_of_length_lt ((lacking_iff hns).1 hlacking) store op
  rw [values] at hstop ⊢
  rw [List.foldlM_append, hstop]
  rfl

/-! ## The outcome -/

theorem value_of_firstLacking {store : Store} {tokens : List Token} (h : Unfailing store tokens)
    {op : Operator} (hop : FirstLacking tokens op) :
    value store tokens = .error (.missingOperand op) := by
  rw [value, values_of_firstLacking h hop]
  rfl

/-- The four outcomes, each with the count that decides on it. -/
theorem value_cases {store : Store} {tokens : List Token} (h : Unfailing store tokens) :
    (∃ op, FirstLacking tokens op ∧ value store tokens = .error (.missingOperand op)) ∨
    (tokens = [] ∧ value store tokens = .error .noValue) ∨
    (Complete tokens ∧ tokens ≠ [] ∧ Lacking tokens ∧ ∃ n, value store tokens = .ok n) ∨
    (Complete tokens ∧ ¬ Lacking tokens ∧ value store tokens = .error .missingOperator) := by
  rcases complete_or_exists_firstLacking tokens with hcomplete | ⟨op, hop⟩
  · obtain ⟨ns, hns⟩ := exists_values h hcomplete
    rw [lacking_iff hns, value, hns]
    rcases ns with _ | ⟨top, below⟩
    · exact Or.inr (Or.inl ⟨values_eq_ok_nil_iff.1 hns, rfl⟩)
    · have hne : tokens ≠ [] := by
        rintro rfl
        cases hns
      rcases below with _ | ⟨n, below⟩
      · exact Or.inr (Or.inr (Or.inl ⟨hcomplete, hne, Nat.one_lt_two, top, rfl⟩))
      · have hheight : ¬ (top :: n :: below).length < 2 := by
          rw [List.length_cons, List.length_cons]
          omega
        exact Or.inr (Or.inr (Or.inr ⟨hcomplete, hheight, rfl⟩))
  · exact Or.inl ⟨op, hop, value_of_firstLacking h hop⟩

/-- The same from the side of each outcome. -/
theorem value_iff_counts {store : Store} {tokens : List Token} (h : Unfailing store tokens) :
    (∀ op, value store tokens = .error (.missingOperand op) ↔ FirstLacking tokens op) ∧
    (value store tokens = .error .noValue ↔ tokens = []) ∧
    (value store tokens = .error .missingOperator ↔ Complete tokens ∧ ¬ Lacking tokens) ∧
    ((∃ n, value store tokens = .ok n) ↔ Complete tokens ∧ tokens ≠ [] ∧ Lacking tokens) := by
  have hfirst : ∀ op, FirstLacking tokens op → value store tokens = .error (.missingOperand op) :=
    fun op hop => value_of_firstLacking h hop
  have hnothing : Lacking [] := Nat.zero_lt_two
  rcases value_cases h with ⟨op, hop, hvalue⟩ | ⟨rfl, hvalue⟩ |
    ⟨hcomplete, hne, hlacking, n, hvalue⟩ | ⟨hcomplete, hlacking, hvalue⟩
  · have hnot : ¬ Complete tokens := hop.not_complete
    have hne : tokens ≠ [] := by
      rintro rfl
      exact hnot complete_nil
    rw [hvalue] at hfirst ⊢
    refine ⟨?_, iff_of_false nofun hne, iff_of_false nofun fun hc => hnot hc.1,
      iff_of_false nofun fun hc => hnot hc.1⟩
    intro op'
    constructor
    · intro heq
      cases heq
      exact hop
    · exact hfirst op'
  · rw [hvalue] at hfirst ⊢
    exact ⟨fun op' => iff_of_false nofun fun hop => (nomatch hfirst op' hop), iff_of_true rfl rfl,
      iff_of_false nofun fun hc => hc.2 hnothing, iff_of_false nofun fun hc => hc.2.1 rfl⟩
  · rw [hvalue] at hfirst ⊢
    exact ⟨fun op' => iff_of_false nofun fun hop => (nomatch hfirst op' hop), iff_of_false nofun hne,
      iff_of_false nofun fun hc => hc.2 hlacking, iff_of_true ⟨n, rfl⟩ ⟨hcomplete, hne, hlacking⟩⟩
  · have hne : tokens ≠ [] := by
      rintro rfl
      exact hlacking hnothing
    rw [hvalue] at hfirst ⊢
    exact ⟨fun op' => iff_of_false nofun fun hop => (nomatch hfirst op' hop), iff_of_false nofun hne,
      iff_of_true rfl ⟨hcomplete, hlacking⟩, iff_of_false nofun fun hc => hlacking hc.2.2⟩

/-- Values are noted down only where an operator is missing at the end, and there all but the top. -/
theorem surplusNotes_cases {store : Store} {tokens : List Token} (h : Unfailing store tokens) :
    (value store tokens = .error .missingOperator ∧
      ∃ top below, values store tokens = .ok (top :: below) ∧
        surplusNotes store tokens = [.surplus below.reverse]) ∨
    (value store tokens ≠ .error .missingOperator ∧ surplusNotes store tokens = []) := by
  rcases complete_or_exists_firstLacking tokens with hcomplete | ⟨op, hop⟩
  · obtain ⟨ns, hns⟩ := exists_values h hcomplete
    rcases ns with _ | ⟨top, _ | ⟨n, below⟩⟩
    · refine Or.inr ⟨?_, ?_⟩
      · intro hmissing
        rw [value, hns] at hmissing
        cases hmissing
      · rw [surplusNotes, surplus, hns]
    · refine Or.inr ⟨?_, ?_⟩
      · intro hmissing
        rw [value_eq_ok_iff.2 hns] at hmissing
        cases hmissing
      · rw [surplusNotes, surplus, hns]
        rfl
    · have hsurplus : surplus store tokens = (n :: below).reverse := by rw [surplus, hns]
      obtain ⟨first, later, hreverse⟩ : ∃ first later, (n :: below).reverse = first :: later :=
        List.exists_cons_of_ne_nil (by simp)
      refine Or.inl ⟨?_, top, n :: below, hns, ?_⟩
      · rw [value, hns]
        rfl
      · rw [surplusNotes, hsurplus, hreverse]
  · refine Or.inr ⟨?_, ?_⟩
    · intro hmissing
      rw [value_of_firstLacking h hop] at hmissing
      cases hmissing
    · rw [surplusNotes, surplus, values_of_firstLacking h hop]

/-! ## What is said about it -/

/-- The errors that come from the arrangement of tokens. -/
inductive Misarranged : Error → Prop
  | missingOperand (op : Operator) : Misarranged (.missingOperand op)
  | noValue : Misarranged .noValue
  | missingOperator : Misarranged .missingOperator

theorem Misarranged.kind_eq {e : Error} (h : Misarranged e) : e.kind = .invalidExpression := by
  cases h <;> rfl

/-- They are told apart by what they say. -/
theorem Misarranged.eq_of_detail_eq {e e' : Error} (h : Misarranged e) (h' : Misarranged e')
    (hdetail : e.detail = e'.detail) : e = e' := by
  have hapart : ∀ op, (Error.missingOperand op).detail ≠ Error.noValue.detail ∧
      (Error.missingOperand op).detail ≠ Error.missingOperator.detail := by
    intro op
    cases op <;> decide
  have hapart' : Error.noValue.detail ≠ Error.missingOperator.detail := by decide
  cases h with
  | missingOperand op =>
    cases h' with
    | missingOperand op' =>
      have hsymbol : op.symbol = op'.symbol := by simpa [Error.detail] using hdetail
      rw [Operator.eq_of_symbol_eq hsymbol]
    | noValue => exact absurd hdetail (hapart op).1
    | missingOperator => exact absurd hdetail (hapart op).2
  | noValue =>
    cases h' with
    | missingOperand => exact absurd hdetail.symm (hapart _).1
    | noValue => rfl
    | missingOperator => exact absurd hdetail hapart'
  | missingOperator =>
    cases h' with
    | missingOperand => exact absurd hdetail.symm (hapart _).2
    | noValue => exact absurd hdetail.symm hapart'
    | missingOperator => rfl

theorem misarranged_of_value_eq_error {store : Store} {tokens : List Token} {e : Error}
    (h : Unfailing store tokens) (he : value store tokens = .error e) : Misarranged e := by
  rcases value_cases h with ⟨op, -, hvalue⟩ | ⟨-, hvalue⟩ | ⟨-, -, -, n, hvalue⟩ | ⟨-, -, hvalue⟩
  · cases hvalue.symm.trans he
    exact .missingOperand op
  · cases hvalue.symm.trans he
    exact .noValue
  · cases hvalue.symm.trans he
  · cases hvalue.symm.trans he
    exact .missingOperator

/-- The tokens are refused as no expression, with these words. -/
def RefusedWith (store : Store) (tokens : List Token) (words : Text) : Prop :=
  ∃ e, value store tokens = .error e ∧ e.kind = .invalidExpression ∧ e.detail = some words

/-- The words tell which error it is. -/
theorem refusedWith_iff {store : Store} {tokens : List Token} {e : Error} {words : Text}
    (h : Unfailing store tokens) (he : Misarranged e) (hwords : e.detail = some words) :
    RefusedWith store tokens words ↔ value store tokens = .error e := by
  constructor
  · rintro ⟨e', he', -, hwords'⟩
    have hsame : e' = e :=
      (misarranged_of_value_eq_error h he').eq_of_detail_eq he (hwords'.trans hwords.symm)
    rwa [hsame] at he'
  · intro hvalue
    exact ⟨e, hvalue, he.kind_eq, hwords⟩

/-- **Counting decides.**  Where only the arrangement of the tokens can be at fault, an operator is
    reported just when it is the first with fewer than two more operands than operators before it;
    nothing is found to evaluate just when there are no tokens; and when there are two more operands
    than operators at least, an operator is missing.  Then, and only then, there is a note, and it is a
    warning: it lists all values but the one on top, the lowest first.  In all other cases there is a
    value. -/
theorem value_decided_by_counts {store : Store} {tokens : List Token} (h : Unfailing store tokens) :
    (∀ op : Operator, RefusedWith store tokens ("missing operand for ".toList ++ [op.symbol]) ↔
      FirstLacking tokens op) ∧
    (RefusedWith store tokens "expression has no value".toList ↔ tokens = []) ∧
    (RefusedWith store tokens "missing operator between operands".toList ↔
      Complete tokens ∧ (operators tokens).length + 2 ≤ (operands tokens).length) ∧
    ((∃ n, value store tokens = .ok n) ↔
      Complete tokens ∧ tokens ≠ [] ∧
        (operands tokens).length < (operators tokens).length + 2) ∧
    (RefusedWith store tokens "missing operator between operands".toList →
      ∃ top below, values store tokens = .ok (top :: below) ∧
        surplusNotes store tokens = [.surplus below.reverse] ∧
        (Event.surplus below.reverse).level = .warn) ∧
    (¬ RefusedWith store tokens "missing operator between operands".toList →
      surplusNotes store tokens = []) := by
  obtain ⟨hoperand, hnothing, hoperator, hvalue⟩ := value_iff_counts h
  have hcount : (operators tokens).length + 2 ≤ (operands tokens).length ↔ ¬ Lacking tokens :=
    Nat.not_lt.symm
  rw [refusedWith_iff h .noValue rfl, refusedWith_iff h .missingOperator rfl, hcount]
  refine ⟨?_, hnothing, hoperator, hvalue, ?_, ?_⟩
  · intro op
    rw [refusedWith_iff h (.missingOperand op) rfl]
    exact hoperand op
  · intro hmissing
    rcases surplusNotes_cases h with ⟨-, top, below, hvalues, hnotes⟩ | ⟨hnot, -⟩
    · exact ⟨top, below, hvalues, hnotes, rfl⟩
    · exact absurd hmissing hnot
  · intro hnot
    rcases surplusNotes_cases h with ⟨hmissing, -⟩ | ⟨-, hnotes⟩
    · exact absurd hmissing hnot
    · exact hnotes

/-- In `8 x / 5 6`, where `x` is three, two operators are missing at the end; the values below the one
    on top are two and five. -/
theorem value_decided_by_counts_surplus :
    let store := (∅ : Store).define ['x'] 3
    let tokens := [.operand (.number 8), .operand (.identifier ['x']), .operator .div,
      .operand (.number 5), .operand (.number 6)]
    Unfailing store tokens ∧ RefusedWith store tokens "missing operator between operands".toList ∧
      surplusNotes store tokens = [.surplus [2, 5]] := by
  intro store tokens
  -- the quotient is the only operator
  have hplace : ∀ s op, s ++ [.operator op] <+: tokens → s = tokens.take 2 ∧ op = .div := by
    rintro s op ⟨after, hafter⟩
    rcases s with _ | ⟨a, _ | ⟨b, _ | ⟨c, _ | ⟨d, _ | ⟨e, s⟩⟩⟩⟩⟩ <;> simp_all [tokens]
  have hunfailing : Unfailing store tokens := by
    refine ⟨?_, ?_, ?_⟩
    · intro p hp
      simp [tokens] at hp
    · intro name hname
      obtain rfl : name = ['x'] := by simpa [tokens] using hname
      exact ⟨rfl, rfl⟩
    · intro s op lhs rhs below hs hvalues
      obtain ⟨rfl, rfl⟩ := hplace s op hs
      cases hvalues
      exact ⟨2, rfl⟩
  have hcomplete : Complete tokens := by
    intro s op hs
    obtain ⟨rfl, -⟩ := hplace s op hs
    exact Nat.lt_irrefl 2
  obtain ⟨-, -, hmissing, -, hnotes, -⟩ := value_decided_by_counts hunfailing
  have hrefused := hmissing.2 ⟨hcomplete, by decide⟩
  obtain ⟨top, below, hvalues, hsurplus, -⟩ := hnotes hrefused
  cases hvalues
  exact ⟨hunfailing, hrefused, hsurplus⟩

end Calculator.Expression
