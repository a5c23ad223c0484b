/-
  Asking for a variable, and getting what was assigned to it.

  1. A line of one word, with a sign in front of its digits or without one, is an expression, and its
     value is what the word stands for (`Session.result_step_of_wordValue`).
  2. So the name of a variable gets its value (`result_step_of_bound`), and a name that is not bound
     gets an error (`result_step_of_unbound`).
  3. Whatever a declaration can assign is a line of one word as well, and worth the same there
     (`result_step_of_assigned`).  There are two readers of integers, one for the right sides of
     declarations and one for the words of expressions, and on literals they agree.
  4. `Session.step_declared` — a variable that was declared reads back as the right side of its
     declaration would have been read before.
-/
import Calculator.Proofs.Frame
import Calculator.Proofs.ExpressionLine

namespace Calculator

namespace Expression

open Text Decimal

/-! ## Texts of one word -/

/-- The texts that are one operand by themselves. -/
def IsOperand (t : Text) : Prop := Spelling true .expression t (.leaf (Token.operandOfText t))

theorem isOperand_of_isWord {w : Text} (h : IsWord w) : IsOperand w :=
  .term (.power (.atom (.word h)))

/-- Minus in front of digits is part of the number. -/
theorem isOperand_of_literal {t : Text} {n : Int} (h : Literal t n) : IsOperand t := by
  cases h with
  | natural hdigits =>
    exact isOperand_of_isWord ⟨hdigits.1, fun c hc => isWordChar_of_isDigit (hdigits.2 c hc)⟩
  | @negative digits hdigits =>
    obtain ⟨d, rest, rfl⟩ := List.exists_cons_of_ne_nil hdigits.1
    have hminus : IsRun ['-'] := isRun_singleton rfl
    have hd : d.isDigit := hdigits.2 d (List.mem_cons_self ..)
    have hrest : ∀ c ∈ rest, isWordChar c := fun c hc =>
      isWordChar_of_isDigit (hdigits.2 c (List.mem_cons_of_mem d hc))
    exact .term (.power (.atom (.signed hminus hd hrest)))

/-- What a declaration can assign is one operand, and stands for the same value. -/
theorem operand_of_assigned {store : Store} {t : Text} {n : Int}
    (h : Session.Assigned store t (.ok n)) : IsOperand t ∧ WordValue store t (.ok n) := by
  cases h with
  | literal hliteral =>
    refine ⟨isOperand_of_literal hliteral, ?_⟩
    cases hliteral with
    | natural hdigits => exact .digits hdigits
    | negative hdigits => exact .minus hdigits
  | bound hname hn => exact ⟨isOperand_of_isWord (isWord_of_isName hname), .bound hname hn⟩

end Expression

namespace Session

open Expression Decimal

/-! ## Lines of one word -/

theorem isExpression_of_isOperand {t : Text} (h : IsOperand t.strip) : Line.IsExpression t :=
  Line.isExpression_of_isWellShaped h.isWellShaped

/-- A line of one word gets what the word stands for. -/
theorem result_step_of_wordValue {store : Store} {t : Text} {r : Except Error Int}
    (h : IsOperand t.strip) (hr : WordValue store t.strip r) :
    (step store t).result = r.map .value := by
  rw [result_step_of_isExpression (isExpression_of_isOperand h), h.result_eq]
  show (Operand.value store (Token.operandOfText t.strip)).map _ = _
  rw [wordValue_iff.1 hr]

theorem result_step_of_bound {store : Store} {x : Text} {n : Int} (hx : x.strip.isName)
    (hn : store.get? x.strip = some n) : (step store x).result = .ok (.value n) :=
  result_step_of_wordValue (isOperand_of_isWord (Text.isWord_of_isName hx)) (.bound hx hn)

theorem result_step_of_unbound {store : Store} {x : Text} (hx : x.strip.isName)
    (hn : store.get? x.strip = none) : (step store x).result = .error (.unknownVariable x.strip) :=
  result_step_of_wordValue (isOperand_of_isWord (Text.isWord_of_isName hx)) (.unbound hx hn)

/-- What a declaration would assign is the value of the same text as an expression. -/
theorem result_step_of_assigned {store : Store} {v : Text} {n : Int}
    (h : Assigned store v.strip (.ok n)) : (step store v).result = .ok (.value n) := by
  obtain ⟨hoperand, hvalue⟩ := operand_of_assigned h
  exact result_step_of_wordValue hoperand hvalue

/-! ## Reading back -/

/-- What can be assigned holds no equals sign. -/
theorem equals_notMem_of_assigned {store : Store} {v : Text} {n : Int}
    (h : Assigned store v.strip (.ok n)) : '=' ∉ v := by
  have hexp : Line.IsExpression v := isExpression_of_isOperand (operand_of_assigned h).1
  intro hmem
  exact hexp.equals_notMem ((Text.mem_trim_iff (by decide) v).2 hmem)

/-- A declaration that succeeds is parted where its two sides were put together. -/
theorem declares_of_silent {store : Store} {x v : Text}
    (h : (step store (x ++ '=' :: v)).result = .ok .silent) :
    Line.Declares (x ++ '=' :: v) x v ∧ x.strip.isName ∧ ∃ n, Assigned store v.strip (.ok n) := by
  rcases (path_step store (x ++ '=' :: v)).cases_of_silent h with
    ⟨hblank, -⟩ | ⟨name, value, n, hdeclares, hname, hn, -⟩
  · have hstrip : Text.strip (x ++ '=' :: v) = x.strip ++ '=' :: v.strip := by
      rw [Text.strip_append, Text.strip_cons_of_not_isBlank (by decide)]
    rw [hstrip] at hblank
    exact absurd hblank (by simp)
  · have hx : '=' ∉ x := by
      intro hmem
      -- the line would be parted within `x`, and the rest would hold the other equals sign
      obtain ⟨x₁, x₂, rfl, hx₁⟩ := List.eq_append_cons_of_mem hmem
      have hparted : Line.Declares (x₁ ++ '=' :: x₂ ++ '=' :: v) x₁ (x₂ ++ '=' :: v) :=
        ⟨by simp, hx₁, hdeclares.head?_ne⟩
      obtain ⟨rfl, rfl⟩ := hparted.unique hdeclares
      exact equals_notMem_of_assigned hn (by simp)
    have hparted : Line.Declares (x ++ '=' :: v) x v := ⟨rfl, hx, hdeclares.head?_ne⟩
    obtain ⟨rfl, rfl⟩ := hparted.unique hdeclares
    exact ⟨hdeclares, hname, n, hn⟩

/-- No equals sign is part of a name. -/
theorem equals_notMem_of_isName {x : Text} (h : x.strip.isName) : '=' ∉ x := by
  intro hmem
  have : Text.isWordChar '=' := Text.isWordChar_of_isName h (Text.mem_strip.2 ⟨hmem, by decide⟩)
  exact absurd this (by decide)

/-- **Declared values read back.**  A declaration succeeds exactly for a name on its left and an
    integer literal or a variable on its right, the name's own old value included.  Then its right
    side is an expression too, and the name afterwards gets the reply that the right side would have
    got before. -/
theorem step_declared (store : Store) (x v : Text) :
    ((step store (x ++ '=' :: v)).result = .ok .silent ↔
      x.strip.isName ∧ ((∃ n, Literal v.strip n) ∨ v.strip.isName ∧ (store.get? v.strip).isSome)) ∧
    ((step store (x ++ '=' :: v)).result = .ok .silent →
      Line.IsExpression v ∧
      (step (step store (x ++ '=' :: v)).store x).result = (step store v).result ∧
      ∃ n, Assigned store v.strip (.ok n) ∧ (step store v).result = .ok (.value n)) := by
  refine ⟨⟨?_, ?_⟩, ?_⟩
  · intro h
    obtain ⟨-, hname, hvalue⟩ := declares_of_silent h
    exact ⟨hname, exists_assigned_ok_iff.1 hvalue⟩
  · rintro ⟨hname, hvalue⟩
    obtain ⟨n, hn⟩ := exists_assigned_ok_iff.2 hvalue
    have hdeclares := Line.declares_of_isName hname (equals_notMem_of_isName hname) v
    rw [step_of_assigned hdeclares hname hn]
  · intro h
    obtain ⟨hdeclares, hname, n, hn⟩ := declares_of_silent h
    have hread : (step (store.define x.strip n) x).result = .ok (.value n) :=
      result_step_of_bound hname (store.get?_define_self x.strip n)
    have hwritten : (step store v).result = .ok (.value n) := result_step_of_assigned hn
    refine ⟨isExpression_of_isOperand (operand_of_assigned hn).1, ?_, n, hn, hwritten⟩
    rw [step_of_assigned hdeclares hname hn, hread, hwritten]

/-- `x` is declared as `- 0 07`, and then as its own value. -/
theorem step_declared_negative :
    (step ∅ "x = - 0 07".toList).result = .ok .silent ∧
      (step (step ∅ "x = - 0 07".toList).store "x ".toList).result = (step ∅ " - 0 07".toList).result ∧
      (step ∅ " - 0 07".toList).result = .ok (.value (-7)) ∧
      (step (step ((∅ : Store).define "x".toList 5) "x =x".toList).store "x ".toList).result =
        .ok (.value 5) := by
  have hliteral := step_declared ∅ "x ".toList " - 0 07".toList
  have hself := step_declared ((∅ : Store).define "x".toList 5) "x ".toList "x".toList
  have hsilent : (step ∅ "x = - 0 07".toList).result = .ok .silent :=
    hliteral.1.2 ⟨by decide, Or.inl ⟨-7, integer?_eq_some_iff.1 (by decide)⟩⟩
  have hsilent' : (step ((∅ : Store).define "x".toList 5) "x =x".toList).result = .ok .silent :=
    hself.1.2 ⟨by decide, Or.inr ⟨by decide, by decide⟩⟩
  exact ⟨hsilent, (hliteral.2 hsilent).2.1, by decide, (hself.2 hsilent').2.1.trans (by decide)⟩

end Session

end Calculator
