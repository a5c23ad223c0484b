/-
  Which variables a line reads.

  1. `Line.Reads t x` — the name `x` is a word of the stripped line, or of its right side if the line
     is a declaration.  This is told from the line alone, before anything is collapsed or cut.
  2. **Expressions** — every identifier that is looked up is a piece of the collapsed text, and a piece
     that is a name was a word before.  So stores that agree on these words resolve all operands alike
     (`evaluate_of_agreeOn`).
  3. **Declarations** — a right side that is a name is the only word of itself (`Assigned.of_agreeOn`).
  4. Two sessions whose stores agree on what a line reads give it the same result
     (`result_step_of_agreeOn`) and are changed by it in the same way (`store_step_of_agreeOn`).
-/
import Calculator.Proofs.Operands
import Calculator.Proofs.Chunks
import Calculator.Proofs.Frame

namespace Calculator

/-- Each of these names has the same value in both stores, or no value in either. -/
def Store.AgreeOn (names : Text → Prop) (s s' : Store) : Prop :=
  ∀ x, names x → s.get? x = s'.get? x

theorem Store.AgreeOn.symm {names : Text → Prop} {s s' : Store} (h : AgreeOn names s s') :
    AgreeOn names s' s := fun x hx => (h x hx).symm

/-- The text has this word, and the word has letters only. -/
def Text.HasName (t x : Text) : Prop := x ∈ t.words ∧ x.isName

/-! ## Expressions -/

/-- An identifier is the text that it was read from. -/
theorem Token.eq_of_ofText_eq_identifier {p x : Text} (h : ofText p = .operand (.identifier x)) :
    p = x := by
  rw [ofText] at h
  cases hsymbol : symbol? p with
  | some tok =>
    rw [hsymbol] at h
    obtain rfl : tok = .operand (.identifier x) := h
    exact (text_of_symbol? hsymbol).symm
  | none =>
    rw [hsymbol] at h
    have hoperand : operandOfText p = .identifier x := Token.operand.inj h
    unfold operandOfText at hoperand
    split at hoperand
    · cases hoperand
    · exact Operand.identifier.inj hoperand

namespace Expression

/-- What is looked up for an expression is a word of its stripped text. -/
theorem hasName_of_mem_ofText {t x : Text} (h : .operand (.identifier x) ∈ ofText t)
    (hx : x.isName) : t.strip.HasName x := by
  obtain ⟨p, hp, hread⟩ := List.mem_map.1 h
  obtain rfl := Token.eq_of_ofText_eq_identifier hread
  have hword : p ∈ t.normalize.words := Token.mem_words_of_mem_pieces hp hx
  rw [Text.normalize, Text.words_collapse] at hword
  exact ⟨hword, hx⟩

/-- Stores that agree on the names of a text resolve its operands alike, and nothing else in an
    evaluation asks for the store. -/
theorem evaluate_of_agreeOn {s s' : Store} {t : Text} (h : s.AgreeOn t.strip.HasName s') :
    evaluate s t = evaluate s' t := by
  have hresolve : (ofText t).map (Token.map (Operand.resolve s)) =
      (ofText t).map (Token.map (Operand.resolve s')) := by
    refine List.map_congr_left fun tok htok => ?_
    rcases tok with (n | x) | op | p
    · rfl
    · cases hname : x.isName with
      | false => simp [Token.map, Operand.resolve, hname]
      | true => simp [Token.map, Operand.resolve, h x (hasName_of_mem_ofText htok hname)]
    · rfl
    · rfl
  rw [evaluate_resolve, hresolve, ← evaluate_resolve]

theorem result_of_agreeOn {s s' : Store} {t : Text} (h : s.AgreeOn t.strip.HasName s') :
    result s t = result s' t := by
  have hstrip : s.AgreeOn t.strip.strip.HasName s' := by rwa [Text.strip_strip]
  rw [result, evaluate_of_agreeOn hstrip, result]

end Expression

namespace Line

/-- The names that a line reads: the words of letters in its stripped text, and for a declaration those
    to the right of the first equals sign only. -/
inductive Reads (t : Text) : Text → Prop
  | right {name value x : Text} (h : Declares t name value) (hx : value.strip.HasName x) : Reads t x
  | whole {x : Text} (h : ∀ name value, ¬ Declares t name value) (hx : t.strip.HasName x) : Reads t x

end Line

namespace Session

open Line

/-! ## Declarations -/

/-- Stores that agree on the names of a right side assign the same. -/
theorem Assigned.of_agreeOn {s s' : Store} {v : Text} {r : Except Error Int} (h : Assigned s v r)
    (hagree : s.AgreeOn v.HasName s') : Assigned s' v r := by
  have hwhole : v.isName → v.HasName v := fun hname =>
    ⟨by rw [Text.words_of_isWord (Text.isWord_of_isName hname)]; exact List.mem_singleton_self v,
      hname⟩
  cases h with
  | literal h => exact .literal h
  | bound h hn => exact .bound h (by rw [← hagree v (hwhole h), hn])
  | unbound h hn => exact .unbound h (by rw [← hagree v (hwhole h), hn])
  | other hliteral hname => exact .other hliteral hname

theorem declaredValue_of_agreeOn {s s' : Store} {v : Text} (h : s.AgreeOn v.HasName s') :
    declaredValue s v = declaredValue s' v :=
  (assigned_iff.1 ((assigned_iff.2 rfl : Assigned s v _).of_agreeOn h)).symm

/-! ## Steps -/

variable {s s' : Store} {t : Text}

/-- **Results.**  A line gets the same result from all stores that agree on what it reads. -/
theorem result_step_of_agreeOn (h : s.AgreeOn (Reads t) s') :
    (step s t).result = (step s' t).result := by
  rcases kind_cases t with hblank | hslash | ⟨name, value, hdeclares⟩ | hexpression
  · rw [step_of_strip_eq_nil hblank, step_of_strip_eq_nil hblank]
  · -- no command looks at the store
    rw [step_of_slash hslash, step_of_slash hslash, obey, obey]
    split <;> rfl
  · have hright : s.AgreeOn value.strip.HasName s' := fun x hx => h x (.right hdeclares hx)
    rw [step_of_declares hdeclares, step_of_declares hdeclares, declare, declare, binding, binding,
      declaredValue_of_agreeOn hright]
    split <;> rfl
  · have hwhole : s.AgreeOn t.strip.HasName s' := by
      refine fun x hx => h x (.whole (fun name value hdeclares => ?_) hx)
      have hequals : '=' ∈ t.strip := by
        rw [hdeclares.strip_eq]
        exact List.mem_append_right _ (List.mem_cons_self ..)
      exact (isExpression_iff.1 hexpression).2.2 hequals
    rw [step_of_isExpression hexpression, step_of_isExpression hexpression,
      Expression.result_of_agreeOn hwhole]

/-- A declaration that succeeds from one store succeeds from the other one, with the same value. -/
theorem store_step_of_assigned {name value : Text} {n : Int} (h : s.AgreeOn (Reads t) s')
    (hdeclares : Declares t name value) (hname : name.strip.isName)
    (hn : Assigned s value.strip (.ok n)) :
    (step s t).store = s.define name.strip n ∧ (step s' t).store = s'.define name.strip n := by
  have hright : s.AgreeOn value.strip.HasName s' := fun x hx => h x (.right hdeclares hx)
  rw [step_of_assigned hdeclares hname hn, step_of_assigned hdeclares hname (hn.of_agreeOn hright)]
  exact ⟨rfl, rfl⟩

/-- **Effects.**  Neither store is changed, or the same variable gets the same value in both. -/
theorem store_step_of_agreeOn (h : s.AgreeOn (Reads t) s') :
    ((step s t).store = s ∧ (step s' t).store = s') ∨
      ∃ x n, IsDeclarationOf t x ∧ x.isName ∧
        (step s t).store = s.define x n ∧ (step s' t).store = s'.define x n := by
  rcases (path_step s t).store_cases with hsame | ⟨name, value, n, hdeclares, hname, hn, -⟩
  · rcases (path_step s' t).store_cases with hsame' | ⟨name, value, n, hdeclares, hname, hn, -⟩
    · exact Or.inl ⟨hsame, hsame'⟩
    · obtain ⟨hs', hs⟩ := store_step_of_assigned h.symm hdeclares hname hn
      exact Or.inr ⟨_, n, ⟨name, value, hdeclares, rfl⟩, hname, hs, hs'⟩
  · obtain ⟨hs, hs'⟩ := store_step_of_assigned h hdeclares hname hn
    exact Or.inr ⟨_, n, ⟨name, value, hdeclares, rfl⟩, hname, hs, hs'⟩

/-- **Dependence.**  The reply to a line depends on nothing but the values of the variables that the
    line reads.  Two sessions that agree on these reply alike, and if the line is a declaration that
    succeeds, its name has the same value in both afterwards. -/
theorem step_of_agreeOn (h : s.AgreeOn (Reads t) s') :
    (step s t).result = (step s' t).result ∧
      ∀ name value, Declares t name value → (step s t).result = .ok .silent →
        ∃ n, (step s t).store.get? name.strip = some n ∧
          (step s' t).store.get? name.strip = some n := by
  refine ⟨result_step_of_agreeOn h, fun name value hdeclares hsilent => ?_⟩
  obtain ⟨n, hname, hn, -⟩ := (path_step s t).defined_of_silent hsilent hdeclares
  obtain ⟨hs, hs'⟩ := store_step_of_assigned h hdeclares hname hn
  exact ⟨n, by rw [hs, Store.get?_define_self], by rw [hs', Store.get?_define_self]⟩

/-- A declaration reads its right side only, so the stores may differ in the variable that it binds. -/
theorem step_of_agreeOn_copy :
    let s := (∅ : Store).define "b".toList 5
    let s' := s.define "a".toList 7
    (step s "a = b".toList).result = (step s' "a = b".toList).result ∧
      ∃ n, (step s "a = b".toList).store.get? "a".toList = some n ∧
        (step s' "a = b".toList).store.get? "a".toList = some n := by
  intro s s'
  have ha : Declares "a = b".toList "a ".toList " b".toList := ⟨rfl, by decide, by decide⟩
  have hagree : s.AgreeOn (Reads "a = b".toList) s' := by
    intro x hx
    refine (Store.get?_define_of_ne _ _ ?_).symm
    rintro rfl
    cases hx with
    | right h hx =>
      obtain ⟨rfl, rfl⟩ := ha.unique h
      exact absurd hx.1 (by decide)
    | whole h hx => exact absurd ha (h _ _)
  obtain ⟨hresult, heffect⟩ := step_of_agreeOn hagree
  exact ⟨hresult, heffect _ _ ha (by decide)⟩

end Session

end Calculator
