/-
  The outcomes of a declaration, one by one.

  1. `Session.Declared store name value result after` — what a declaration with these two stripped
     sides comes to, its result and the store after it.  The name is looked at first.  A value that is
     refused leaves the store as it was.  A value that is assigned is what the name has afterwards,
     while all other names have what they had; which values are assigned and which are refused is what
     `Assigned` tells.
  2. A declaration has just the outcome that is told here (`declared_iff`).
  3. `step_declaration` says so of every line that no slash begins and that has an equals sign: it is
     parted at the first one, both sides lose all their blanks, and there is no other outcome.
-/
import Calculator.Proofs.Step

namespace Calculator.Session

open Line Decimal

/-! ## Outcomes -/

/-- What a declaration with these stripped sides comes to: its result, and the store after it. -/
inductive Declared (store : Store) (name value : Text) : Except Error Reply → Store → Prop
  | misnamed (hname : name.isName = false) :
      Declared store name value (.error (.invalidName name)) store
  | refused {e : Error} (hname : name.isName) (he : Assigned store value (.error e)) :
      Declared store name value (.error e) store
  | assigned {n : Int} {after : Store} (hname : name.isName) (hn : Assigned store value (.ok n))
      (hbound : after.get? name = some n)
      (hothers : ∀ other, other ≠ name → after.get? other = store.get? other) :
      Declared store name value (.ok .silent) after

/-- A declaration comes to this and to nothing else. -/
theorem declared_iff {store after : Store} {name value : Text} {result : Except Error Reply} :
    Declared store name.strip value.strip result after ↔
      (declare store name value).result = result ∧ (declare store name value).store = after := by
  constructor
  · intro h
    cases h with
    | misnamed hname =>
      rw [declare, binding, hname]
      exact ⟨rfl, rfl⟩
    | refused hname he =>
      rw [declare, binding, if_pos hname, assigned_iff.1 he]
      exact ⟨rfl, rfl⟩
    | assigned hname hn hbound hothers =>
      rw [declare, binding, if_pos hname, assigned_iff.1 hn]
      exact ⟨rfl, (Store.eq_define_iff.2 ⟨hbound, hothers⟩).symm⟩
  · rintro ⟨rfl, rfl⟩
    rw [declare, binding]
    by_cases hname : name.strip.isName
    · rw [if_pos hname]
      rcases hvalue : declaredValue store value.strip with e | n
      · exact .refused hname (assigned_iff.2 hvalue)
      · obtain ⟨hbound, hothers⟩ := Store.eq_define_iff.1 (Eq.refl (store.define name.strip n))
        exact .assigned hname (assigned_iff.2 hvalue) hbound hothers
    · rw [if_neg hname]
      exact .misnamed (by simpa using hname)

/-! ## Lines -/

/-- **Declarations.**  A line with an equals sign that no slash begins is parted at its first equals
    sign.  Without their blanks, the left side must be a name, and the right side an integer or the
    name of a variable; the left side then has that integer or the present value of the variable, all
    other names have what they had, and nothing is said.  Otherwise the first side at fault is
    reported, and the store stays as it was.  No line comes to anything else. -/
theorem step_declaration {t : Text} (hslash : t.strip.head? ≠ some '/') (hequals : '=' ∈ t)
    (store : Store) :
    ∃ name value : Text, t = name ++ '=' :: value ∧ '=' ∉ name ∧
      ∀ result after, Declared store name.strip value.strip result after ↔
        (step store t).result = result ∧ (step store t).store = after := by
  obtain ⟨name, value, h⟩ := exists_declares hequals hslash
  refine ⟨name, value, h.eq_append, h.equals_notMem, ?_⟩
  intro result after
  rw [step_of_declares h]
  exact declared_iff

/-- The blanks within both sides of ` a b = - 0 7` are gone: `ab` has the value -7, and `a` has what it
    had. -/
theorem step_declaration_of_blanks :
    let store := (∅ : Store).define ['a'] 5
    let line := " a b = - 0 7".toList
    (Text.strip line).head? ≠ some '/' ∧ '=' ∈ line ∧
      (step store line).result = .ok .silent ∧
      (step store line).store.get? "ab".toList = some (-7) ∧
      (step store line).store.get? ['a'] = some 5 := by
  intro store line
  have hslash : (Text.strip line).head? ≠ some '/' := by decide
  have hequals : '=' ∈ line := by decide
  obtain ⟨name, value, hline, hname, houtcome⟩ := step_declaration hslash hequals store
  have hparted : Declares line " a b ".toList " - 0 7".toList := ⟨rfl, by decide, hslash⟩
  obtain ⟨rfl, rfl⟩ := hparted.unique ⟨hline, hname, hslash⟩
  have hvalue : declaredValue store (Text.strip " - 0 7".toList) = .ok (-7) := rfl
  refine ⟨hslash, hequals, ?_⟩
  have h := (houtcome _ _).2 ⟨rfl, rfl⟩
  generalize (step store line).result = result, (step store line).store = after at h ⊢
  cases h with
  | misnamed hname => exact absurd hname (by decide)
  | refused hname he =>
    rw [assigned_iff.1 he] at hvalue
    cases hvalue
  | assigned hname hn hbound hothers =>
    rw [assigned_iff.1 hn] at hvalue
    cases hvalue
    exact ⟨rfl, hbound, (hothers ['a'] (by decide)).trans (Store.get?_define_self ∅ ['a'] 5)⟩

end Calculator.Session
