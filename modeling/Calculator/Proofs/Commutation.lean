/-
  Lines that can change places.

  1. `Session.Independent t u` — neither line declares a word of the other.  A line reads nothing but
     its own words (`Line.Reads.mem_words`), and a name that is bound is a word of its declaration
     (`Line.mem_words_of_isDeclarationOf`).  So neither line changes what the other one reads, and the
     two do not bind the same variable.
  2. **Two lines** — each gets the result that it would get without the other
     (`Independent.result_step`), and definitions of different variables commute
     (`Independent.store_comm`).
  3. **Runs** — two neighbours change places, and their replies with them.  The store behind them is the
     same, so nothing else in the run is (`Session.step_comm`).
-/
import Calculator.Proofs.Dependence

namespace Calculator

/-- Definitions of different variables can be made in either order. -/
theorem Store.define_comm (s : Store) {x y : Text} (h : x ≠ y) (m n : Int) :
    (s.define x m).define y n = (s.define y n).define x m := by
  ext1 z
  by_cases hx : z = x
  · rw [hx, get?_define_of_ne _ _ h, get?_define_self, get?_define_self]
  · by_cases hy : z = y
    · rw [hy, get?_define_self, get?_define_of_ne _ _ h.symm, get?_define_self]
    · simp only [get?_define, if_neg hx, if_neg hy]

namespace Line

open Text

/-! ## The words of a line -/

/-- The words of a declaration are those of its two sides. -/
theorem Declares.words_strip {t name value : Text} (h : Declares t name value) :
    t.strip.words = name.strip.words ++ value.strip.words := by
  rw [h.strip_eq, words_append_cons (by decide)]

/-- What a line reads stands in it as a word. -/
theorem Reads.mem_words {t x : Text} (h : Reads t x) : x ∈ t.strip.words := by
  cases h with
  | right h hx =>
    rw [h.words_strip]
    exact List.mem_append_right _ hx.1
  | whole _ hx => exact hx.1

/-- So does what it declares, if that is a name. -/
theorem mem_words_of_isDeclarationOf {t x : Text} (h : IsDeclarationOf t x) (hx : x.isName) :
    x ∈ t.strip.words := by
  obtain ⟨name, value, h, rfl⟩ := h
  rw [h.words_strip, words_of_isWord (isWord_of_isName hx)]
  exact List.mem_cons_self ..

end Line

namespace Session

open Line

/-- If one of the lines is a declaration, its stripped name is no word of the other one. -/
structure Independent (t u : Text) : Prop where
  left : ∀ x, IsDeclarationOf t x → x ∉ u.strip.words
  right : ∀ x, IsDeclarationOf u x → x ∉ t.strip.words

namespace Independent

variable {t u : Text}

theorem symm (h : Independent t u) : Independent u t := ⟨h.right, h.left⟩

/-! ## Two lines -/

/-- A line leaves alone what the other one reads. -/
theorem agreeOn (h : Independent t u) (store : Store) :
    (step store t).store.AgreeOn (Reads u) store := fun x hx =>
  get?_step_of_not_declared (fun hdeclares => h.left x hdeclares hx.mem_words) store

/-- A line gets the same result with the other one before it. -/
theorem result_step (h : Independent t u) (store : Store) :
    (step (step store t).store u).result = (step store u).result :=
  result_step_of_agreeOn (h.agreeOn store)

/-- Both orders lead to the same store. -/
theorem store_comm (h : Independent t u) (store : Store) :
    (step (step store t).store u).store = (step (step store u).store t).store := by
  rcases store_step_of_agreeOn (h.agreeOn store) with
    ⟨htu, hu⟩ | ⟨y, m, hy, hyname, htu, hu⟩ <;>
    rcases store_step_of_agreeOn (h.symm.agreeOn store) with
      ⟨hut, ht⟩ | ⟨x, n, hx, -, hut, ht⟩
  · rw [htu, hut, hu, ht]
  · rw [htu, hut, hu, ht]
  · rw [htu, hut, hu, ht]
  · -- two definitions, and the variable of the one is no word of the other line
    have hne : x ≠ y := by
      rintro rfl
      exact h.left x hx (mem_words_of_isDeclarationOf hy hyname)
    rw [htu, hut, hu, ht, Store.define_comm _ hne]

/-! ## Runs -/

/-- The store after two neighbours does not tell their order. -/
theorem run_comm (h : Independent t u) (store : Store) (after : List Text) :
    run store (t :: u :: after) = run store (u :: t :: after) := by
  rw [run_cons, run_cons, h.store_comm, run_cons, run_cons]

/-- Their results change places, and those behind them stay the same. -/
theorem results_comm (h : Independent t u) (store : Store) (after : List Text) :
    ∃ rs, results store (t :: u :: after) = (step store t).result :: (step store u).result :: rs ∧
      results store (u :: t :: after) = (step store u).result :: (step store t).result :: rs := by
  refine ⟨results (step (step store t).store u).store after, ?_, ?_⟩
  · rw [results_cons, results_cons, h.result_step]
  · rw [results_cons, results_cons, h.symm.result_step, h.store_comm]

end Independent

/-- **Commutation.**  Two independent lines get the same replies in either order and lead to the same
    store.  So two independent neighbours can change places anywhere in a run: they keep their replies,
    no other reply changes, and neither does a value at the end. -/
theorem step_comm {t u : Text} (h : Independent t u) :
    (∀ store, (step (step store u).store t).result = (step store t).result ∧
      (step (step store t).store u).result = (step store u).result ∧
      (step (step store t).store u).store = (step (step store u).store t).store) ∧
    ∀ store before after,
      run store (before ++ t :: u :: after) = run store (before ++ u :: t :: after) ∧
      ∃ r r' rs,
        results store (before ++ t :: u :: after) = results store before ++ r :: r' :: rs ∧
        results store (before ++ u :: t :: after) = results store before ++ r' :: r :: rs := by
  refine ⟨fun store => ⟨h.symm.result_step store, h.result_step store, h.store_comm store⟩,
    fun store before after => ⟨?_, ?_⟩⟩
  · rw [run_append, run_append, h.run_comm]
  · obtain ⟨rs, htu, hut⟩ := h.results_comm (run store before) after
    refine ⟨(step (run store before) t).result, (step (run store before) u).result, rs, ?_, ?_⟩
    · rw [results_append, htu]
    · rw [results_append, hut]

/-- A copy and a declaration of another variable, behind the declaration that the copy reads. -/
theorem step_comm_copy :
    let before := ["a = 5".toList]
    run ∅ (before ++ ["b = a".toList, "c = 7".toList, "a * b - c".toList]) =
        run ∅ (before ++ ["c = 7".toList, "b = a".toList, "a * b - c".toList]) ∧
      results ∅ (before ++ ["c = 7".toList, "b = a".toList, "a * b - c".toList]) =
        [.ok .silent, .ok .silent, .ok .silent, .ok (.value 18)] := by
  intro before
  have hb : Declares "b = a".toList "b ".toList " a".toList := ⟨rfl, by decide, by decide⟩
  have hc : Declares "c = 7".toList "c ".toList " 7".toList := ⟨rfl, by decide, by decide⟩
  have hindependent : Independent "b = a".toList "c = 7".toList := by
    constructor
    · rintro x ⟨name, value, h, rfl⟩
      obtain ⟨rfl, rfl⟩ := hb.unique h
      decide
    · rintro x ⟨name, value, h, rfl⟩
      obtain ⟨rfl, rfl⟩ := hc.unique h
      decide
  exact ⟨((step_comm hindependent).2 ∅ before ["a * b - c".toList]).1, by decide⟩

end Session

end Calculator
