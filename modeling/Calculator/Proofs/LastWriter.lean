/-
  A store is the last word of the definitions that made it.

  1. `Store.Binds definitions name value` — of the definitions of the name, the last one gives it this
     value: behind it the name is not defined again.  One more definition decides about its own name
     and leaves the others alone (`binds_concat_self`, `binds_concat_of_ne`).
  2. `Store.ofList` makes definitions in order, so the last of them is made last (`ofList_concat`).
     All inductions are therefore on the definitions from the last one on, and each step is one
     `define`.
  3. A store answers with what its definitions bind (`get?_ofList_eq_some_iff`), and with nothing for a
     name that they do not mention (`get?_ofList_eq_none_iff`).  It is as large as the set of the names
     that they do (`size_ofList`).
  4. `Store.ofList_last_word` — all of this together, and that stores are equal when they answer alike.
-/
import Calculator.Store
import Mathlib.Data.Finset.Card
import Mathlib.Data.List.Induction

namespace Calculator.Store

/-! ## The last definition of a name -/

/-- The names that are defined, as often as they are. -/
def names (definitions : List (Text × Int)) : List Text := definitions.map Prod.fst

/-- The last definition of the name gives it this value. -/
def Binds (definitions : List (Text × Int)) (name : Text) (value : Int) : Prop :=
  ∃ before after, definitions = before ++ (name, value) :: after ∧ name ∉ names after

theorem names_concat (definitions : List (Text × Int)) (name : Text) (value : Int) :
    names (definitions ++ [(name, value)]) = names definitions ++ [name] := List.map_append

/-- A definition is the last of all or stands before it. -/
theorem concat_eq_append_cons {definitions before after : List (Text × Int)} {last d : Text × Int}
    (h : definitions ++ [last] = before ++ d :: after) :
    (d = last ∧ after = []) ∨ ∃ rest, after = rest ++ [last] ∧ definitions = before ++ d :: rest := by
  rcases List.eq_nil_or_concat' after with rfl | ⟨rest, e, rfl⟩
  · exact Or.inl ⟨(List.singleton_inj.1 (List.append_inj' h rfl).2).symm, rfl⟩
  · rw [← List.cons_append, ← List.append_assoc] at h
    obtain ⟨hfront, hlast⟩ := List.append_inj' h rfl
    cases hlast
    exact Or.inr ⟨rest, rfl, hfront⟩

/-- Nothing is bound before anything is defined. -/
theorem not_binds_nil (name : Text) (value : Int) : ¬ Binds [] name value := by
  rintro ⟨before, after, h, -⟩
  exact absurd h (by simp)

/-- The last definition of all is the last one of its name. -/
theorem binds_concat_self {definitions : List (Text × Int)} {name : Text} {value n : Int} :
    Binds (definitions ++ [(name, value)]) name n ↔ n = value := by
  constructor
  · rintro ⟨before, after, h, hname⟩
    rcases concat_eq_append_cons h with ⟨hlast, -⟩ | ⟨rest, rfl, -⟩
    · exact (Prod.mk.inj hlast).2
    · -- then the last definition of all defines the name once more
      rw [names_concat] at hname
      exact absurd (List.mem_append_right _ (List.mem_singleton_self name)) hname
  · rintro rfl
    exact ⟨definitions, [], rfl, List.not_mem_nil⟩

/-- It says nothing about other names. -/
theorem binds_concat_of_ne {definitions : List (Text × Int)} {name other : Text} {value n : Int}
    (hne : other ≠ name) :
    Binds (definitions ++ [(name, value)]) other n ↔ Binds definitions other n := by
  constructor
  · rintro ⟨before, after, h, hother⟩
    rcases concat_eq_append_cons h with ⟨hlast, -⟩ | ⟨rest, rfl, rfl⟩
    · exact absurd (Prod.mk.inj hlast).1 hne
    · rw [names_concat] at hother
      exact ⟨before, rest, rfl, fun hmem => hother (List.mem_append_left _ hmem)⟩
  · rintro ⟨before, after, rfl, hother⟩
    refine ⟨before, after ++ [(name, value)], by simp, ?_⟩
    rw [names_concat, List.mem_append, List.mem_singleton]
    rintro (hmem | rfl)
    · exact hother hmem
    · exact hne rfl

/-! ## What a store answers -/

/-- One more definition behind the others is made last. -/
theorem ofList_concat (definitions : List (Text × Int)) (name : Text) (value : Int) :
    ofList (definitions ++ [(name, value)]) = (ofList definitions).define name value :=
  List.foldl_append

theorem get?_ofList_eq_some_iff {definitions : List (Text × Int)} {name : Text} {value : Int} :
    (ofList definitions).get? name = some value ↔ Binds definitions name value := by
  induction definitions using List.reverseRecOn generalizing value with
  | nil => exact iff_of_false (by rw [ofList]; simp) (not_binds_nil name value)
  | append_singleton definitions last ih =>
    obtain ⟨x, n⟩ := last
    rw [ofList_concat]
    by_cases hx : name = x
    · subst hx
      rw [get?_define_self, binds_concat_self, Option.some_inj, eq_comm]
    · rw [get?_define_of_ne _ _ hx, binds_concat_of_ne hx, ih]

theorem get?_ofList_eq_none_iff {definitions : List (Text × Int)} {name : Text} :
    (ofList definitions).get? name = none ↔ name ∉ names definitions := by
  induction definitions using List.reverseRecOn with
  | nil => exact iff_of_true rfl List.not_mem_nil
  | append_singleton definitions last ih =>
    obtain ⟨x, n⟩ := last
    rw [ofList_concat, names_concat, List.mem_append, List.mem_singleton]
    by_cases hx : name = x
    · subst hx
      rw [get?_define_self]
      exact iff_of_false (Option.some_ne_none n) (by simp)
    · rw [get?_define_of_ne _ _ hx, ih, or_iff_left hx]

theorem contains_ofList_iff {definitions : List (Text × Int)} {name : Text} :
    (ofList definitions).contains name ↔ name ∈ names definitions := by
  rw [contains_eq, Option.isSome_iff_ne_none, ne_eq, get?_ofList_eq_none_iff, not_not]

/-- Defining a name again does not make a store larger. -/
theorem size_ofList (definitions : List (Text × Int)) :
    (ofList definitions).size = (names definitions).toFinset.card := by
  induction definitions using List.reverseRecOn with
  | nil => rfl
  | append_singleton definitions last ih =>
    obtain ⟨x, n⟩ := last
    have hinsert : (names (definitions ++ [(x, n)])).toFinset =
        insert x (names definitions).toFinset := by
      rw [names_concat, List.toFinset_append, Finset.union_comm]
      rfl
    rw [ofList_concat, size_define, hinsert, Finset.card_insert_eq_ite, ih]
    simp only [contains_ofList_iff, List.mem_toFinset]

/-- **A store is the last word of its definitions.**  A name has the value that its last definition
    gives it, and none if it has no definition; it is contained in the store just when it has a value.
    The size of the store is the number of different names, and it is empty just when that is zero.
    Two stores are equal when they have the same answer to every name, and only then: the order of the
    definitions and what was defined in between leave no trace. -/
theorem ofList_last_word (definitions : List (Text × Int)) :
    (∀ name value, (ofList definitions).get? name = some value ↔ Binds definitions name value) ∧
    (∀ name, (ofList definitions).get? name = none ↔ name ∉ names definitions) ∧
    (∀ name, (ofList definitions).contains name = ((ofList definitions).get? name).isSome) ∧
    (ofList definitions).size = (names definitions).toFinset.card ∧
    ((ofList definitions).isEmpty ↔ (ofList definitions).size = 0) ∧
    ∀ others, (ofList definitions == ofList others) ↔
      ∀ name, (ofList definitions).get? name = (ofList others).get? name := by
  refine ⟨fun name value => get?_ofList_eq_some_iff, fun name => get?_ofList_eq_none_iff,
    contains_eq _, size_ofList definitions, ?_, fun others => ?_⟩
  · rw [isEmpty_eq, beq_iff_eq]
  · rw [beq_iff_eq]
    constructor
    · intro heq name
      rw [heq]
    · exact ext

/-- What was bound for a while and the order in which names come make no difference. -/
example : ofList [(['a'], 1), (['b'], 2), (['a'], 3)] = ofList [(['a'], 3), (['b'], 2)] := by decide

end Calculator.Store
