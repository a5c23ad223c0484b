/-
  The variables and their values.

  1. `Store` — a finite map from texts to integers, extensional: it is what it answers (`ext`).  So two
     stores are equal whatever the order of the definitions that made them.
  2. `define` binds a name, in place of what was bound to it before; `get?` is the view through which
     everything else is told (`get?_empty`, `get?_define`, `eq_define_iff`).
  3. `lookup` is `get?` with an error for a name that is not bound.
  4. `size` counts the names that are bound (`size_define`).

  Any text can be bound here.  That a name is a word of letters is checked where names are read.
-/
import Calculator.Error
import Std.Data.ExtTreeMap

namespace Calculator

/-- A finite map from names to integers. -/
structure Store where
  bindings : Std.ExtTreeMap Text Int

namespace Store

/-! ## Operations -/

/-- The store that binds nothing. -/
def empty : Store := ⟨∅⟩

instance : EmptyCollection Store := ⟨empty⟩

/-- Binds a name to a value. -/
def define (s : Store) (name : Text) (value : Int) : Store := ⟨s.bindings.insert name value⟩

/-- The value of a name. -/
def get? (s : Store) (name : Text) : Option Int := s.bindings[name]?

/-- The value of a name that must be bound. -/
def lookup (s : Store) (name : Text) : Except Error Int :=
  match s.get? name with
  | some n => .ok n
  | none => .error (.unknownVariable name)

/-- Whether a name is bound. -/
def contains (s : Store) (name : Text) : Bool := s.bindings.contains name

/-- How many names are bound. -/
def size (s : Store) : Nat := s.bindings.size

/-- Whether no name is bound. -/
def isEmpty (s : Store) : Bool := s.bindings.isEmpty

/-- The store that a list of definitions makes, each in place of an earlier one of the same name. -/
def ofList (definitions : List (Text × Int)) : Store :=
  definitions.foldl (fun s (name, value) => s.define name value) ∅

/-! ## The view through `get?` -/

@[simp] theorem get?_empty (name : Text) : (∅ : Store).get? name = none :=
  Std.ExtTreeMap.getElem?_empty

theorem get?_define (s : Store) (name other : Text) (value : Int) :
    (s.define name value).get? other = if other = name then some value else s.get? other := by
  simp only [get?, define, Std.ExtTreeMap.getElem?_insert, Std.LawfulEqCmp.compare_eq_iff_eq,
    @eq_comm _ name]

@[simp] theorem get?_define_self (s : Store) (name : Text) (value : Int) :
    (s.define name value).get? name = some value := by
  simp [get?_define]

theorem get?_define_of_ne (s : Store) {name other : Text} (value : Int) (h : other ≠ name) :
    (s.define name value).get? other = s.get? other := by
  simp [get?_define, h]

theorem lookup_eq_ok_iff {s : Store} {name : Text} {n : Int} :
    s.lookup name = .ok n ↔ s.get? name = some n := by
  unfold lookup; split <;> simp_all

@[simp] theorem contains_eq (s : Store) (name : Text) : s.contains name = (s.get? name).isSome :=
  Std.ExtTreeMap.contains_eq_isSome_getElem?

theorem size_define (s : Store) (name : Text) (value : Int) :
    (s.define name value).size = if s.contains name then s.size else s.size + 1 := by
  simp only [size, define, contains, Std.ExtTreeMap.size_insert, Std.ExtTreeMap.contains_iff_mem]

theorem isEmpty_eq (s : Store) : s.isEmpty = (s.size == 0) :=
  Std.ExtTreeMap.isEmpty_eq_size_beq_zero

/-- A store is what it answers. -/
@[ext] theorem ext {s t : Store} (h : ∀ name, s.get? name = t.get? name) : s = t := by
  cases s; cases t
  exact congrArg mk (Std.ExtTreeMap.ext_getElem? h)

/-- A definition gives its name the value and leaves all other names as they are; no other store does. -/
theorem eq_define_iff {s t : Store} {name : Text} {value : Int} :
    t = s.define name value ↔
      t.get? name = some value ∧ ∀ other, other ≠ name → t.get? other = s.get? other := by
  constructor
  · rintro rfl
    exact ⟨get?_define_self s name value, fun other => get?_define_of_ne s value⟩
  · rintro ⟨hname, hothers⟩
    refine ext fun other => ?_
    rw [get?_define]
    split
    case isTrue h => rw [h, hname]
    case isFalse h => exact hothers other h

instance : DecidableEq Store := fun s t =>
  decidable_of_iff (s.bindings == t.bindings) <| by
    cases s; cases t; simp

end Store

end Calculator
