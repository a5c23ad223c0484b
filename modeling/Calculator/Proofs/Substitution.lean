/-
  Operands that denote the same number are interchangeable.

  1. `Denotes store n tokens` — the tokens are the number `n`, the name of a variable whose value is
     `n`, or anything in parentheses whose value by itself is `n`.
  2. Such tokens have a postorder of their own: in any conversion it comes out in one piece, with
     nothing else moved (`toPostorder_around`), and in any evaluation it adds `n` to the stack.
  3. So the tokens around it cannot tell them apart (`value_around_congr`), whatever they are: they
     may be malformed, fail, or leave parentheses open.
-/
import Calculator.Proofs.Conversion
import Calculator.Proofs.Evaluation

namespace Calculator.Expression

open Conversion

/-- Tokens that stand for an integer wherever an operand may stand. -/
inductive Denotes (store : Store) (n : Int) : List Token → Prop
  | number : Denotes store n [.operand (.number n)]
  | name {x : Text} (isName : x.isName) (bound : store.get? x = some n) :
      Denotes store n [.operand (.identifier x)]
  | group {tokens post : List Token} (converts : toPostorder tokens = .ok post)
      (value : value store post = .ok n) :
      Denotes store n (.paren .opening :: tokens ++ [.paren .closing])

/-- Tokens that convert to a postorder of their own, in one piece and with nothing else moved. -/
def Converts (tokens post : List Token) : Prop :=
  ∀ c : Conversion, tokens.foldlM feed c = .ok ⟨post.reverse ++ c.output, c.stack⟩

theorem Denotes.exists_converts {store : Store} {n : Int} {tokens : List Token}
    (h : Denotes store n tokens) :
    ∃ post, Converts tokens post ∧
      ∀ values, post.foldlM (push store) values = .ok (n :: values) := by
  cases h with
  | number => exact ⟨[.operand (.number n)], fun _ => rfl, fun _ => rfl⟩
  | @name x isName bound =>
    have hvalue : Operand.value store (.identifier x) = .ok n := by
      rw [Operand.value, if_pos isName, Store.lookup_eq_ok_iff, bound]
    refine ⟨[.operand (.identifier x)], fun _ => rfl, fun values => ?_⟩
    rw [List.foldlM_cons, push, hvalue]
    rfl
  | group converts value =>
    exact ⟨_, foldlM_feed_group converts, foldlM_push_of_value value⟩

/-- The conversion around tokens with a postorder of their own: what stands before them is converted
    first, what stands behind them sees the stack only. -/
theorem toPostorder_around {tokens post : List Token} (h : Converts tokens post)
    (before after : List Token) :
    toPostorder (before ++ tokens ++ after) =
      before.foldlM feed start >>= fun c =>
        (after.foldlM feed ⟨[], c.stack⟩ >>= finish).map fun rest =>
          c.output.reverse ++ post ++ rest := by
  rw [toPostorder, List.foldlM_append, List.foldlM_append]
  cases before.foldlM feed start with
  | error e => rfl
  | ok c =>
    show (tokens.foldlM feed c >>= fun d => after.foldlM feed d) >>= finish =
      (after.foldlM feed ⟨[], c.stack⟩ >>= finish).map _
    rw [h c]
    show after.foldlM feed (onto ⟨[], c.stack⟩ (post.reverse ++ c.output)) >>= finish = _
    rw [foldlM_feed_onto]
    cases after.foldlM feed ⟨[], c.stack⟩ with
    | error e => rfl
    | ok d =>
      show finish (d.onto _) = (finish d).map _
      rw [finish_onto, List.reverse_append, List.reverse_reverse]

/-- In the middle of a postorder only the effect on the stack counts. -/
theorem values_around_congr {store : Store} {post post' : List Token}
    (h : ∀ values, post.foldlM (push store) values = post'.foldlM (push store) values)
    (before after : List Token) :
    values store (before ++ post ++ after) = values store (before ++ post' ++ after) := by
  rw [values, values, List.foldlM_append, List.foldlM_append, List.foldlM_append,
    List.foldlM_append]
  congr 2
  funext stack
  exact h stack

/-- **Referential transparency.**  Tokens that denote the same integer can take each other's place
    among any other tokens: the result is the same, be it a value or an error. -/
theorem value_around_congr {store : Store} {n : Int} {tokens tokens' : List Token}
    (h : Denotes store n tokens) (h' : Denotes store n tokens') (before after : List Token) :
    (toPostorder (before ++ tokens ++ after) >>= value store) =
      (toPostorder (before ++ tokens' ++ after) >>= value store) := by
  obtain ⟨post, hconv, hpush⟩ := h.exists_converts
  obtain ⟨post', hconv', hpush'⟩ := h'.exists_converts
  have hsame : ∀ values, post.foldlM (push store) values = post'.foldlM (push store) values :=
    fun values => by rw [hpush, hpush']
  rw [toPostorder_around hconv, toPostorder_around hconv']
  cases before.foldlM feed start with
  | error e => rfl
  | ok c =>
    show (after.foldlM feed ⟨[], c.stack⟩ >>= finish).map _ >>= value store =
      (after.foldlM feed ⟨[], c.stack⟩ >>= finish).map _ >>= value store
    cases after.foldlM feed ⟨[], c.stack⟩ >>= finish with
    | error e => rfl
    | ok rest => exact value_congr (values_around_congr hsame c.output.reverse rest)

/-- In `100 - x ^ 2`, with 5 for `x`, and in `100 - (2 + 3) ^ 2`. -/
theorem value_around_congr_power :
    let store := (∅ : Store).define ['x'] 5
    let group : List Token := .paren .opening ::
      [.operand (.number 2), .operator .add, .operand (.number 3)] ++ [.paren .closing]
    let before : List Token := [.operand (.number 100), .operator .sub]
    let after : List Token := [.operator .pow, .operand (.number 2)]
    Denotes store 5 [.operand (.identifier ['x'])] ∧ Denotes store 5 group ∧
      (toPostorder (before ++ [.operand (.identifier ['x'])] ++ after) >>= value store) =
        (toPostorder (before ++ group ++ after) >>= value store) ∧
      (toPostorder (before ++ group ++ after) >>= value store) = .ok 75 := by
  have hname : Denotes ((∅ : Store).define ['x'] 5) 5 [.operand (.identifier ['x'])] :=
    .name rfl (Store.get?_define_self ..)
  have hgroup : Denotes ((∅ : Store).define ['x'] 5) 5 (.paren .opening ::
      [.operand (.number 2), .operator .add, .operand (.number 3)] ++ [.paren .closing]) :=
    .group rfl rfl
  exact ⟨hname, hgroup, value_around_congr hname hgroup _ _, rfl⟩
end Calculator.Expression
