/-
  What can be seen of a store from outside, and that this is all of it.

  1. `Store.Named` — every name that is bound is a word of ASCII letters.  Stores accept any text as a
     name; it is the declarations that let no other text through, so all stores that a session
     reaches are of this kind (`named_run`).
  2. A line that is a name asks for a variable.  The reply is the value in canonical decimals, whatever
     else the name may mean: `help` and `exit` are commands only behind a slash.
  3. Different integers are written differently, so `Store.Named` stores that reply alike to all names
     are equal (`eq_of_alike`).
  4. `Session.run_observable` puts these together for the stores that a fresh session reaches.
-/
import Calculator.Proofs.ReadBack

namespace Calculator

/-- Every name that is bound is one that can be declared. -/
def Store.Named (s : Store) : Prop := ∀ x n, s.get? x = some n → x.isName

namespace Session

/-! ## Names stay names -/

theorem named_empty : (∅ : Store).Named := by
  intro x n h
  rw [Store.get?_empty] at h
  cases h

/-- The only names that a line adds have been checked by it. -/
theorem named_step {store : Store} (h : store.Named) (t : Text) : (step store t).store.Named := by
  rcases (path_step store t).store_cases with hsame | ⟨name, value, n, -, hname, -, hdefine⟩
  · rwa [hsame]
  · rw [hdefine]
    intro x m hx
    rw [Store.get?_define] at hx
    split at hx
    · next heq => rwa [heq]
    · exact h x m hx

theorem named_run {store : Store} (h : store.Named) (ts : List Text) : (run store ts).Named :=
  run_preserves (P := Store.Named) (fun _ t hs => named_step hs t) h ts

/-! ## Asking for a variable -/

/-- What is answered to a line: the text that its reply puts out, if any, or its error. -/
def answer (store : Store) (t : Text) : Except Error (Option Text) :=
  (step store t).result.map Reply.output?

theorem answer_of_bound {store : Store} {x : Text} (hx : x.isName) {n : Int}
    (hn : store.get? x = some n) : answer store x = .ok (some (Decimal.text n)) := by
  have hstrip : x.strip = x := Text.strip_of_isName hx
  rw [answer, result_step_of_bound (by rwa [hstrip]) (by rwa [hstrip])]
  rfl

theorem answer_of_unbound {store : Store} {x : Text} (hx : x.isName) (hn : store.get? x = none) :
    answer store x = .error (.unknownVariable x) := by
  have hstrip : x.strip = x := Text.strip_of_isName hx
  rw [answer, result_step_of_unbound (by rwa [hstrip]) (by rwa [hstrip]), hstrip]
  rfl

/-- Two stores answer alike to every name. -/
def Alike (s t : Store) : Prop := ∀ x : Text, x.isName → answer s x = answer t x

/-- Where two stores answer alike, they bind alike. -/
theorem Alike.get?_eq {s t : Store} (h : Alike s t) {x : Text} (hx : x.isName) :
    s.get? x = t.get? x := by
  have halike := h x hx
  cases hs : s.get? x with
  | none =>
    cases ht : t.get? x with
    | none => rfl
    | some n =>
      rw [answer_of_unbound hx hs, answer_of_bound hx ht] at halike
      cases halike
  | some m =>
    cases ht : t.get? x with
    | none =>
      rw [answer_of_bound hx hs, answer_of_unbound hx ht] at halike
      cases halike
    | some n =>
      rw [answer_of_bound hx hs, answer_of_bound hx ht] at halike
      have htext : Decimal.text m = Decimal.text n := by
        injection halike with hsome
        injection hsome
      rw [Decimal.text_inj.1 htext]

/-- Named stores have nothing bound that cannot be asked for. -/
theorem eq_of_alike {s t : Store} (hs : s.Named) (ht : t.Named) (h : Alike s t) : s = t := by
  refine Store.ext fun x => ?_
  by_cases hx : x.isName
  · exact h.get?_eq hx
  · have hunbound : ∀ {u : Store}, u.Named → u.get? x = none := fun hu =>
      Option.eq_none_iff_forall_ne_some.2 fun n hn => hx (hu x n hn)
    rw [hunbound hs, hunbound ht]

/-- **Stores are what they answer.**  Whatever lines a fresh session has processed: the names it has
    bound are words of letters; asked for a name, it answers with the value in canonical decimals, or
    with an error if the name is not bound; and sessions that answer alike to all names have the same
    store. -/
theorem run_observable (ts : List Text) :
    (∀ x n, (run ∅ ts).get? x = some n → x ≠ [] ∧ ∀ c ∈ x, c.isAlpha) ∧
    (∀ x : Text, x ≠ [] → (∀ c ∈ x, c.isAlpha) →
      (∀ n, (run ∅ ts).get? x = some n → answer (run ∅ ts) x = .ok (some (Decimal.text n))) ∧
      ((run ∅ ts).get? x = none → answer (run ∅ ts) x = .error (.unknownVariable x))) ∧
    (∀ us, run ∅ ts = run ∅ us ↔ Alike (run ∅ ts) (run ∅ us)) := by
  have hnamed : ∀ us, (run ∅ us).Named := named_run named_empty
  refine ⟨fun x n h => Text.isName_iff.1 (hnamed ts x n h), ?_, ?_⟩
  · intro x hne hletters
    have hx : x.isName := Text.isName_iff.2 ⟨hne, hletters⟩
    exact ⟨fun n hn => answer_of_bound hx hn, answer_of_unbound hx⟩
  · intro us
    refine ⟨?_, eq_of_alike (hnamed ts) (hnamed us)⟩
    intro heq x _
    rw [heq]

/-- `help` and `exit` are names like any other, the one bound and the other not, and it does not
    matter which lines have bound a name. -/
theorem run_observable_help :
    let store := run ∅ ["help = -01".toList, "2x = 1".toList]
    answer store "help".toList = .ok (some "-1".toList) ∧
      answer store "exit".toList = .error (.unknownVariable "exit".toList) ∧
      store.get? "2x".toList = none ∧
      Alike store (run ∅ ["h elp = 3".toList, "help = - 1".toList]) := by
  intro store
  obtain ⟨hnames, hasked, hsame⟩ := run_observable ["help = -01".toList, "2x = 1".toList]
  have hhelp : Text.isName "help".toList := by decide
  have hexit : Text.isName "exit".toList := by decide
  refine ⟨?_, ?_, ?_, ?_⟩
  · exact (hasked _ (Text.isName_iff.1 hhelp).1 (Text.isName_iff.1 hhelp).2).1 (-1) (by decide)
  · exact (hasked _ (Text.isName_iff.1 hexit).1 (Text.isName_iff.1 hexit).2).2 (by decide)
  · refine Option.eq_none_iff_forall_ne_some.2 fun n hn => ?_
    exact absurd ((hnames _ n hn).2 '2' (by decide)) (by decide)
  · exact (hsame _).1 (by decide)

end Session

end Calculator
