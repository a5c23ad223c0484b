/-
  What is offered to complete a line, and what the session makes of it.

  1. Positions in a line are counted in bytes of UTF-8.  The bytes of what stands before a boundary
     between characters lead exactly there (`takeBytes_encode`), so the completion of a line looks at
     that part of it and at no other (`Completion.ofLine_append`).
  2. `Session.Knows store t` — the text is a line as it stands, begins like a command, and the session
     does not refuse it as an unknown one.  The texts of the commands are known in every state, and no
     others in any (`knows_iff`).
  3. The editor has a list of texts of its own, and the session compares with texts of its own.  That
     they are the same texts is told by `mem_offers_iff`, and by nothing before it.
  4. `Session.completion_offers_known` — what is offered are the known texts that go on as the line
     begins, each of them once.
-/
import Calculator.Command.Completion
import Calculator.Proofs.Step
import Calculator.Proofs.TextLines

namespace Calculator

/-! ## Positions -/

namespace Text

theorem length_encode (t : Text) : (Bytes.encode t).length = t.utf8Size := by
  induction t with
  | nil => rfl
  | cons c t ih =>
    rw [Bytes.encode_cons, List.length_append, String.length_utf8EncodeChar, ih]
    rfl

/-- As many bytes as a text has take it from the front of a longer one. -/
theorem takeBytes_encode (front back : Text) :
    (front ++ back).takeBytes (Bytes.encode front).length = front := by
  rw [length_encode, takeBytes_append]

end Text

namespace Command

/-- The completion of a line at a boundary between characters. -/
theorem Completion.ofLine_append (front back : Text) :
    Completion.ofLine (front ++ back) (Bytes.encode front).length =
      ⟨0, completing front⟩ := by
  rw [Completion.ofLine, Text.takeBytes_encode]

/-- Nothing is offered twice. -/
theorem nodup_completing (typed : Text) : (completing typed).Nodup :=
  List.Pairwise.filter _ (by decide : offers.Nodup)

theorem head?_text (c : Command) : c.text.head? = some '/' := by
  cases c <;> rfl

theorem trim_text (c : Command) : c.text.trim = c.text := by
  cases c <;> decide

end Command

namespace Session

open Command Text

/-! ## What the session knows -/

/-- The session takes the text for a command, as it stands, and for one that it knows. -/
structure Knows (store : Store) (t : Text) : Prop where
  trim_eq : t.trim = t
  slash : t.head? = some '/'
  known : ∀ u, (step store t).result ≠ .error (.unknownCommand u)

theorem result_step_text (store : Store) (c : Command) :
    (step store c.text).result = .ok c.reply := by
  have hslash : c.text.strip.head? = some '/' := by
    rw [← head?_trim, trim_text, head?_text]
  rw [step_of_slash hslash, trim_text, obey, ofText?_text]

/-- The known texts are those of the commands, whatever the state. -/
theorem knows_iff {store : Store} {t : Text} : Knows store t ↔ ∃ c : Command, t = c.text := by
  constructor
  · rintro ⟨htrim, hslash, hknown⟩
    have hstrip : t.strip.head? = some '/' := by rw [← head?_trim, htrim, hslash]
    cases hc : ofText? t with
    | some c => exact ⟨c, ofText?_eq_some_iff.1 hc⟩
    | none =>
      refine absurd ?_ (hknown t)
      rw [step_of_slash hstrip, htrim, obey, hc]
  · rintro ⟨c, rfl⟩
    refine ⟨trim_text c, head?_text c, fun u hu => ?_⟩
    rw [result_step_text] at hu
    cases hu

/-! ## What the editor offers -/

/-- **The two lists agree.**  The editor offers what the session knows: each offer is taken for a
    command, and each command is offered. -/
theorem mem_offers_iff {store : Store} {t : Text} : t ∈ offers ↔ Knows store t := by
  rw [knows_iff]
  constructor
  · intro h
    have hread : ∀ offer ∈ offers, (ofText? offer).isSome := by decide
    obtain ⟨c, hc⟩ := Option.isSome_iff_exists.1 (hread t h)
    exact ⟨c, ofText?_eq_some_iff.1 hc⟩
  · rintro ⟨c, rfl⟩
    cases c <;> decide

/-- What begins a known text begins with a slash itself, unless it is empty. -/
theorem Knows.head?_of_isPrefix {store : Store} {typed t : Text} (h : Knows store t)
    (hne : typed ≠ []) (hbegins : typed <+: t) : typed.head? = some '/' := by
  obtain ⟨rest, rfl⟩ := hbegins
  rw [← h.slash, List.head?_append_of_ne_nil _ hne]

/-- **Completion agrees with the session.**  At any boundary between the characters of a line, the
    whole line is to be replaced, and what is offered are, each of them once, the texts that the
    session knows as commands and that begin with what stands before the boundary, if that begins with
    a slash.  So all that is offered is accepted in every state, and whatever is accepted in some state
    is offered for each beginning of it but the empty one. -/
theorem completion_offers_known (front back : Text) :
    ∃ offered, Completion.ofLine (front ++ back) (Bytes.encode front).length = ⟨0, offered⟩ ∧
      offered.Nodup ∧
      (∀ store t, t ∈ offered ↔ Knows store t ∧ front <+: t ∧ front.head? = some '/') ∧
      (∀ t ∈ offered, ∀ store, ∃ reply, (step store t).result = .ok reply) ∧
      ∀ store t, Knows store t → front <+: t → front ≠ [] → t ∈ offered := by
  refine ⟨_, Completion.ofLine_append front back, nodup_completing front, ?_, ?_, ?_⟩
  · intro store t
    have hagree : t ∈ offers ↔ Knows store t := mem_offers_iff
    rw [mem_completing, hagree, and_comm (a := front.head? = some '/')]
  · intro t ht store
    obtain ⟨c, rfl⟩ := knows_iff.1 (mem_offers_iff.1 (mem_completing.1 ht).1 : Knows store t)
    exact ⟨c.reply, result_step_text store c⟩
  · intro store t hknows hfront hne
    exact mem_completing.2
      ⟨mem_offers_iff.2 hknows, hknows.head?_of_isPrefix hne hfront, hfront⟩

end Session

end Calculator
