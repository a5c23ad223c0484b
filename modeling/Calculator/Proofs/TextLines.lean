/-
  The lines of a text.

  1. Bytes are one text at most, whose bytes they are (`decode?_eq_some_iff`).
  2. A byte below 128 in the code of a character is all of the code (`utf8EncodeChar_of_mem`).  So a line
     feed among the bytes of a text is a line feed of the text (`lineFeed_mem_encode_iff`), and a carriage
     return at their end is the last character (`dropReturn_encode`).
  3. A text on a line of its own is read as the text without a carriage return at its end
     (`lines_encode_onLine_append`, `lines_encode_flatMap_onLine`).
  4. A text is therefore cut into texts (`exists_lines_encode`).  Other bytes are cut into texts up to
     some line, the first that is not text (`exists_texts_append`).
-/
import Calculator.Proofs.Cut

namespace Calculator

/-- The text without a carriage return at its end; one before that stays. -/
def Text.dropReturn (t : Text) : Text := if t.getLast? = some '\r' then t.dropLast else t

theorem Text.dropReturn_of_getLast?_ne {t : Text} (h : t.getLast? ≠ some '\r') : t.dropReturn = t :=
  if_neg h

theorem Text.dropReturn_concat (t : Text) : dropReturn (t ++ ['\r']) = t := by
  rw [dropReturn, if_pos List.getLast?_concat, List.dropLast_concat]

theorem Text.dropReturn_concat_of_ne {c : Char} (h : c ≠ '\r') (t : Text) :
    dropReturn (t ++ [c]) = t ++ [c] := by
  refine dropReturn_of_getLast?_ne ?_
  rw [List.getLast?_concat]
  exact fun hreturn => h (Option.some.inj hreturn)

namespace Bytes

/-! ## Texts and their bytes -/

theorem decode?_eq_some_iff {bytes : Bytes} {t : Text} : decode? bytes = some t ↔ bytes = encode t := by
  constructor
  · intro h
    obtain ⟨chars, hchars, rfl⟩ := Option.map_eq_some_iff.1 h
    have hsome : bytes.toByteArray.utf8Decode?.isSome := by rw [hchars]; rfl
    have hget : bytes.toByteArray.utf8Decode?.get hsome = chars := Option.get_of_eq_some hsome hchars
    have hbytes : chars.toList.utf8Encode = bytes.toByteArray := by
      rw [← hget]
      exact ByteArray.utf8Encode_get_utf8Decode?
    exact (List.toByteArray_inj.1 hbytes).symm
  · rintro rfl
    exact decode?_encode t

theorem encode_append (t u : Text) : encode (t ++ u) = encode t ++ encode u := List.flatMap_append

theorem encode_cons (c : Char) (t : Text) : encode (c :: t) = String.utf8EncodeChar c ++ encode t :=
  List.flatMap_cons

/-! ## The bytes that end lines -/

/-- The code of a character has several bytes only if all of them are at least 128. -/
theorem utf8EncodeChar_of_mem {c : Char} {b : UInt8} (hb : b ∈ String.utf8EncodeChar c)
    (hlt : b.toNat < 128) : String.utf8EncodeChar c = [b] ∧ c.toNat = b.toNat := by
  have hbyte : ∀ n : Nat, (UInt8.ofNat n).toNat = n % 256 := fun _ => rfl
  unfold String.utf8EncodeChar at hb ⊢
  by_cases hsmall : c.val.toNat ≤ 127
  · rw [if_pos hsmall] at hb ⊢
    obtain rfl := List.mem_singleton.1 hb
    refine ⟨rfl, ?_⟩
    rw [hbyte]
    show c.val.toNat = _
    omega
  · rw [if_neg hsmall] at hb
    have hlarge : 128 ≤ b.toNat := by
      -- codes of two, three and four bytes
      split at hb
      · simp only [List.mem_cons, List.not_mem_nil, or_false] at hb
        rcases hb with rfl | rfl <;> rw [hbyte] <;> omega
      · split at hb
        · simp only [List.mem_cons, List.not_mem_nil, or_false] at hb
          rcases hb with rfl | rfl | rfl <;> rw [hbyte] <;> omega
        · simp only [List.mem_cons, List.not_mem_nil, or_false] at hb
          rcases hb with rfl | rfl | rfl | rfl <;> rw [hbyte] <;> omega
    omega

/-- A line feed among the bytes of a text is one of its characters. -/
theorem lineFeed_mem_encode_iff {t : Text} : lineFeed ∈ encode t ↔ '\n' ∈ t := by
  constructor
  · intro h
    obtain ⟨c, hc, hmem⟩ := List.mem_flatMap.1 h
    have hnat : c.toNat = 10 := (utf8EncodeChar_of_mem hmem (by decide)).2
    have hchar : c = '\n' := Char.toNat_inj.1 hnat
    rwa [hchar] at hc
  · intro h
    exact List.mem_flatMap.2 ⟨'\n', h, List.mem_singleton_self _⟩

/-- A carriage return at the end of a text is its last character. -/
theorem dropReturn_encode (t : Text) : dropReturn (encode t) = encode t.dropReturn := by
  rcases List.eq_nil_or_concat t with rfl | ⟨u, c, rfl⟩
  · rfl
  · have hencode : encode (u.concat c) = encode u ++ String.utf8EncodeChar c := by
      rw [List.concat_eq_append, encode_append, encode_cons]
      exact congrArg _ (List.append_nil _)
    have hlast : (encode (u.concat c)).getLast? = (String.utf8EncodeChar c).getLast? := by
      rw [hencode, List.getLast?_append_of_ne_nil _ String.utf8EncodeChar_ne_nil]
    by_cases hc : c = '\r'
    · subst hc
      have hreturn : encode (u.concat '\r') = encode u ++ [carriageReturn] := hencode
      rw [dropReturn, if_pos (by rw [hlast]; rfl), hreturn, List.dropLast_concat,
        List.concat_eq_append, Text.dropReturn_concat]
    · have hbyte : (encode (u.concat c)).getLast? ≠ some carriageReturn := by
        intro hreturn
        rw [hlast] at hreturn
        have hnat := (utf8EncodeChar_of_mem (List.mem_of_getLast? hreturn) (by decide)).2
        exact hc (Char.toNat_inj.1 hnat)
      rw [dropReturn, if_neg hbyte, List.concat_eq_append, Text.dropReturn_concat_of_ne hc]

/-! ## Lines of text -/

theorem encode_onLine_append (t u : Text) : encode (t.onLine ++ u) = encode t ++ lineFeed :: encode u := by
  rw [Text.onLine, List.append_assoc, encode_append, List.singleton_append, encode_cons]
  rfl

/-- A text on a line of its own is the first line. -/
theorem lines_encode_onLine_append {t : Text} (h : '\n' ∉ t) (u : Text) :
    lines (encode (t.onLine ++ u)) = encode t.dropReturn :: lines (encode u) := by
  have hnone : lineFeed ∉ encode t := fun hmem => h (lineFeed_mem_encode_iff.1 hmem)
  rw [encode_onLine_append, lines_append_cons hnone, dropReturn_encode]

/-- Texts on lines of their own are all the lines. -/
theorem lines_encode_flatMap_onLine {ts : List Text} (h : ∀ t ∈ ts, '\n' ∉ t) :
    lines (encode (ts.flatMap Text.onLine)) = (ts.map Text.dropReturn).map encode := by
  induction ts with
  | nil => rfl
  | cons t ts ih =>
    rw [List.flatMap_cons, lines_encode_onLine_append (h t (List.mem_cons_self ..)),
      ih fun u hu => h u (List.mem_cons_of_mem t hu)]
    rfl

/-- The lines of a text are texts. -/
theorem exists_lines_encode (t : Text) : ∃ ts : List Text, lines (encode t) = ts.map encode := by
  -- from each line feed of the text to the next
  induction hlength : t.length using Nat.strongRecOn generalizing t with
  | ind n ih =>
    by_cases hmem : '\n' ∈ t
    · obtain ⟨first, rest, rfl, hfirst⟩ := List.eq_append_cons_of_mem hmem
      obtain ⟨ts, hts⟩ := ih rest.length (by
        rw [← hlength, List.length_append, List.length_cons]
        omega) rest rfl
      have hline : first ++ '\n' :: rest = Text.onLine first ++ rest := by
        rw [Text.onLine, List.append_assoc, List.singleton_append]
      refine ⟨Text.dropReturn first :: ts, ?_⟩
      rw [hline, lines_encode_onLine_append hfirst, hts]
      rfl
    · have hnone : lineFeed ∉ encode t := fun h => hmem (lineFeed_mem_encode_iff.1 h)
      by_cases hne : encode t = []
      · exact ⟨[], by rw [hne]; rfl⟩
      · exact ⟨[t], lines_of_notMem hnone hne⟩

/-- No line holds the character that ends lines. -/
theorem newline_notMem_of_encode_mem_lines {bytes : Bytes} {t : Text} (h : encode t ∈ lines bytes) :
    '\n' ∉ t :=
  fun hmem => lineFeed_notMem_of_mem_lines h (lineFeed_mem_encode_iff.2 hmem)

/-- Lines are texts up to the first that is not. -/
theorem exists_texts_append (ls : List Bytes) :
    ∃ (ts : List Text) (rest : List Bytes), ls = ts.map encode ++ rest ∧
      ∀ line ∈ rest.head?, decode? line = none := by
  induction ls with
  | nil => exact ⟨[], [], rfl, nofun⟩
  | cons line ls ih =>
    cases hline : decode? line with
    | none =>
      refine ⟨[], line :: ls, rfl, ?_⟩
      intro first hfirst
      cases hfirst
      exact hline
    | some t =>
      obtain ⟨ts, rest, rfl, hrest⟩ := ih
      refine ⟨t :: ts, rest, ?_, hrest⟩
      rw [decode?_eq_some_iff.1 hline]
      rfl

end Bytes

end Calculator
