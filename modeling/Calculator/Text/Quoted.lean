/-
  Text between double quotes.

  1. `escape` — a double quote, a backslash and the control characters of ASCII are written as a
     backslash with something behind it: the character itself, a letter, or the code point.  Every other
     character stands for itself.
  2. `quoted` — the escaped text between two double quotes.

  This is the form of all texts of ASCII characters.  Beyond ASCII there are more characters that would
  be written by their code points, but no such text is quoted: a session quotes texts with the shape of
  an expression only, in which nothing is escaped at all (`Session.quoted_of_mem_events`), and apart from
  that one fixed text is quoted.
-/
import Calculator.Text

namespace Calculator.Text

/-- A character by its code point, in lower-case hexadecimal digits. -/
def codePoint (c : Char) : Text := ['\\', 'u', '\x7b'] ++ Nat.toDigits 16 c.toNat ++ ['\x7d']

/-- A character as it is written between double quotes. -/
def escape : Char → Text
  | '\x00' => ['\\', '0']
  | '\t' => ['\\', 't']
  | '\r' => ['\\', 'r']
  | '\n' => ['\\', 'n']
  | '"' => ['\\', '"']
  | '\\' => ['\\', '\\']
  | c => if c.toNat < 0x20 ∨ c.toNat = 0x7f then codePoint c else [c]

/-- A text between double quotes. -/
def quoted (t : Text) : Text := '"' :: t.flatMap escape ++ ['"']

/-- The graphic characters of ASCII stand for themselves, two of them apart. -/
theorem escape_eq_self {c : Char} (hlow : 0x20 ≤ c.toNat) (hhigh : c.toNat < 0x7f) (hquote : c ≠ '"')
    (hbackslash : c ≠ '\\') : escape c = [c] := by
  unfold escape
  split
  · exact absurd hlow (by decide)
  · exact absurd hlow (by decide)
  · exact absurd hlow (by decide)
  · exact absurd hlow (by decide)
  · exact absurd rfl hquote
  · exact absurd rfl hbackslash
  · exact if_neg (by omega)

/-- A text in which every character stands for itself is put between the quotes as it is. -/
theorem quoted_eq_self {t : Text} (h : ∀ c ∈ t, escape c = [c]) : quoted t = '"' :: t ++ ['"'] := by
  have hflat : t.flatMap escape = t := by
    induction t with
    | nil => rfl
    | cons c t ih =>
      rw [List.flatMap_cons, h c (List.mem_cons_self ..), ih fun d hd => h d (List.mem_cons_of_mem _ hd)]
      rfl
  rw [quoted, hflat]

example : quoted ['a', '"', '\x1b'] = "\"a\\\"\\u\x7b1b\x7d\"".toList := by decide

end Calculator.Text
