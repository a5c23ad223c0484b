/-
  Text as bytes, and bytes as lines.

  1. `encode` and `decode?` — UTF-8.  Not all bytes are text, but every text has bytes, from which it
     is read again (`decode?_encode`).
  2. `lines` — bytes are cut into lines at the line feeds.  The last line may lack its line feed, but
     then it must not be empty.  A carriage return directly before a line feed belongs to the end of
     the line; any other is part of it.
  3. Lines are bytes still, so that one line which is not text spoils no other.
-/
import Calculator.Text

namespace Calculator

/-- A sequence of bytes. -/
abbrev Bytes := List UInt8

namespace Bytes

/-! ## UTF-8 -/

/-- The bytes of a text. -/
def encode (t : Text) : Bytes := t.flatMap String.utf8EncodeChar

/-- The text that bytes are, if they are any. -/
def decode? (bytes : Bytes) : Option Text := bytes.toByteArray.utf8Decode?.map Array.toList

@[simp] theorem decode?_encode (t : Text) : decode? (encode t) = some t := by
  have : (encode t).toByteArray = t.utf8Encode := rfl
  simp [decode?, this, List.utf8Decode?_utf8Encode]

/-! ## Lines -/

/-- The byte that ends a line. -/
def lineFeed : UInt8 := 10

/-- The byte that may stand before the end of a line. -/
def carriageReturn : UInt8 := 13

/-- Puts a byte in front of the first of some lines. -/
def prepend (b : UInt8) : List Bytes → List Bytes
  | [] => [[b]]
  | line :: lines => (b :: line) :: lines

/-- The lines of bytes, without their ends. -/
def lines : Bytes → List Bytes
  | [] => []
  | b :: bytes =>
    if b = lineFeed then [] :: lines bytes
    else if b = carriageReturn ∧ bytes.head? = some lineFeed then lines bytes
    else prepend b (lines bytes)

@[simp] theorem lines_lineFeed (bytes : Bytes) : lines (lineFeed :: bytes) = [] :: lines bytes := by
  simp [lines]

example : lines [49, 13, 10, 10, 13, 50, 13] = [[49], [], [13, 50, 13]] := by decide

end Bytes

end Calculator
