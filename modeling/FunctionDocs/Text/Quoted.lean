import FunctionDocs.Text.Basic
import FunctionDocs.Text.Printable

/-!
# Quoted texts

The quoted form of a text: single quotes, or double quotes if the text holds single quotes only. A backslash and the quote are
escaped, and characters without a printed form are written by number.
-/

namespace FunctionDocs.Text

def hexDigit (n : Nat) : Char := Char.ofNat (if n < 10 then 48 + n else 87 + n)

/-- A number in `width` hexadecimal digits. -/
def hexOf : Nat → Nat → Text
  | 0, _ => []
  | width + 1, n => hexOf width (n / 16) ++ [hexDigit (n % 16)]

def quotedChar (quote c : Char) : Text :=
  if c == quote || c == '\\' then ['\\', c]
  else if c == '\n' then "\\n"
  else if c == '\r' then "\\r"
  else if c == '\t' then "\\t"
  else if isPrintable c then [c]
  else if c.toNat < 256 then "\\x" ++ hexOf 2 c.toNat
  else if c.toNat < 65536 then "\\u" ++ hexOf 4 c.toNat
  else "\\U" ++ hexOf 8 c.toNat

def quoted (t : Text) : Text :=
  let quote := if List.elem '\'' t && !List.elem '"' t then '"' else '\''
  quote :: (t.flatMap (quotedChar quote) ++ [quote])

def quotedList (ts : List Text) : Text := "[" ++ joinWith ", " (ts.map quoted) ++ "]"

end FunctionDocs.Text
