import Scriptlet.Text.Printable

/-!
# Characters and texts with escapes

Two ways to show text that may hold anything: `shownChar` for a single offending character in a
message, and `quoted` for a whole text between double quotes.
-/

namespace Scriptlet.Text

/-- The digits of a number in base sixteen, in lower case and without leading zeros. -/
def hexDigits (n : Nat) : String := String.ofList (Nat.toDigits 16 n)

/-- A code point written as a backslash, the letter `u` and its hexadecimal digits in braces. -/
def codePointEscape (c : Char) : String := "\\u\x7b" ++ hexDigits c.toNat ++ "\x7d"

/-- A single character as a message shows it: printable ASCII as itself, with both quotes and the
backslash escaped, and everything outside printable ASCII by an escape. -/
def shownChar (c : Char) : String :=
  if c = '\t' then "\\t"
  else if c = '\r' then "\\r"
  else if c = '\n' then "\\n"
  else if c = '\x27' then "\\\x27"
  else if c = '"' then "\\\""
  else if c = '\\' then "\\\\"
  else if 32 ≤ c.toNat ∧ c.toNat < 127 then c.toString
  else codePointEscape c

/-- A character inside a quoted text: the double quote, the backslash and four controls have short
escapes, a printable character stands for itself, and any other is written by its code point. -/
def quotedChar (c : Char) : String :=
  if c = '\x00' then "\\0"
  else if c = '\t' then "\\t"
  else if c = '\r' then "\\r"
  else if c = '\n' then "\\n"
  else if c = '"' then "\\\""
  else if c = '\\' then "\\\\"
  else if isPrintable c then c.toString
  else codePointEscape c

/-- A text between double quotes, with every character that needs it escaped. -/
def quoted (s : String) : String :=
  "\"" ++ String.join (s.toList.map quotedChar) ++ "\""

end Scriptlet.Text
