/-!
# Lines and columns of text

Splitting a text into its lines and filling a text to a width.
-/

namespace Scriptlet.Text

/-- Drop one carriage return from the end of a line given in reverse. -/
def dropReturn : List Char → List Char
  | '\r' :: rest => rest
  | cs => cs

/-- The lines of a text whose current line, in reverse, is `acc`.  A line ends at a line feed, with
or without a carriage return before it, and a text that ends with one has no further empty line. -/
def linesFrom (acc : List Char) : List Char → List String
  | [] => if acc.isEmpty then [] else [String.ofList acc.reverse]
  | '\n' :: rest => String.ofList (dropReturn acc).reverse :: linesFrom [] rest
  | c :: rest => linesFrom (c :: acc) rest

/-- The lines of a text, without their ends. -/
def lines (s : String) : List String := linesFrom [] s.toList

/-- As many spaces as asked for. -/
def spaces (n : Nat) : String := String.ofList (List.replicate n ' ')

/-- Fill with spaces on the left up to a width. -/
def padLeft (width : Nat) (s : String) : String := spaces (width - s.length) ++ s

/-- Fill with spaces on the right up to a width. -/
def padRight (width : Nat) (s : String) : String := s ++ spaces (width - s.length)

/-- A number with leading zeros up to a width. -/
def zeroPadded (width n : Nat) : String :=
  let digits := toString n
  String.ofList (List.replicate (width - digits.length) '0') ++ digits

/-- Blank characters: the controls from tab to carriage return, the space and the wider blanks. -/
def isBlank (c : Char) : Bool :=
  let n := c.toNat
  (9 ≤ n && n ≤ 13) || n == 32 || n == 0x85 || n == 0xa0 || n == 0x1680
    || (0x2000 ≤ n && n ≤ 0x200a) || n == 0x2028 || n == 0x2029 || n == 0x202f || n == 0x205f
    || n == 0x3000

/-- Drop the blanks at the end of a text. -/
def trimEnd (s : String) : String := String.ofList (s.toList.reverse.dropWhile isBlank).reverse

end Scriptlet.Text
