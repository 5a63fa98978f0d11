import Scriptlet.Decimal.Numeral
import Scriptlet.Json.Pretty

/-!
# Reading JSON

The reader accepts exactly one value with blanks around it.  Raw controls inside strings, unknown
escapes, numbers with leading zeros and trailing commas are refused.  Together with the writer it is
the codec with which programs are stored (`Codec.plain`).
-/

namespace Scriptlet.Json

/-- The blanks between tokens. -/
def isGap (c : Char) : Bool := c == ' ' || c == '\n' || c == '\t' || c == '\r'

/-- Skip blanks. -/
def skipGaps (cs : List Char) : List Char := cs.dropWhile isGap

/-! ## Strings -/

/-- A character of a string, or the code unit that an escape names. -/
inductive StringPart where
  | char (c : Char)
  | unit (n : Nat)
  deriving Repr, DecidableEq

/-- The value of a hexadecimal digit. -/
def hexValue? (c : Char) : Option Nat :=
  if '0' ≤ c ∧ c ≤ '9' then some (c.toNat - '0'.toNat)
  else if 'a' ≤ c ∧ c ≤ 'f' then some (c.toNat - 'a'.toNat + 10)
  else if 'A' ≤ c ∧ c ≤ 'F' then some (c.toNat - 'A'.toNat + 10)
  else none

/-- The code unit that four hexadecimal digits name. -/
def codeUnit? (a b c d : Char) : Option Nat := do
  return (((← hexValue? a) * 16 + (← hexValue? b)) * 16 + (← hexValue? c)) * 16 + (← hexValue? d)

/-- The character that a letter after a backslash stands for. -/
def escaped? (c : Char) : Option Char :=
  if c = '"' ∨ c = '\\' ∨ c = '/' then some c
  else if c = 'b' then some '\x08'
  else if c = 'f' then some '\x0c'
  else if c = 'n' then some '\n'
  else if c = 'r' then some '\r'
  else if c = 't' then some '\t'
  else none

/-- The parts of a string up to its closing quote, and what follows it. -/
def stringParts? : List Char → Option (List StringPart × List Char)
  | [] => none
  | '"' :: rest => some ([], rest)
  | '\\' :: 'u' :: a :: b :: c :: d :: rest => do
    let n ← codeUnit? a b c d
    let (parts, rest) ← stringParts? rest
    return (.unit n :: parts, rest)
  | '\\' :: e :: rest => do
    let c ← escaped? e
    let (parts, rest) ← stringParts? rest
    return (.char c :: parts, rest)
  | c :: rest =>
    if c.toNat < 32 ∨ c = '\\' then none
    else do
      let (parts, rest) ← stringParts? rest
      return (.char c :: parts, rest)

/-- Whether a code unit is the first half of a pair. -/
def isLeadUnit (n : Nat) : Bool := 0xd800 ≤ n && n < 0xdc00

/-- Whether a code unit is the second half of a pair. -/
def isTrailUnit (n : Nat) : Bool := 0xdc00 ≤ n && n < 0xe000

/-- The characters that the parts of a string stand for; two halves of a pair must follow each
other, both as escapes. -/
def joinParts? : List StringPart → Option (List Char)
  | [] => some []
  | .char c :: rest => (joinParts? rest).map (c :: ·)
  | .unit n :: .unit m :: rest =>
    if isLeadUnit n then
      if isTrailUnit m then
        (joinParts? rest).map (Char.ofNat ((n - 0xd800) * 0x400 + (m - 0xdc00) + 0x10000) :: ·)
      else none
    else if isTrailUnit n then none
    else (joinParts? (.unit m :: rest)).map (Char.ofNat n :: ·)
  | .unit n :: rest =>
    if isLeadUnit n || isTrailUnit n then none else (joinParts? rest).map (Char.ofNat n :: ·)

/-- A string behind its opening quote: its text, if it has one, and what follows the string. -/
def stringValue? (cs : List Char) : Option (Option String × List Char) :=
  (stringParts? cs).map fun (parts, rest) => ((joinParts? parts).map String.ofList, rest)

/-! ## Numbers -/

/-- Digits without a leading zero, unless zero is the only digit. -/
def wholeDigits? (cs : List Char) : Option (List Char × List Char) :=
  match cs with
  | '0' :: rest => some (['0'], rest)
  | _ =>
    let (digits, rest) := Numeral.splitDigits cs
    if digits.isEmpty then none else some (digits, rest)

/-- A point and at least one digit, or nothing. -/
def fractionPart? (cs : List Char) : Option (List Char × List Char) :=
  match cs with
  | '.' :: rest =>
    let (digits, rest) := Numeral.splitDigits rest
    if digits.isEmpty then none else some ('.' :: digits, rest)
  | _ => some ([], cs)

/-- The sign of an exponent as it is written, or nothing. -/
def exponentSign : List Char → List Char × List Char
  | '+' :: rest => (['+'], rest)
  | '-' :: rest => (['-'], rest)
  | cs => ([], cs)

/-- An exponent with at least one digit, or nothing. -/
def exponentPart? (cs : List Char) : Option (List Char × List Char) :=
  match cs with
  | c :: rest =>
    if c = 'e' ∨ c = 'E' then
      let (sign, rest) := exponentSign rest
      let (digits, rest) := Numeral.splitDigits rest
      if digits.isEmpty then none else some (c :: sign ++ digits, rest)
    else some ([], cs)
  | [] => some ([], cs)

/-- A number as it is written, and what follows it. -/
def numberLexeme? (cs : List Char) : Option (List Char × List Char) := do
  let (sign, cs) := match cs with
    | '-' :: rest => (['-'], rest)
    | _ => ([], cs)
  let (whole, cs) ← wholeDigits? cs
  let (fraction, cs) ← fractionPart? cs
  let (exponent, cs) ← exponentPart? cs
  return (sign ++ whole ++ fraction ++ exponent, cs)

/-- The numeral that a written number stands for. -/
def numeral? (lexeme : String) : Option Numeral :=
  let (negative, cs) := Numeral.splitSign lexeme.toList
  Numeral.readUnsigned? negative cs

/-- The whole number that is written, if it fits; a zero with a minus sign is none. -/
def wholeNumber? (lexeme : String) : Option Int :=
  let (negative, digits) := Numeral.splitSign lexeme.toList
  let n : Int := if negative then -(Numeral.ofDigits digits : Int) else Numeral.ofDigits digits
  if lexeme ≠ "-0" ∧ digits ≠ [] ∧ digits.all Char.isDigit ∧ Number.Fits n then some n else none

/-- The number that is written: a whole one if it is written as one and fits, and otherwise the
nearest floating point number, if that is finite. -/
def Number.ofLexeme? (lexeme : String) : Option Number :=
  match wholeNumber? lexeme with
  | some n => some (.whole n)
  | none =>
    match numeral? lexeme with
    | some n => if n.bits < Binary64.infinityBits then some (.float n.toFloat) else none
    | none => none

/-! ## Values -/

/-- What follows a given word, if the text starts with it. -/
def afterWord? (word : String) (cs : List Char) : Option (List Char) :=
  if word.toList.isPrefixOf cs then some (cs.drop word.toList.length) else none

mutual

/-- A value that starts where the text does, and what follows it. -/
def value? (depth : Nat) (cs : List Char) : Option (Json × List Char) :=
  match depth with
  | 0 => none
  | depth + 1 =>
    match cs with
    | 'n' :: _ => (afterWord? "null" cs).map fun rest => (null, rest)
    | 't' :: _ => (afterWord? "true" cs).map fun rest => (bool true, rest)
    | 'f' :: _ => (afterWord? "false" cs).map fun rest => (bool false, rest)
    | '"' :: rest => (stringValue? rest).map fun (text, rest) => (string text, rest)
    | '[' :: rest =>
      match skipGaps rest with
      | ']' :: rest => some (array [], rest)
      | rest => (items? depth rest).map fun (items, rest) => (array items, rest)
    | '\x7b' :: rest =>
      match skipGaps rest with
      | '\x7d' :: rest => some (object [], rest)
      | rest => (members? depth rest).map fun (members, rest) => (object members, rest)
    | _ => (numberLexeme? cs).map fun (lexeme, rest) =>
      (number (Number.ofLexeme? (String.ofList lexeme)), rest)

/-- The items of an array up to its closing bracket. -/
def items? (depth : Nat) (cs : List Char) : Option (List Json × List Char) :=
  match depth with
  | 0 => none
  | depth + 1 => do
    let (item, rest) ← value? depth cs
    match skipGaps rest with
    | ',' :: rest =>
      let (items, rest) ← items? depth (skipGaps rest)
      return (item :: items, rest)
    | ']' :: rest => return ([item], rest)
    | _ => none

/-- The members of an object up to its closing brace. -/
def members? (depth : Nat) (cs : List Char) :
    Option (List (Option String × Json) × List Char) :=
  match depth with
  | 0 => none
  | depth + 1 =>
    match cs with
    | '"' :: rest => do
      let (key, rest) ← stringValue? rest
      match skipGaps rest with
      | ':' :: rest =>
        let (value, rest) ← value? depth (skipGaps rest)
        match skipGaps rest with
        | ',' :: rest =>
          let (members, rest) ← members? depth (skipGaps rest)
          return ((key, value) :: members, rest)
        | '\x7d' :: rest => return ([(key, value)], rest)
        | _ => none
      | _ => none
    | _ => none

end

/-- The value that a whole text stands for. -/
def read? (text : String) : Option Json :=
  let cs := skipGaps text.toList
  match value? (2 * (cs.length + 1)) cs with
  | some (value, rest) => if (skipGaps rest).isEmpty then some value else none
  | none => none

/-- The codec of this library. -/
def Codec.plain : Codec := ⟨pretty 0, Json.read?⟩

end Scriptlet.Json
