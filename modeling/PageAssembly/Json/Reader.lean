import PageAssembly.Decimal.Scaled
import PageAssembly.Json.Value
import PageAssembly.Text.Digits
import PageAssembly.Text.Search

/-!
Reading JSON text. Blanks may stand around every value and sign; of two fields of one name the
later counts.
-/

namespace PageAssembly.Json

def skipBlanks (text : List Char) : List Char :=
  text.dropWhile fun c => c = ' ' || c = '\t' || c = '\n' || c = '\r'

def codeUnit? (a b c d : Char) : Option Nat :=
  Text.valueIn? 16 [a, b, c, d]

def pairedChar? (high low : Nat) : Option Char :=
  if 0xd800 ≤ high ∧ high < 0xdc00 ∧ 0xdc00 ≤ low ∧ low < 0xe000 then
    some (Char.ofNat (0x10000 + (high - 0xd800) * 0x400 + (low - 0xdc00)))
  else
    none

def shortEscape? : Char → Option Char
  | '"' => some '"'
  | '\\' => some '\\'
  | '/' => some '/'
  | 'b' => some '\x08'
  | 'f' => some '\x0c'
  | 'n' => some '\n'
  | 'r' => some '\r'
  | 't' => some '\t'
  | _ => none

def readText : List Char → Option (List Char × List Char)
  | [] => none
  | '"' :: rest => some ([], rest)
  | '\\' :: 'u' :: a :: b :: c :: d :: rest => do
      let unit ← codeUnit? a b c d
      if 0xd800 ≤ unit ∧ unit < 0xe000 then
        match rest with
        | '\\' :: 'u' :: e :: f :: g :: h :: rest => do
            let low ← codeUnit? e f g h
            let char ← pairedChar? unit low
            let (text, rest) ← readText rest
            some (char :: text, rest)
        | _ => none
      else
        let (text, rest) ← readText rest
        some (Char.ofNat unit :: text, rest)
  | '\\' :: sign :: rest => do
      let char ← shortEscape? sign
      let (text, rest) ← readText rest
      some (char :: text, rest)
  | c :: rest => do
      if c.toNat < 0x20 then none
      else
        let (text, rest) ← readText rest
        some (c :: text, rest)

def readWhole (text : List Char) : Option (List Char × List Char) :=
  match text.span Text.isDecimal with
  | ([], _) => none
  | ('0' :: _ :: _, _) => none
  | (digits, rest) => some (digits, rest)

def readFraction (text : List Char) : Option (List Char × List Char) :=
  match text with
  | '.' :: text =>
      match text.span Text.isDecimal with
      | ([], _) => none
      | (digits, rest) => some (digits, rest)
  | text => some ([], text)

def readExponent (text : List Char) : Option (Option Int × List Char) :=
  let ofDigits (negative : Bool) (text : List Char) : Option (Option Int × List Char) :=
    match text.span Text.isDecimal with
    | ([], _) => none
    | (digits, rest) => do
        let size ← Text.valueIn? 10 digits
        some (some (if negative then -(size : Int) else size), rest)
  match text with
  | sign :: text =>
      if sign = 'e' || sign = 'E' then
        match text with
        | '-' :: text => ofDigits true text
        | '+' :: text => ofDigits false text
        | text => ofDigits false text
      else
        some (none, sign :: text)
  | [] => some (none, [])

def digitsOf (text : List Char) : List Nat :=
  text.filterMap Text.digitValue?

/-- A number without point and exponent is whole if it is in range; a negative zero is never whole.
-/
def numberOf? (negative : Bool) (whole fraction : List Char) (exponent : Option Int) :
    Option Number := do
  let asReal : Option Number := do
    let size ← (Scaled.ofDigits (digitsOf whole) (digitsOf fraction) (exponent.getD 0)).toBinary?
    some (.real (if negative then size.negate else size))
  if fraction ≠ [] ∨ exponent.isSome then
    asReal
  else
    let size ← Text.valueIn? 10 whole
    if negative then
      if size = 0 ∨ 0x8000000000000000 < size then asReal else some (.whole (-size))
    else if size < Text.wordLimit then some (.whole size)
    else asReal

def readNumber (text : List Char) : Option (Number × List Char) := do
  let (negative, text) :=
    match text with
    | '-' :: text => (true, text)
    | text => (false, text)
  let (whole, text) ← readWhole text
  let (fraction, text) ← readFraction text
  let (exponent, text) ← readExponent text
  let number ← numberOf? negative whole fraction exponent
  some (number, text)

def readLiteral (literal : String) (value : Json) (text : List Char) :
    Option (Json × List Char) :=
  (Text.after? literal.toList text).map fun rest => (value, rest)

mutual

/-- Each call has one step less to go; twice the length of the text is always enough. -/
def readValue : (steps : Nat) → List Char → Option (Json × List Char)
  | 0, _ => none
  | steps + 1, text =>
      match skipBlanks text with
      | '"' :: rest => do
          let (content, rest) ← readText rest
          some (.string (String.ofList content), rest)
      | '[' :: rest =>
          match skipBlanks rest with
          | ']' :: rest => some (.array [], rest)
          | rest => do
              let (items, rest) ← readItems steps rest
              some (.array items, rest)
      | '\x7b' :: rest =>
          match skipBlanks rest with
          | '\x7d' :: rest => some (.object [], rest)
          | rest => do
              let (fields, rest) ← readFields steps rest
              some (.object (Table.ofList fields), rest)
      | 'n' :: rest => readLiteral "null" .null ('n' :: rest)
      | 't' :: rest => readLiteral "true" (.bool true) ('t' :: rest)
      | 'f' :: rest => readLiteral "false" (.bool false) ('f' :: rest)
      | rest => do
          let (value, rest) ← readNumber rest
          some (.number value, rest)

def readItems : (steps : Nat) → List Char → Option (List Json × List Char)
  | 0, _ => none
  | steps + 1, text => do
      let (item, rest) ← readValue steps text
      match skipBlanks rest with
      | ',' :: rest => do
          let (items, rest) ← readItems steps rest
          some (item :: items, rest)
      | ']' :: rest => some ([item], rest)
      | _ => none

def readFields : (steps : Nat) → List Char → Option (List (String × Json) × List Char)
  | 0, _ => none
  | steps + 1, text =>
      match skipBlanks text with
      | '"' :: rest => do
          let (name, rest) ← readText rest
          match skipBlanks rest with
          | ':' :: rest => do
              let (value, rest) ← readValue steps rest
              match skipBlanks rest with
              | ',' :: rest => do
                  let (fields, rest) ← readFields steps rest
                  some ((String.ofList name, value) :: fields, rest)
              | '\x7d' :: rest => some ([(String.ofList name, value)], rest)
              | _ => none
          | _ => none
      | _ => none

end

def read? (text : List Char) : Option Json := do
  let (value, rest) ← readValue (2 * text.length + 2) text
  if (skipBlanks rest).isEmpty then some value else none

end PageAssembly.Json
