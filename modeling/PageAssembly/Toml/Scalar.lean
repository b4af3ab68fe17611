import PageAssembly.Decimal.Binary64
import PageAssembly.Text.Search
import PageAssembly.Toml.Basic

/-!
Numbers, moments in time and the two truth values. Digits of numbers can have single underscores
between them.
-/

namespace PageAssembly.Toml

/-- Digits of one base with underscores between them, which are left out. -/
def spanDigits (isDigit : Char → Bool) : List Char → List Char × List Char
  | '_' :: c :: rest =>
      if isDigit c then
        let (digits, later) := spanDigits isDigit rest
        (c :: digits, later)
      else
        ([], '_' :: c :: rest)
  | c :: rest =>
      if isDigit c then
        let (digits, later) := spanDigits isDigit rest
        (c :: digits, later)
      else
        ([], c :: rest)
  | [] => ([], [])

def readDigits (isDigit : Char → Bool) : List Char → Option (List Char × List Char)
  | c :: rest =>
      if isDigit c then
        let (digits, later) := spanDigits isDigit rest
        some (c :: digits, later)
      else
        none
  | [] => none

def readSign : List Char → Bool × List Char
  | '-' :: rest => (true, rest)
  | '+' :: rest => (false, rest)
  | text => (false, text)

def readDecimal : List Char → Option (List Char × List Char)
  | '0' :: rest => some (['0'], rest)
  | text => readDigits Text.isDecimal text

def inRange (value : Int) : Bool :=
  -0x8000000000000000 ≤ value && value < 0x8000000000000000

def wholeOf? (base : Nat) (negative : Bool) (digits : List Char) : Option Toml := do
  let size ← Text.valueIn? base digits
  let value : Int := if negative then -size else size
  if inRange value then some (.whole value) else none

def isDigitIn (base : Nat) (c : Char) : Bool :=
  match Text.digitValue? c with
  | some digit => digit < base
  | none => false

def readWholeIn (base : Nat) (text : List Char) : Option (Toml × List Char) := do
  let (digits, rest) ← readDigits (isDigitIn base) text
  let value ← wholeOf? base false digits
  some (value, rest)

/-- Only decimal numbers have a sign. -/
def readWhole : List Char → Option (Toml × List Char)
  | '0' :: 'x' :: rest => readWholeIn 16 rest
  | '0' :: 'o' :: rest => readWholeIn 8 rest
  | '0' :: 'b' :: rest => readWholeIn 2 rest
  | text => do
      let (negative, text) := readSign text
      let (digits, rest) ← readDecimal text
      let value ← wholeOf? 10 negative digits
      some (value, rest)

def spellingOf (text rest : List Char) : String :=
  String.ofList (text.take (text.length - rest.length))

def readExponent : List Char → Option (Int × List Char)
  | sign :: rest =>
      if sign = 'e' ∨ sign = 'E' then do
        let (negative, rest) := readSign rest
        let (digits, rest) ← readDigits Text.isDecimal rest
        let size ← Text.valueIn? 10 digits
        some (if negative then -size else size, rest)
      else
        none
  | [] => none

def readTail : List Char → Option (List Char × Int × List Char)
  | '.' :: rest => do
      let (fraction, rest) ← readDigits Text.isDecimal rest
      match readExponent rest with
      | some (exponent, rest) => some (fraction, exponent, rest)
      | none => some (fraction, 0, rest)
  | text => do
      let (exponent, rest) ← readExponent text
      some ([], exponent, rest)

/-- Numbers that are too large are refused, unless they are negative. -/
def readFinite (text : List Char) : Option (Toml × List Char) := do
  let (negative, unsigned) := readSign text
  let (digits, rest) ← readDecimal unsigned
  let (fraction, exponent, rest) ← readTail rest
  let size ← Text.valueIn? 10 (digits ++ fraction)
  if negative ∨ (Binary64.ofDecimal? size (exponent - fraction.length)).isSome then
    some (.real (spellingOf text rest), rest)
  else
    none

def readSpecial (text : List Char) : Option (Toml × List Char) := do
  let (_, unsigned) := readSign text
  let rest ← Text.after? ['i', 'n', 'f'] unsigned <|> Text.after? ['n', 'a', 'n'] unsigned
  some (.real (spellingOf text rest), rest)

def readPart (count least most : Nat) (text : List Char) : Option (Nat × List Char) := do
  let digits := text.take count
  if digits.length = count ∧ digits.all Text.isDecimal then
    let value ← Text.valueIn? 10 digits
    if least ≤ value ∧ value ≤ most then some (value, text.drop count) else none
  else
    none

def isLeapYear (year : Nat) : Bool :=
  year % 4 = 0 && (year % 100 ≠ 0 || year % 400 = 0)

def daysIn (year month : Nat) : Nat :=
  if month = 2 then if isLeapYear year then 29 else 28
  else if month ∈ [4, 6, 9, 11] then 30
  else 31

def afterDate? (text : List Char) : Option (List Char) := do
  let (year, text) ← readPart 4 0 9999 text
  let text ← Text.after? ['-'] text
  let (month, text) ← readPart 2 1 12 text
  let text ← Text.after? ['-'] text
  let (_, text) ← readPart 2 1 (daysIn year month) text
  some text

def afterMinutes? (text : List Char) : Option (List Char) := do
  let (_, text) ← readPart 2 0 23 text
  let text ← Text.after? [':'] text
  let (_, text) ← readPart 2 0 59 text
  some text

/-- Seconds can have a fraction, and there can be a leap second. -/
def afterTime? (text : List Char) : Option (List Char) := do
  let text ← afterMinutes? text
  let text ← Text.after? [':'] text
  let (_, text) ← readPart 2 0 60 text
  match text with
  | '.' :: c :: rest =>
      if Text.isDecimal c then some (rest.dropWhile Text.isDecimal) else some text
  | text => some text

def afterZone? : List Char → Option (List Char)
  | c :: rest =>
      if c = 'Z' ∨ c = 'z' then some rest
      else if c = '+' ∨ c = '-' then afterMinutes? rest
      else none
  | [] => none

def afterTimeOfDate? : List Char → Option (List Char)
  | c :: rest =>
      if c = 'T' ∨ c = 't' ∨ c = ' ' then do
        let rest ← afterTime? rest
        some ((afterZone? rest).getD rest)
      else
        none
  | [] => none

def readMoment (text : List Char) : Option (Toml × List Char) := do
  let rest ←
    match afterDate? text with
    | some rest => some ((afterTimeOfDate? rest).getD rest)
    | none => afterTime? text
  some (.moment (spellingOf text rest), rest)

def readTruth (text : List Char) : Option (Toml × List Char) :=
  match Text.after? ['t', 'r', 'u', 'e'] text, Text.after? ['f', 'a', 'l', 's', 'e'] text with
  | some rest, _ => some (.truth true, rest)
  | none, some rest => some (.truth false, rest)
  | none, none => none

def readScalar (text : List Char) : Option (Toml × List Char) :=
  readTruth text <|> readMoment text <|> readFinite text <|> readSpecial text <|> readWhole text

end PageAssembly.Toml
