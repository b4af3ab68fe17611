/-!
Whole numbers in positional notation.
-/

namespace PageAssembly.Text

def digitChar (digit : Nat) : Char :=
  if digit < 10 then Char.ofNat ('0'.toNat + digit) else Char.ofNat ('a'.toNat + (digit - 10))

def digitValue? (c : Char) : Option Nat :=
  if '0' ≤ c ∧ c ≤ '9' then some (c.toNat - '0'.toNat)
  else if 'a' ≤ c ∧ c ≤ 'f' then some (c.toNat - 'a'.toNat + 10)
  else if 'A' ≤ c ∧ c ≤ 'F' then some (c.toNat - 'A'.toNat + 10)
  else none

def isDecimal (c : Char) : Bool :=
  '0' ≤ c && c ≤ '9'

def wordLimit : Nat := 0x10000000000000000

/-- Zero is one digit; no other number starts with one. -/
def digitsIn (base : Nat) (enough : 1 < base) (value : Nat) : List Char :=
  if value < base then
    [digitChar value]
  else
    digitsIn base enough (value / base) ++ [digitChar (value % base)]
termination_by value
decreasing_by
  exact Nat.div_lt_self (by omega) enough

def decimal (value : Nat) : List Char :=
  digitsIn 10 (by decide) value

def hexadecimal (value : Nat) : List Char :=
  digitsIn 16 (by decide) value

def integer (value : Int) : List Char :=
  match value with
  | .ofNat size => decimal size
  | .negSucc size => '-' :: decimal (size + 1)

def decimalString (value : Nat) : String :=
  String.ofList (decimal value)

def valueIn? (base : Nat) (digits : List Char) : Option Nat :=
  digits.foldlM (fun value c => do
    let digit ← digitValue? c
    if digit < base then some (value * base + digit) else none) 0

def hexByte (byte : UInt8) : List Char :=
  [digitChar (byte.toNat / 16), digitChar (byte.toNat % 16)]

end PageAssembly.Text
