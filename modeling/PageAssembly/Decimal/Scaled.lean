import PageAssembly.Decimal.Binary64

/-!
Decimal numbers with a significand of 64 bits. They become binary in two roundings: the significand
is rounded first, and then its product or quotient with a power of ten. For few digits and small
exponents this gives the nearest number, but not always.
-/

namespace PageAssembly

/-- The size of a number: the significand times a power of ten. -/
structure Scaled where
  significand : Nat
  exponent : Int
deriving DecidableEq

namespace Scaled

def next? (significand digit : Nat) : Option Nat :=
  let next := significand * 10 + digit
  if next < Text.wordLimit then some next else none

/-- Digits before the point. From the first that has no room on they only count. -/
def addWhole (kept : Scaled) : List Nat → Scaled
  | [] => kept
  | digit :: digits =>
      match next? kept.significand digit with
      | some significand => addWhole { kept with significand } digits
      | none => { kept with exponent := kept.exponent + (digits.length + 1) }

def addFraction (kept : Scaled) : List Nat → Scaled
  | [] => kept
  | digit :: digits =>
      match next? kept.significand digit with
      | some significand => addFraction ⟨significand, kept.exponent - 1⟩ digits
      | none => kept

def ofDigits (whole fraction : List Nat) (exponent : Int) : Scaled :=
  let kept := (addWhole ⟨0, 0⟩ whole).addFraction fraction
  { kept with exponent := kept.exponent + exponent }

def maxPower : Nat := 308

def tenTo? (power : Nat) : Option Binary64 :=
  Binary64.ofRatio? (Nat.pow 10 power) 1

/-- Multiplies the size of a number by a power of ten, which is rounded itself. -/
def raise? (x : Binary64) (power : Nat) : Option Binary64 := do
  let ten ← tenTo? power
  Binary64.ofRatio? (x.ratio.1 * ten.ratio.1) (x.ratio.2 * ten.ratio.2)

def lower? (x : Binary64) (power : Nat) : Option Binary64 := do
  let ten ← tenTo? power
  Binary64.ofRatio? (x.ratio.1 * ten.ratio.2) (x.ratio.2 * ten.ratio.1)

/-- Divisions by powers above the largest are done in parts. -/
def lowerAll? (x : Binary64) (power : Nat) : Option Binary64 :=
  if _ : power ≤ maxPower then
    lower? x power
  else if x.isZero then
    some x
  else do
    let x ← lower? x maxPower
    lowerAll? x (power - maxPower)
termination_by power
decreasing_by
  simp only [maxPower] at *
  omega

def toBinary? (number : Scaled) : Option Binary64 := do
  let x ← Binary64.ofRatio? number.significand 1
  match number.exponent with
  | .ofNat power =>
      if power ≤ maxPower then raise? x power
      else if x.isZero then some x
      else none
  | .negSucc power => lowerAll? x (power + 1)

end Scaled

end PageAssembly
