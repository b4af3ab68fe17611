import PageAssembly.Text.Digits

/-!
Binary numbers of 64 bits and their decimal texts. Reading takes the nearest number, a half going to
the even one. Writing takes the fewest digits that read back, and of those the nearest; everything
is decided in whole numbers.
-/

namespace PageAssembly

/-- A number by its sign bit, eleven bits of exponent and 52 of fraction; infinities and what is no
number do not occur. -/
structure Binary64 where
  bits : UInt64
deriving DecidableEq

namespace Binary64

def isNegative (x : Binary64) : Bool :=
  x.bits >>> 63 == 1

def isZero (x : Binary64) : Bool :=
  x.bits &&& 0x7fffffffffffffff == 0

def negate (x : Binary64) : Binary64 :=
  ⟨x.bits ^^^ 0x8000000000000000⟩

def leadingBit : Nat := 0x10000000000000

def parts (x : Binary64) : Nat × Int :=
  let exponent := ((x.bits >>> 52) &&& 0x7ff).toNat
  let fraction := (x.bits &&& 0xfffffffffffff).toNat
  if exponent = 0 then (fraction, -1074) else (fraction + leadingBit, exponent - 1075)

def ratio (x : Binary64) : Nat × Nat :=
  let (significand, exponent) := x.parts
  (significand * Nat.pow 2 exponent.toNat, Nat.pow 2 (-exponent).toNat)

/-- The lower neighbour of a power of two is at half the distance of the upper one, unless both are
subnormal. -/
def nearBelow (x : Binary64) : Bool :=
  (x.bits &&& 0xfffffffffffff) == 0 && ((x.bits >>> 52) &&& 0x7ff) > 1

/-- The multiple of `10 ^ scale` that reads back as `x` and is nearest to it; of two as near, the
even one. -/
def onGrid? (x : Binary64) (scale : Int) : Option Nat :=
  let (significand, exponent) := x.parts
  let factor := Nat.pow 2 (exponent - 2).toNat * Nat.pow 10 (-scale).toNat
  let step := Nat.pow 2 (2 - exponent).toNat * Nat.pow 10 scale.toNat
  let center := 4 * significand * factor
  let low := (4 * significand - if x.nearBelow then 1 else 2) * factor
  let high := (4 * significand + 2) * factor
  let readsBack (multiple : Nat) : Bool :=
    if significand % 2 = 0 then low ≤ multiple * step && multiple * step ≤ high
    else low < multiple * step && multiple * step < high
  let below := center / step
  match readsBack below, readsBack (below + 1) with
  | true, true =>
      let toBelow := center - below * step
      let toNext := (below + 1) * step - center
      if toBelow < toNext || (toBelow = toNext && below % 2 = 0) then some below
      else some (below + 1)
  | true, false => some below
  | false, true => some (below + 1)
  | false, false => none

def tensToReach : (bound : Nat) → (small large : Nat) → Nat
  | 0, _, _ => 0
  | bound + 1, small, large =>
      if large ≤ small then 0 else tensToReach bound (small * 10) large + 1

def leadingExponent (x : Binary64) : Int :=
  let (numerator, denominator) := x.ratio
  if denominator ≤ numerator then
    (Text.decimal (numerator / denominator)).length - 1
  else
    -(tensToReach 400 numerator denominator : Int)

def dropZeros : (bound : Nat) → (digits : Nat) → (scale : Int) → Nat × Int
  | 0, digits, scale => (digits, scale)
  | bound + 1, digits, scale =>
      if digits % 10 = 0 then dropZeros bound (digits / 10) (scale + 1) else (digits, scale)

/-- The fewest digits that read back, with the power of ten that they are multiples of. Seventeen
digits suffice for every number. -/
def shortest (x : Binary64) : Nat × Int :=
  let leading := x.leadingExponent
  let found := (List.range 17).findSome? fun (more : Nat) =>
    (x.onGrid? (leading - more)).map fun digits => (digits, leading - (more : Int))
  match found with
  | some (digits, scale) => dropZeros 17 digits scale
  | none => (0, 0)

/-- The digits stand behind the point, times ten to the power `point`. Positional while the leading
digit has an exponent from −5 to 15; a whole number keeps one zero after the point. -/
def layOut (digits : List Char) (point : Int) : List Char :=
  if 0 < point ∧ point ≤ 16 then
    let whole := point.toNat
    if digits.length ≤ whole then
      digits ++ List.replicate (whole - digits.length) '0' ++ ['.', '0']
    else
      digits.take whole ++ '.' :: digits.drop whole
  else if -5 < point ∧ point ≤ 0 then
    '0' :: '.' :: List.replicate (-point).toNat '0' ++ digits
  else
    let mantissa :=
      match digits with
      | first :: second :: rest => first :: '.' :: second :: rest
      | few => few
    let exponent := point - 1
    mantissa ++ 'e' :: (if exponent < 0 then '-' else '+') :: Text.decimal exponent.natAbs

def print (x : Binary64) : List Char :=
  let sign := if x.isNegative then ['-'] else []
  if x.isZero then
    sign ++ ['0', '.', '0']
  else
    let (digits, scale) := x.shortest
    let text := Text.decimal digits
    sign ++ layOut text (text.length + scale)

def roundedQuotient (numerator denominator : Nat) : Nat :=
  let quotient := numerator / denominator
  let twice := 2 * (numerator % denominator)
  if twice < denominator || (twice = denominator && quotient % 2 = 0) then quotient
  else quotient + 1

/-- The nearest number to `numerator / denominator`; none when it is too large. The exponent is the
one that leaves 53 bits before the point, or the least there is. -/
def ofRatio? (numerator denominator : Nat) : Option Binary64 :=
  if numerator = 0 then
    some ⟨0⟩
  else
    let quotientAt (exponent : Int) : Nat × Nat :=
      (numerator * Nat.pow 2 (-exponent).toNat, denominator * Nat.pow 2 exponent.toNat)
    let guess : Int := (numerator.log2 : Int) - denominator.log2 - 53
    let (n, d) := quotientAt guess
    let fitted := if n / d < 2 * leadingBit then guess else guess + 1
    let exponent := max fitted (-1074)
    let (n, d) := quotientAt exponent
    let significand := roundedQuotient n d
    let bits := if significand < leadingBit then significand
      else (exponent + 1074).toNat * leadingBit + significand
    if bits < 0x7ff * leadingBit then some ⟨UInt64.ofNat bits⟩ else none

def ofDecimal? (digits : Nat) (scale : Int) : Option Binary64 :=
  let leading := (Text.decimal digits).length + scale
  if digits = 0 ∨ leading < -400 then some ⟨0⟩
  else if 400 < leading then none
  else ofRatio? (digits * Nat.pow 10 scale.toNat) (Nat.pow 10 (-scale).toNat)

end Binary64

end PageAssembly
