import PageAssembly.Text.Bytes

/-!
Base 64 with padding: three bytes become four signs.
-/

namespace PageAssembly.Base64

def sign (value : Nat) : Char :=
  if value < 26 then Char.ofNat ('A'.toNat + value)
  else if value < 52 then Char.ofNat ('a'.toNat + (value - 26))
  else if value < 62 then Char.ofNat ('0'.toNat + (value - 52))
  else if value = 62 then '+'
  else '/'

def encode : Bytes → List Char
  | [] => []
  | [a] =>
      [sign (a.toNat / 4), sign (a.toNat % 4 * 16), '=', '=']
  | [a, b] =>
      [sign (a.toNat / 4), sign (a.toNat % 4 * 16 + b.toNat / 16), sign (b.toNat % 16 * 4), '=']
  | a :: b :: c :: rest =>
      sign (a.toNat / 4) :: sign (a.toNat % 4 * 16 + b.toNat / 16) ::
        sign (b.toNat % 16 * 4 + c.toNat / 64) :: sign (c.toNat % 64) :: encode rest

end PageAssembly.Base64
