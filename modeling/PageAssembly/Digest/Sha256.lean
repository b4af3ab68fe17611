import PageAssembly.Text.Bytes
import PageAssembly.Text.Digits

/-!
The digest SHA-256 of a list of bytes: padding to whole blocks, the message schedule of a block,
sixty-four rounds on eight registers, and the registers of all blocks added up.
-/

namespace PageAssembly

/-- Two contents count as the same when their digests are equal. -/
structure Digest where
  bytes : Bytes
deriving DecidableEq

namespace Sha256

/-- The first 32 bits of the fractional parts of the cube roots of the first sixty-four primes. -/
def roundConstants : List UInt32 :=
  [0x428a2f98, 0x71374491, 0xb5c0fbcf, 0xe9b5dba5, 0x3956c25b, 0x59f111f1, 0x923f82a4, 0xab1c5ed5,
   0xd807aa98, 0x12835b01, 0x243185be, 0x550c7dc3, 0x72be5d74, 0x80deb1fe, 0x9bdc06a7, 0xc19bf174,
   0xe49b69c1, 0xefbe4786, 0x0fc19dc6, 0x240ca1cc, 0x2de92c6f, 0x4a7484aa, 0x5cb0a9dc, 0x76f988da,
   0x983e5152, 0xa831c66d, 0xb00327c8, 0xbf597fc7, 0xc6e00bf3, 0xd5a79147, 0x06ca6351, 0x14292967,
   0x27b70a85, 0x2e1b2138, 0x4d2c6dfc, 0x53380d13, 0x650a7354, 0x766a0abb, 0x81c2c92e, 0x92722c85,
   0xa2bfe8a1, 0xa81a664b, 0xc24b8b70, 0xc76c51a3, 0xd192e819, 0xd6990624, 0xf40e3585, 0x106aa070,
   0x19a4c116, 0x1e376c08, 0x2748774c, 0x34b0bcb5, 0x391c0cb3, 0x4ed8aa4a, 0x5b9cca4f, 0x682e6ff3,
   0x748f82ee, 0x78a5636f, 0x84c87814, 0x8cc70208, 0x90befffa, 0xa4506ceb, 0xbef9a3f7, 0xc67178f2]

structure Registers where
  a : UInt32
  b : UInt32
  c : UInt32
  d : UInt32
  e : UInt32
  f : UInt32
  g : UInt32
  h : UInt32

/-- The first 32 bits of the fractional parts of the square roots of the first eight primes. -/
def initial : Registers :=
  ⟨0x6a09e667, 0xbb67ae85, 0x3c6ef372, 0xa54ff53a, 0x510e527f, 0x9b05688c, 0x1f83d9ab, 0x5be0cd19⟩

def rotateRight (word : UInt32) (count : UInt32) : UInt32 :=
  (word >>> count) ||| (word <<< (32 - count))

/-- One more word before the others; the list is newest first and holds at least sixteen. -/
def nextWord (newestFirst : List UInt32) : UInt32 :=
  let near := newestFirst.getD 1 0
  let far := newestFirst.getD 14 0
  let nearMix := rotateRight near 17 ^^^ rotateRight near 19 ^^^ (near >>> 10)
  let farMix := rotateRight far 7 ^^^ rotateRight far 18 ^^^ (far >>> 3)
  nearMix + newestFirst.getD 6 0 + farMix + newestFirst.getD 15 0

def extendSchedule : Nat → List UInt32 → List UInt32
  | 0, newestFirst => newestFirst
  | count + 1, newestFirst => extendSchedule count (nextWord newestFirst :: newestFirst)

def wordsOf : Bytes → List UInt32
  | b0 :: b1 :: b2 :: b3 :: rest =>
      ((b0.toUInt32 <<< 24) ||| (b1.toUInt32 <<< 16) ||| (b2.toUInt32 <<< 8) ||| b3.toUInt32) ::
        wordsOf rest
  | _ => []

def schedule (block : Bytes) : List UInt32 :=
  (extendSchedule 48 (wordsOf block).reverse).reverse

def round (r : Registers) (constant word : UInt32) : Registers :=
  let sigma1 := rotateRight r.e 6 ^^^ rotateRight r.e 11 ^^^ rotateRight r.e 25
  let choice := (r.e &&& r.f) ^^^ ((~~~ r.e) &&& r.g)
  let added := r.h + sigma1 + choice + constant + word
  let sigma0 := rotateRight r.a 2 ^^^ rotateRight r.a 13 ^^^ rotateRight r.a 22
  let majority := (r.a &&& r.b) ^^^ (r.a &&& r.c) ^^^ (r.b &&& r.c)
  ⟨added + (sigma0 + majority), r.a, r.b, r.c, r.d + added, r.e, r.f, r.g⟩

def Registers.add (left right : Registers) : Registers :=
  ⟨left.a + right.a, left.b + right.b, left.c + right.c, left.d + right.d,
   left.e + right.e, left.f + right.f, left.g + right.g, left.h + right.h⟩

def compress (registers : Registers) (block : Bytes) : Registers :=
  let turned := (roundConstants.zip (schedule block)).foldl
    (fun r (constant, word) => round r constant word) registers
  registers.add turned

def bigEndian (width value : Nat) : Bytes :=
  (List.range width).map fun index => UInt8.ofNat (value / Nat.pow 256 (width - 1 - index))

def padding (length : Nat) : Bytes :=
  0x80 :: List.replicate ((119 - length % 64) % 64) 0 ++ bigEndian 8 (8 * length)

def absorb (registers : Registers) (bytes : Bytes) : Registers :=
  match _ : bytes.drop 63 with
  | [] => registers
  | _ :: later => absorb (compress registers (bytes.take 64)) later
termination_by bytes.length
decreasing_by
  have lengths := congrArg List.length ‹bytes.drop 63 = _›
  simp only [List.length_drop, List.length_cons] at lengths
  omega

def Registers.toBytes (r : Registers) : Bytes :=
  [r.a, r.b, r.c, r.d, r.e, r.f, r.g, r.h].flatMap fun word => bigEndian 4 word.toNat

end Sha256

def sha256 (bytes : Bytes) : Digest :=
  ⟨(Sha256.absorb Sha256.initial (bytes ++ Sha256.padding bytes.length)).toBytes⟩

def Digest.toHex (digest : Digest) : String :=
  String.ofList (digest.bytes.flatMap Text.hexByte)

end PageAssembly
