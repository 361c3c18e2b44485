import LiveFacts.Text.Hex

/-!
# SHA-256

The digest of a list of bytes. Words, schedules and blocks are lists, and the eight registers of
the compression function are a structure.
-/

namespace LiveFacts.Sha256

structure Registers where
  a : UInt32
  b : UInt32
  c : UInt32
  d : UInt32
  e : UInt32
  f : UInt32
  g : UInt32
  h : UInt32

/-- Fractional parts of the square roots of the first eight primes. -/
def start : Registers :=
  ⟨0x6a09e667, 0xbb67ae85, 0x3c6ef372, 0xa54ff53a,
    0x510e527f, 0x9b05688c, 0x1f83d9ab, 0x5be0cd19⟩

/-- Fractional parts of the cube roots of the first 64 primes. -/
def roundConstants : List UInt32 :=
  [0x428a2f98, 0x71374491, 0xb5c0fbcf, 0xe9b5dba5, 0x3956c25b, 0x59f111f1, 0x923f82a4, 0xab1c5ed5,
    0xd807aa98, 0x12835b01, 0x243185be, 0x550c7dc3, 0x72be5d74, 0x80deb1fe, 0x9bdc06a7, 0xc19bf174,
    0xe49b69c1, 0xefbe4786, 0x0fc19dc6, 0x240ca1cc, 0x2de92c6f, 0x4a7484aa, 0x5cb0a9dc, 0x76f988da,
    0x983e5152, 0xa831c66d, 0xb00327c8, 0xbf597fc7, 0xc6e00bf3, 0xd5a79147, 0x06ca6351, 0x14292967,
    0x27b70a85, 0x2e1b2138, 0x4d2c6dfc, 0x53380d13, 0x650a7354, 0x766a0abb, 0x81c2c92e, 0x92722c85,
    0xa2bfe8a1, 0xa81a664b, 0xc24b8b70, 0xc76c51a3, 0xd192e819, 0xd6990624, 0xf40e3585, 0x106aa070,
    0x19a4c116, 0x1e376c08, 0x2748774c, 0x34b0bcb5, 0x391c0cb3, 0x4ed8aa4a, 0x5b9cca4f, 0x682e6ff3,
    0x748f82ee, 0x78a5636f, 0x84c87814, 0x8cc70208, 0x90befffa, 0xa4506ceb, 0xbef9a3f7, 0xc67178f2]

def rotateRight (word : UInt32) (count : UInt32) : UInt32 :=
  word >>> count ||| word <<< (32 - count)

def choose (x y z : UInt32) : UInt32 := (x &&& y) ^^^ (~~~x &&& z)

def majority (x y z : UInt32) : UInt32 := (x &&& y) ^^^ (x &&& z) ^^^ (y &&& z)

def Registers.round (r : Registers) (constant word : UInt32) : Registers :=
  let sumE := rotateRight r.e 6 ^^^ rotateRight r.e 11 ^^^ rotateRight r.e 25
  let first := r.h + sumE + choose r.e r.f r.g + constant + word
  let sumA := rotateRight r.a 2 ^^^ rotateRight r.a 13 ^^^ rotateRight r.a 22
  let second := sumA + majority r.a r.b r.c
  ⟨first + second, r.a, r.b, r.c, r.d + first, r.e, r.f, r.g⟩

def Registers.add (r s : Registers) : Registers :=
  ⟨r.a + s.a, r.b + s.b, r.c + s.c, r.d + s.d, r.e + s.e, r.f + s.f, r.g + s.g, r.h + s.h⟩

def Registers.words (r : Registers) : List UInt32 :=
  [r.a, r.b, r.c, r.d, r.e, r.f, r.g, r.h]

def nextWord (window : List UInt32) : UInt32 :=
  let early := window.getD 1 0
  let late := window.getD 14 0
  let mixEarly := rotateRight early 7 ^^^ rotateRight early 18 ^^^ early >>> 3
  let mixLate := rotateRight late 17 ^^^ rotateRight late 19 ^^^ late >>> 10
  window.getD 0 0 + mixEarly + window.getD 9 0 + mixLate

def schedule : Nat → List UInt32 → List UInt32
  | 0, _ => []
  | count + 1, window => window.headD 0 :: schedule count (window.tail ++ [nextWord window])

def compress (r : Registers) (block : List UInt32) : Registers :=
  r.add ((roundConstants.zip (schedule 64 block)).foldl (fun r (k, w) => r.round k w) r)

def bigEndian (count number : Nat) : List UInt8 :=
  (List.range count).reverse.map fun i => UInt8.ofNat (number / Nat.pow 256 i)

/-- A message is followed by one bit, by zeros up to a whole number of blocks, and by its length
in bits. -/
def padded (message : List UInt8) : List UInt8 :=
  message ++ 0x80 :: List.replicate ((119 - message.length % 64) % 64) 0 ++
    bigEndian 8 (8 * message.length)

def wordsOf : List UInt8 → List UInt32
  | a :: b :: c :: d :: rest =>
    (a.toUInt32 <<< 24 ||| b.toUInt32 <<< 16 ||| c.toUInt32 <<< 8 ||| d.toUInt32) :: wordsOf rest
  | _ => []

def compressAll : Nat → Registers → List UInt32 → Registers
  | 0, r, _ => r
  | blocks + 1, r, words => compressAll blocks (compress r (words.take 16)) (words.drop 16)

def digest (message : List UInt8) : List UInt8 :=
  let words := wordsOf (padded message)
  (compressAll (words.length / 16) start words).words.flatMap fun word => bigEndian 4 word.toNat

def hexDigest (message : List UInt8) : List Char :=
  (digest message).flatMap Text.hexOfByte

example : (hexDigest []).take 8 = ['e', '3', 'b', '0', 'c', '4', '4', '2'] := by
  decide +kernel

example : (hexDigest [0x61, 0x62, 0x63]).take 8 = ['b', 'a', '7', '8', '1', '6', 'b', 'f'] := by
  decide +kernel

end LiveFacts.Sha256
