import CoinLayers.Hash256

/-!
The hash function SHA-256, and its double application, which names transactions.

A message is padded to whole blocks of sixteen words. Each block is stretched to 64 words, and 64
rounds mix these into eight registers; the registers are added to what they were before the block.
-/
namespace CoinLayers.Sha256

/-- The eight working words. -/
structure Registers where
  a : UInt32
  b : UInt32
  c : UInt32
  d : UInt32
  e : UInt32
  f : UInt32
  g : UInt32
  h : UInt32
  deriving DecidableEq

/-- The registers before the first block: the leading fractional bits of the square roots of the first
    eight primes. -/
def Registers.initial : Registers :=
  ⟨0x6a09e667, 0xbb67ae85, 0x3c6ef372, 0xa54ff53a, 0x510e527f, 0x9b05688c, 0x1f83d9ab, 0x5be0cd19⟩

def Registers.add (x y : Registers) : Registers :=
  ⟨x.a + y.a, x.b + y.b, x.c + y.c, x.d + y.d, x.e + y.e, x.f + y.f, x.g + y.g, x.h + y.h⟩

def Registers.words (x : Registers) : List UInt32 :=
  [x.a, x.b, x.c, x.d, x.e, x.f, x.g, x.h]

/-- One constant a round: the leading fractional bits of the cube roots of the first 64 primes. -/
def roundConstants : List UInt32 := [
  0x428a2f98, 0x71374491, 0xb5c0fbcf, 0xe9b5dba5, 0x3956c25b, 0x59f111f1, 0x923f82a4, 0xab1c5ed5,
  0xd807aa98, 0x12835b01, 0x243185be, 0x550c7dc3, 0x72be5d74, 0x80deb1fe, 0x9bdc06a7, 0xc19bf174,
  0xe49b69c1, 0xefbe4786, 0x0fc19dc6, 0x240ca1cc, 0x2de92c6f, 0x4a7484aa, 0x5cb0a9dc, 0x76f988da,
  0x983e5152, 0xa831c66d, 0xb00327c8, 0xbf597fc7, 0xc6e00bf3, 0xd5a79147, 0x06ca6351, 0x14292967,
  0x27b70a85, 0x2e1b2138, 0x4d2c6dfc, 0x53380d13, 0x650a7354, 0x766a0abb, 0x81c2c92e, 0x92722c85,
  0xa2bfe8a1, 0xa81a664b, 0xc24b8b70, 0xc76c51a3, 0xd192e819, 0xd6990624, 0xf40e3585, 0x106aa070,
  0x19a4c116, 0x1e376c08, 0x2748774c, 0x34b0bcb5, 0x391c0cb3, 0x4ed8aa4a, 0x5b9cca4f, 0x682e6ff3,
  0x748f82ee, 0x78a5636f, 0x84c87814, 0x8cc70208, 0x90befffa, 0xa4506ceb, 0xbef9a3f7, 0xc67178f2]

/-- A word turned right by `n` places, for `n` from 1 to 31. -/
def rotateRight (x : UInt32) (n : UInt32) : UInt32 :=
  (x >>> n) ||| (x <<< (32 - n))

/-- A schedule with its next word added, computed from four of its last sixteen. -/
def extendSchedule (schedule : Array UInt32) : Array UInt32 :=
  let back (n : Nat) : UInt32 := schedule.getD (schedule.size - n) 0
  let s0 := rotateRight (back 15) 7 ^^^ rotateRight (back 15) 18 ^^^ (back 15 >>> 3)
  let s1 := rotateRight (back 2) 17 ^^^ rotateRight (back 2) 19 ^^^ (back 2 >>> 10)
  schedule.push (back 16 + s0 + back 7 + s1)

/-- The 64 words that a block of sixteen feeds into the rounds. -/
def schedule (block : Array UInt32) : Array UInt32 :=
  Nat.repeat extendSchedule 48 block

/-- One round, with its constant and its word. -/
def Registers.round (r : Registers) (constant word : UInt32) : Registers :=
  let s1 := rotateRight r.e 6 ^^^ rotateRight r.e 11 ^^^ rotateRight r.e 25
  let choice := (r.e &&& r.f) ^^^ (~~~r.e &&& r.g)
  let t1 := r.h + s1 + choice + constant + word
  let s0 := rotateRight r.a 2 ^^^ rotateRight r.a 13 ^^^ rotateRight r.a 22
  let majority := (r.a &&& r.b) ^^^ (r.a &&& r.c) ^^^ (r.b &&& r.c)
  ⟨t1 + (s0 + majority), r.a, r.b, r.c, r.d + t1, r.e, r.f, r.g⟩

def Registers.absorb (r : Registers) (block : Array UInt32) : Registers :=
  let mixed := (roundConstants.zip (schedule block).toList).foldl (fun r (k, w) => r.round k w) r
  r.add mixed

/-- The bytes of a number, most significant first. -/
def bigEndian (size n : Nat) : List UInt8 :=
  (List.range size).map fun i => UInt8.ofNat (n >>> (8 * (size - 1 - i)))

/-- A message padded to whole blocks: a one bit, zeros, and the length in bits as eight bytes. -/
def padded (message : ByteArray) : ByteArray :=
  let zeros := List.replicate ((119 - message.size % 64) % 64) 0
  message ++ ((0x80 :: zeros) ++ bigEndian 8 (8 * message.size)).toByteArray

/-- The big-endian word at the given place of a byte string. -/
def wordAt (bytes : ByteArray) (place : Nat) : UInt32 :=
  (List.range 4).foldl (fun word i => (word <<< 8) ||| (bytes[place + i]?.getD 0).toUInt32) 0

def blockAt (bytes : ByteArray) (number : Nat) : Array UInt32 :=
  Array.ofFn fun i : Fin 16 => wordAt bytes (64 * number + 4 * i)

/-- The 32 bytes of the SHA-256 hash of a message. -/
def digest (message : ByteArray) : List UInt8 :=
  let bytes := padded message
  let final := (List.range (bytes.size / 64)).foldl (fun r i => r.absorb (blockAt bytes i)) Registers.initial
  final.words.flatMap fun word => bigEndian 4 word.toNat

/-- The hash of the hash of a message. -/
def twice (message : ByteArray) : Hash256 :=
  Hash256.ofBytes (digest (digest message).toByteArray)

end CoinLayers.Sha256
