import CoinLayers.OutPoint

/-!
Salted hashes of outpoints.

Anybody can make transactions, and so outpoints. A table keyed by outpoints therefore hashes them with
SipHash under a secret salt, so that nobody can choose outpoints that fall on one place of the table.
-/
namespace CoinLayers

/-- The secret key of the hash. -/
structure Salt where
  first : UInt64
  second : UInt64

namespace Salt

/-- What a salt shows of itself: nothing. -/
def text : String := "SaltedOutpointHasher \x7b .. \x7d"

/-- The four words that a message is mixed into. -/
structure Mix where
  v0 : UInt64
  v1 : UInt64
  v2 : UInt64
  v3 : UInt64

/-- A word turned left by `n` places, for `n` from 1 to 63. -/
def rotateLeft (x n : UInt64) : UInt64 :=
  (x <<< n) ||| (x >>> (64 - n))

def Mix.round (m : Mix) : Mix :=
  let a0 := m.v0 + m.v1
  let a1 := rotateLeft m.v1 13 ^^^ a0
  let a2 := m.v2 + m.v3
  let a3 := rotateLeft m.v3 16 ^^^ a2
  let b0 := rotateLeft a0 32 + a3
  let b3 := rotateLeft a3 21 ^^^ b0
  let b2 := a2 + a1
  let b1 := rotateLeft a1 17 ^^^ b2
  ⟨b0, b1, rotateLeft b2 32, b3⟩

def start (s : Salt) : Mix :=
  ⟨s.first ^^^ 0x736f6d6570736575, s.second ^^^ 0x646f72616e646f6d,
    s.first ^^^ 0x6c7967656e657261, s.second ^^^ 0x7465646279746573⟩

/-- A word goes in between two rounds. -/
def Mix.absorb (m : Mix) (word : UInt64) : Mix :=
  let mixed := Nat.repeat Mix.round 2 { m with v3 := m.v3 ^^^ word }
  { mixed with v0 := mixed.v0 ^^^ word }

/-- Four closing rounds, and the four words folded into one. -/
def Mix.finish (m : Mix) : UInt64 :=
  let mixed := Nat.repeat Mix.round 4 { m with v2 := m.v2 ^^^ 0xff }
  mixed.v0 ^^^ mixed.v1 ^^^ mixed.v2 ^^^ mixed.v3

/-- The little-endian word of at most eight bytes. -/
def littleEndian (bytes : List UInt8) : UInt64 :=
  bytes.foldr (fun b word => (word <<< 8) ||| b.toUInt64) 0

/-- The hash of an outpoint: its 32 hash bytes as four words, and a last word of the output's number
    with the length of the message, 36 bytes, in its top byte. -/
def hash (s : Salt) (o : OutPoint) : UInt64 :=
  let quarter (n : Nat) : UInt64 := littleEndian ((o.txid.bytes.drop (8 * n)).take 8)
  let mixed := (List.range 4).foldl (fun m n => m.absorb (quarter n)) s.start
  (mixed.absorb (o.vout.toUInt64 ||| 0x2400000000000000)).finish

end Salt

end CoinLayers
