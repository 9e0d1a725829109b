import Std.Data.ExtTreeMap
import CoinLayers.Hex

/-!
Hashes of 32 bytes, which name blocks and transactions.

A hash is kept as the number that its bytes spell with the first byte most significant. The order of
these numbers is the lexicographic order of the byte strings. The text that people exchange shows the
last byte first; it is made only where a hash is printed.
-/
namespace CoinLayers

structure Hash256 where
  value : BitVec 256
  deriving DecidableEq

namespace Hash256

/-- The hash of 32 zero bytes: the best block of a view that has seen none. -/
def zero : Hash256 := ⟨0⟩

/-- The hash with the given bytes, of which there should be 32. -/
def ofBytes (bytes : List UInt8) : Hash256 :=
  ⟨BitVec.ofNat 256 (bytes.foldl (fun n b => n * 256 + b.toNat) 0)⟩

/-- The 32 bytes of a hash, first byte first. -/
def bytes (h : Hash256) : List UInt8 :=
  (List.range 32).map fun i => UInt8.ofNat (h.value.toNat >>> (8 * (31 - i)))

/-- The text of a hash: 64 digits, last byte first. -/
def text (h : Hash256) : String :=
  Hex.ofBytes h.bytes.reverse

instance : Ord Hash256 := ⟨compareOn value⟩

instance : Std.TransOrd Hash256 := inferInstanceAs (Std.TransCmp (compareOn value))

instance : Std.LawfulEqOrd Hash256 where
  eq_of_compare {a b} equal := by
    have values : compare a.value b.value = .eq := equal
    have same := Std.LawfulEqOrd.eq_of_compare values
    cases a; cases b; simp_all

end Hash256

end CoinLayers
