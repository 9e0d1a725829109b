import CoinLayers.Hash256

/-!
Outpoints: the names of transaction outputs, and so the keys under which coins are kept.

Outpoints are ordered by the bytes of the transaction's hash and then by the number of the output.
This is not the order of their texts, which show the hash backwards.
-/
namespace CoinLayers

/-- An output of a transaction: the transaction's hash and the output's number in it. -/
structure OutPoint where
  txid : Hash256
  vout : UInt32
  deriving DecidableEq

namespace OutPoint

/-- The outpoint that stands in the single input of a coinbase transaction and names no output. -/
def null : OutPoint := ⟨.zero, 0xffffffff⟩

/-- The text of an outpoint: the text of the hash, a colon, and the output's number. -/
def text (o : OutPoint) : String :=
  o.txid.text ++ ":" ++ toString o.vout.toNat

instance : Ord OutPoint := ⟨compareLex (compareOn txid) (compareOn vout)⟩

instance : Std.TransOrd OutPoint :=
  inferInstanceAs (Std.TransCmp (compareLex (compareOn txid) (compareOn vout)))

instance : Std.LawfulEqOrd OutPoint where
  eq_of_compare {a b} equal := by
    have both : (compare a.txid b.txid).then (compare a.vout b.vout) = .eq := equal
    obtain ⟨hashes, numbers⟩ := Ordering.then_eq_eq.mp both
    have sameHash := Std.LawfulEqOrd.eq_of_compare hashes
    have sameNumber := Std.LawfulEqOrd.eq_of_compare numbers
    cases a; cases b; simp_all

end OutPoint

end CoinLayers
