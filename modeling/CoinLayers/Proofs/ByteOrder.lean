import Mathlib.Algebra.Group.Nat.Defs
import CoinLayers.OutPoint

/-!
The order of hashes and of outpoints, in bytes.

A hash is kept as a number. One number is less than another just if its bytes come before those of the other, the first
byte deciding (`bigEndian_lt_iff`). So outpoints are sorted by the bytes of their hashes, and those of one transaction by
their numbers (`OutPoint.compare_eq_lt`).
-/
namespace CoinLayers

/-- The lowest `n` bytes of a number, the most significant one first. -/
def bigEndian (n x : Nat) : List UInt8 :=
  (List.range n).map fun i => UInt8.ofNat (x >>> (8 * (n - 1 - i)))

theorem bigEndian_succ (n x : Nat) : bigEndian (n + 1) x = UInt8.ofNat (x / 256 ^ n) :: bigEndian n x := by
  rw [bigEndian, List.range_succ_eq_map, List.map_cons, List.map_map, bigEndian]
  congr 1
  · rw [Nat.shiftRight_eq_div_pow, Nat.pow_mul]
    rfl
  · refine List.map_congr_left fun i _ => ?_
    show UInt8.ofNat (x >>> (8 * (n - (i + 1)))) = _
    rw [Nat.sub_add_eq, Nat.sub_right_comm]

/-- Of two numbers put together from a high and a low part, that one is less whose high part is less, or whose low part if
    the high ones are equal. -/
theorem mul_add_lt_iff {d q r q' r' : Nat} (low : r < d) (low' : r' < d) :
    d * q + r < d * q' + r' ↔ q < q' ∨ q = q' ∧ r < r' := by
  rcases Nat.lt_trichotomy q q' with less | rfl | more
  · have room : d * (q + 1) ≤ d * q' := Nat.mul_le_mul_left d less
    rw [Nat.mul_succ] at room
    simp only [less, true_or, iff_true]
    omega
  · simp
  · have room : d * (q' + 1) ≤ d * q := Nat.mul_le_mul_left d more
    rw [Nat.mul_succ] at room
    have notLess : ¬q < q' := by omega
    have different : q ≠ q' := by omega
    simp only [notLess, different, false_and, or_self, iff_false]
    omega

/-- Bytes in big-endian order are sorted as the numbers that they spell. -/
theorem bigEndian_lt_iff {n x y : Nat} : bigEndian n x < bigEndian n y ↔ x % 256 ^ n < y % 256 ^ n := by
  induction n with
  | zero => simp [bigEndian, Nat.mod_one]
  | succ n ih =>
    have spelled (z : Nat) : z % 256 ^ (n + 1) = 256 ^ n * (z / 256 ^ n % 256) + z % 256 ^ n := by
      rw [Nat.mod_pow_succ, Nat.add_comm]
    have first (z : Nat) : (UInt8.ofNat (z / 256 ^ n)).toNat = z / 256 ^ n % 256 := UInt8.toNat_ofNat'
    have positive : 0 < 256 ^ n := Nat.pow_pos (by decide)
    rw [bigEndian_succ, bigEndian_succ, List.cons_lt_cons_iff, ih, UInt8.lt_iff_toNat_lt, ← UInt8.toNat_inj, first, first,
      spelled, spelled, mul_add_lt_iff (Nat.mod_lt x positive) (Nat.mod_lt y positive)]

namespace Hash256

theorem bytes_eq (h : Hash256) : h.bytes = bigEndian 32 h.value.toNat := rfl

/-- Hashes are sorted as their bytes, the first one deciding. -/
theorem compare_eq_lt {a b : Hash256} : compare a b = .lt ↔ a.bytes < b.bytes := by
  have small (h : Hash256) : h.value.toNat % 256 ^ 32 = h.value.toNat := Nat.mod_eq_of_lt h.value.isLt
  rw [bytes_eq, bytes_eq, bigEndian_lt_iff, small, small]
  show compareOfLessAndEq a.value b.value = .lt ↔ _
  rw [compareOfLessAndEq_eq_lt, BitVec.lt_def]

end Hash256

namespace OutPoint

/-- The hash of the one comes first in the order of bytes, or both are outputs of one transaction, and the number of the
    one is less. -/
def Before (o p : OutPoint) : Prop :=
  o.txid.bytes < p.txid.bytes ∨ o.txid = p.txid ∧ o.vout < p.vout

theorem compare_eq_lt {o p : OutPoint} : compare o p = .lt ↔ o.Before p := by
  show (compare o.txid p.txid).then (compare o.vout p.vout) = .lt ↔ _
  rw [Ordering.then_eq_lt, Hash256.compare_eq_lt, Std.LawfulEqOrd.compare_eq_iff_eq, Std.compare_eq_lt, Before]

end OutPoint

end CoinLayers
