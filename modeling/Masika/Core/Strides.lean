import Mathlib.Algebra.Order.Group.Nat
import Mathlib.Tactic.Common

/-!
# Walking over a range in equal steps

A range of `size` places from `start` on is visited in steps of `B`, and each step deals with the
block of `B` places that it falls into.  The number of steps is computed from the size alone
(`strides`), as it is done in code that has pages in mind.

* Every step falls into the range (`lt_strides_iff`), so that no block is touched for nothing.
* The steps deal with the blocks `start / B`, .., and `strides_cover_iff` says when these are all
  blocks of the range: the part of the first block that lies before `start` must find room in the
  last one.
* When it does not, a single block is missed, which is that of the last place
  (`missed_block_eq_last`).
-/

namespace Masika

/-- The number of steps for `size` places: `size / B`, rounded up. -/
def strides (B size : ℕ) : ℕ := (size + B - 1) / B

variable {B start size n i x : ℕ}

lemma lt_strides_iff (hB : 0 < B) : i < strides B size ↔ B * i < size := by
  rw [strides, ← Nat.succ_le_iff, Nat.le_div_iff_mul_le hB, Nat.succ_mul, Nat.mul_comm i B]
  omega

lemma le_mul_strides (hB : 0 < B) : size ≤ B * strides B size := by
  by_contra h
  exact absurd ((lt_strides_iff hB).mpr (not_le.mp h)) (lt_irrefl _)

/-- Which places lie in one of the first `n` blocks. -/
lemma block_lt_iff (hB : 0 < B) (hx : start ≤ x) :
    x / B < start / B + n ↔ start % B + (x - start) < B * n := by
  have hstart := Nat.div_add_mod start B
  rw [Nat.div_lt_iff_lt_mul hB, Nat.add_mul, Nat.mul_comm _ B, Nat.mul_comm n B]
  omega

/-- **When the steps reach every place of the range.** -/
theorem strides_cover_iff (hB : 0 < B) (hsize : 0 < size) :
    (∀ x, start ≤ x → x < start + size → x / B < start / B + n) ↔ start % B + size ≤ B * n := by
  constructor
  · intro h
    have hlast := (block_lt_iff hB (by omega)).mp (h (start + size - 1) (by omega) (by omega))
    omega
  · intro h x hx hlt
    exact (block_lt_iff hB hx).mpr (by omega)

/-- The block of the last place is at most one behind the blocks that are dealt with. -/
lemma last_block_le (hB : 0 < B) (hsize : 0 < size) :
    (start + size - 1) / B ≤ start / B + strides B size := by
  have hmod := Nat.mod_lt start hB
  have hle : size ≤ B * strides B size := le_mul_strides hB
  rw [← Nat.lt_succ_iff, ← Nat.add_succ, block_lt_iff hB (by omega), Nat.mul_succ]
  omega

/-- **A place that is missed lies in the last block.** -/
lemma missed_block_eq_last (hB : 0 < B) (hx : start ≤ x) (hlt : x < start + size)
    (hmissed : start / B + strides B size ≤ x / B) :
    x / B = (start + size - 1) / B ∧ x / B = start / B + strides B size := by
  have hlast : (start + size - 1) / B ≤ start / B + strides B size :=
    last_block_le hB (by omega)
  have hmono : x / B ≤ (start + size - 1) / B := Nat.div_le_div_right (by omega)
  omega

end Masika
