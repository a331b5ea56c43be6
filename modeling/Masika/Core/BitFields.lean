import Masika.Core.Usize

/-!
# Single bits and fields of a word

Programs test a bit of a word with a shifted 1, and the lowest bits with a mask of ones.  A register
of a device holds several settings in one word, and drivers change one of them by setting or
clearing a bit (`putBit`), or by clearing a field and putting a value there (`putField`).  Both
operations have one lemma for every bit of the result; `extractLsb'_putBit` is the frame rule for a
field that the bit is not part of.
-/

namespace Masika

variable {w : ℕ}

/-! ## Masks -/

lemma getLsbD_one_shl {k : ℕ} (hk : k < w) (j : ℕ) : (1#w <<< k).getLsbD j = decide (j = k) := by
  rw [← BitVec.twoPow_eq, BitVec.getLsbD_twoPow]
  simp [hk, eq_comm]

/-- Masking with one shifted bit tests that bit. -/
lemma and_one_shl_ne_zero (x : BitVec w) {k : ℕ} (hk : k < w) :
    (x &&& (1#w <<< k) != 0#w) = x.getLsbD k := by
  rw [← BitVec.twoPow_eq, BitVec.and_twoPow]
  cases h : x.getLsbD k
  · simp
  · simp only [if_true, bne_iff_ne, ne_eq]
    intro h0
    have hbit := congrArg (fun x => BitVec.getLsbD x k) h0
    simp [hk] at hbit

/-- The `n` lowest bits. -/
lemma getLsbD_mask {n : ℕ} (j : ℕ) (hn : n ≤ w) :
    (BitVec.ofNat w (2 ^ n - 1)).getLsbD j = decide (j < n) := by
  rw [BitVec.getLsbD_ofNat, Nat.testBit_two_pow_sub_one]
  by_cases hj : j < n
  · simp [hj, Nat.lt_of_lt_of_le hj hn]
  · simp [hj]

lemma toNat_and_mask (x : BitVec w) {n : ℕ} (hn : n ≤ w) :
    (x &&& BitVec.ofNat w (2 ^ n - 1)).toNat = x.toNat % 2 ^ n := by
  have hpow : 2 ^ n ≤ 2 ^ w := Nat.pow_le_pow_right (by decide) hn
  have hpos : 0 < 2 ^ n := Nat.two_pow_pos n
  rw [BitVec.toNat_and, BitVec.toNat_ofNat, Nat.mod_eq_of_lt (by omega),
    Nat.and_two_pow_sub_one_eq_mod]

/-! ## Changing a bit or a field -/

/-- `if b { x |= 1 << k } else { x &= !(1 << k) }` -/
def putBit (k : ℕ) (b : Bool) (x : BitVec w) : BitVec w :=
  if b then x ||| (1#w <<< k) else x &&& ~~~(1#w <<< k)

/-- `x &= !(mask << k); x |= (value & mask) << k`, for the mask of `n` bits. -/
def putField (k n : ℕ) (value x : BitVec w) : BitVec w :=
  (x &&& ~~~(BitVec.ofNat w (2 ^ n - 1) <<< k)) |||
    ((value &&& BitVec.ofNat w (2 ^ n - 1)) <<< k)

lemma getLsbD_putBit {k : ℕ} (hk : k < w) (b : Bool) (x : BitVec w) (j : ℕ) :
    (putBit k b x).getLsbD j = if j = k then b else x.getLsbD j := by
  rw [putBit]
  cases b with
  | true =>
    rw [if_pos rfl, BitVec.getLsbD_or, getLsbD_one_shl hk]
    by_cases hj : j = k <;> simp [hj]
  | false =>
    rw [if_neg Bool.false_ne_true, BitVec.getLsbD_and, BitVec.getLsbD_not,
      getLsbD_one_shl hk]
    by_cases hj : j = k
    · simp [hj]
    · rw [if_neg hj, decide_eq_false hj, Bool.not_false, Bool.and_true]
      by_cases hw : j < w
      · simp [hw]
      · simp [hw, BitVec.getLsbD_of_ge x j (Nat.le_of_not_lt hw)]

/-- The other fields are not changed. -/
lemma extractLsb'_putBit {k start len : ℕ} (hk : k < w) (hout : k < start ∨ start + len ≤ k)
    (b : Bool) (x : BitVec w) : (putBit k b x).extractLsb' start len = x.extractLsb' start len := by
  refine BitVec.eq_of_getLsbD_eq fun i hi => ?_
  rw [BitVec.getLsbD_extractLsb', BitVec.getLsbD_extractLsb', getLsbD_putBit hk,
    if_neg (by omega)]

lemma getLsbD_putField {k n : ℕ} (hfits : k + n ≤ w) (value x : BitVec w) (j : ℕ) :
    (putField k n value x).getLsbD j =
      if k ≤ j ∧ j < k + n then value.getLsbD (j - k) else x.getLsbD j := by
  rw [putField, BitVec.getLsbD_or, BitVec.getLsbD_and, BitVec.getLsbD_not,
    BitVec.getLsbD_shiftLeft, BitVec.getLsbD_shiftLeft, BitVec.getLsbD_and,
    getLsbD_mask _ (by omega)]
  by_cases hw : j < w
  · by_cases hin : k ≤ j ∧ j < k + n
    · have hlow : ¬ j < k := by omega
      have hmask : j - k < n := by omega
      simp [hw, hin, hlow, hmask]
    · rw [if_neg hin]
      rcases Nat.lt_or_ge j k with hlow | hlow
      · simp [hw, hlow]
      · have hmask : ¬ j - k < n := by omega
        simp [hw, hmask]
  · have hout : ¬ (k ≤ j ∧ j < k + n) := by omega
    simp [hw, hout, BitVec.getLsbD_of_ge x j (Nat.le_of_not_lt hw)]

end Masika
