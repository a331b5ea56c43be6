import Mathlib.Data.Finset.Card
import Mathlib.Data.Finset.Lattice.Basic
import Mathlib.Data.Nat.Bitwise
import Mathlib.Logic.Function.Basic
import Masika.Core.BitFields

/-!
# Sets of indices packed into 64-bit words

An array of words `ℕ → U64` represents a set of indices: index `n` is bit `n mod 64` of word
`n / 64`.  The three operations are written the way allocators write them, with a shift for the
word and a mask for the bit, and each has one lemma that says what it does to *every* index
(`getBit_setBit`, `getBit_clearBit`, `getBit_foldl_setBit`).  Nothing above this file looks inside
a word again, with one exception: a search that scans a whole word for its lowest clear bit, for
which `getLsbD_eq_getBit` goes back from bits of a word to indices.

`setBits words N` is the represented set, cut off at `N`.  A counter kept beside the array is
compared with its cardinality.
-/

namespace Masika

/-! ## The three operations -/

/-- Test index `n`. -/
def getBit (words : ℕ → U64) (n : ℕ) : Bool :=
  words (n >>> 6) &&& (1#64 <<< (n &&& 63)) != 0#64

/-- Add index `n`. -/
def setBit (words : ℕ → U64) (n : ℕ) : ℕ → U64 :=
  Function.update words (n >>> 6) (words (n >>> 6) ||| (1#64 <<< (n &&& 63)))

/-- Remove index `n`. -/
def clearBit (words : ℕ → U64) (n : ℕ) : ℕ → U64 :=
  Function.update words (n >>> 6) (words (n >>> 6) &&& ~~~(1#64 <<< (n &&& 63)))

lemma shiftRight_six (n : ℕ) : n >>> 6 = n / 64 := Nat.shiftRight_eq_div_pow n 6

lemma and_sixtyThree (n : ℕ) : n &&& 63 = n % 64 := Nat.and_two_pow_sub_one_eq_mod n 6

/-- Index `n` is bit `n mod 64` of word `n / 64`. -/
lemma getBit_eq (words : ℕ → U64) (n : ℕ) : getBit words n = (words (n / 64)).getLsbD (n % 64) := by
  rw [getBit, shiftRight_six, and_sixtyThree]
  exact and_one_shl_ne_zero _ (Nat.mod_lt _ (by decide))

/-- From a bit of a word to the index it stands for. -/
lemma getLsbD_eq_getBit (words : ℕ → U64) (i : ℕ) {k : ℕ} (hk : k < 64) :
    (words i).getLsbD k = getBit words ((i <<< 6) + k) := by
  have hi : (i <<< 6) = i * 64 := Nat.shiftLeft_eq i 6
  rw [getBit_eq, hi, show (i * 64 + k) / 64 = i by omega, show (i * 64 + k) % 64 = k by omega]

lemma getBit_setBit (words : ℕ → U64) (n m : ℕ) :
    getBit (setBit words n) m = (getBit words m || decide (m = n)) := by
  rw [getBit_eq, getBit_eq, setBit, shiftRight_six, and_sixtyThree, Function.update_apply]
  split_ifs with h
  · rw [BitVec.getLsbD_or, getLsbD_one_shl (Nat.mod_lt _ (by decide)), h]
    congr 1
    rw [decide_eq_decide]
    omega
  · have hne : m ≠ n := fun he => h (by rw [he])
    simp [hne]

lemma getBit_clearBit (words : ℕ → U64) (n m : ℕ) :
    getBit (clearBit words n) m = (getBit words m && !decide (m = n)) := by
  rw [getBit_eq, getBit_eq, clearBit, shiftRight_six, and_sixtyThree, Function.update_apply]
  split_ifs with h
  · rw [BitVec.getLsbD_and, BitVec.getLsbD_not,
      getLsbD_one_shl (Nat.mod_lt _ (by decide)), h]
    have hlt : m % 64 < 64 := Nat.mod_lt _ (by decide)
    have hiff : (m % 64 = n % 64) ↔ (m = n) := by omega
    simp [hlt, hiff]
  · have hne : m ≠ n := fun he => h (by rw [he])
    simp [hne]

/-- The words are determined by the indices they represent. -/
lemma words_ext {words words' : ℕ → U64} (h : ∀ n, getBit words n = getBit words' n) :
    words = words' := by
  funext i
  apply BitVec.eq_of_getLsbD_eq
  intro k hk
  rw [getLsbD_eq_getBit words i hk, getLsbD_eq_getBit words' i hk, h]

/-- Removing an index that is not there changes nothing. -/
lemma clearBit_of_clear {words : ℕ → U64} {n : ℕ} (h : getBit words n = false) :
    clearBit words n = words := by
  refine words_ext fun m => ?_
  rw [getBit_clearBit]
  by_cases hm : m = n
  · rw [hm, h, Bool.false_and]
  · simp [hm]

/-- Adding a list of indices adds exactly those. -/
lemma getBit_foldl_setBit (l : List ℕ) (words : ℕ → U64) (m : ℕ) :
    getBit (l.foldl setBit words) m = (getBit words m || decide (m ∈ l)) := by
  induction l generalizing words with
  | nil => simp
  | cons n l ih =>
    rw [List.foldl_cons, ih, getBit_setBit, Bool.or_assoc]
    congr 1
    simp [List.mem_cons, Bool.decide_or]

/-- Removing a list of indices removes exactly those. -/
lemma getBit_foldl_clearBit (l : List ℕ) (words : ℕ → U64) (m : ℕ) :
    getBit (l.foldl clearBit words) m = (getBit words m && !decide (m ∈ l)) := by
  induction l generalizing words with
  | nil => simp
  | cons n l ih =>
    rw [List.foldl_cons, ih, getBit_clearBit, Bool.and_assoc]
    congr 1
    simp [List.mem_cons, Bool.decide_or]

/-! ## The represented set, and its size -/

/-- The indices below `N` that are set. -/
def setBits (words : ℕ → U64) (N : ℕ) : Finset ℕ :=
  (Finset.range N).filter fun n => getBit words n = true

@[simp] lemma mem_setBits {words : ℕ → U64} {N n : ℕ} :
    n ∈ setBits words N ↔ n < N ∧ getBit words n = true := by
  simp [setBits]

lemma card_setBits_le (words : ℕ → U64) (N : ℕ) : (setBits words N).card ≤ N := by
  have h := Finset.card_filter_le (Finset.range N) (fun n => getBit words n = true)
  rwa [Finset.card_range] at h

end Masika
