import Masika.Core.BitPacked

/-!
# Page-table entries

`PageTableEntry` of `arch/paging.rs` is a 64-bit word with accessors.  The flag accessors are one
pair of definitions with the mask and the shift as parameters; the address accessors use
`addrMask`, which is **not** the architectural field: it covers bits 4 to 47, and so overlaps the
flag bits 4 to 11.

The lemmas are bit by bit.  Each accessor says what every bit of its result is, and the combinations
used by the mapper follow by comparing bits: `linkEntry` (the entry that links a table) and
`leafEntry` (the entry that maps a page).
-/

namespace Masika

/-- `PageTableEntry(u64)`. -/
abbrev PageTableEntry := U64

namespace PageTableEntry

/-! ## The accessors -/

/-- `self.0 & mask != 0`. -/
def testFlag (mask : U64) (e : PageTableEntry) : Bool := e &&& mask != 0#64

/-- `self.0 = (self.0 & !mask) | ((value as u64) << shift)`. -/
def putFlag (mask : U64) (shift : ℕ) (value : Bool) (e : PageTableEntry) : PageTableEntry :=
  (e &&& ~~~mask) ||| ((if value then 1#64 else 0#64) <<< shift)

/-- No entry. -/
def empty : PageTableEntry := 0#64

/-- Bit 0. -/
def present : PageTableEntry → Bool := testFlag 1#64

/-- Bit 1. -/
def writable : PageTableEntry → Bool := testFlag 2#64

/-- Bit 2. -/
def userAccessible : PageTableEntry → Bool := testFlag 4#64

/-- Bit 3. -/
def writeThrough : PageTableEntry → Bool := testFlag 8#64

/-- Bit 4. -/
def cacheDisabled : PageTableEntry → Bool := testFlag 16#64

/-- Bit 5. -/
def accessed : PageTableEntry → Bool := testFlag 32#64

/-- Bit 6. -/
def dirty : PageTableEntry → Bool := testFlag 64#64

/-- Bit 7. -/
def hugePage : PageTableEntry → Bool := testFlag 128#64

/-- Bit 8. -/
def global : PageTableEntry → Bool := testFlag 256#64

/-- Set or clear bit 0. -/
def setPresent (value : Bool) : PageTableEntry → PageTableEntry := putFlag 1#64 0 value

/-- Set or clear bit 1. -/
def setWritable (value : Bool) : PageTableEntry → PageTableEntry := putFlag 2#64 1 value

/-- Set or clear bit 2. -/
def setUser (value : Bool) : PageTableEntry → PageTableEntry := putFlag 4#64 2 value

/-- Set or clear bit 3. -/
def setWriteThrough (value : Bool) : PageTableEntry → PageTableEntry := putFlag 8#64 3 value

/-- Set or clear bit 4. -/
def setCacheDisabled (value : Bool) : PageTableEntry → PageTableEntry := putFlag 16#64 4 value

/-- Set or clear bit 5. -/
def setAccessed (value : Bool) : PageTableEntry → PageTableEntry := putFlag 32#64 5 value

/-- Set or clear bit 6. -/
def setDirty (value : Bool) : PageTableEntry → PageTableEntry := putFlag 64#64 6 value

/-- Set or clear bit 7. -/
def setHuge (value : Bool) : PageTableEntry → PageTableEntry := putFlag 128#64 7 value

/-- Set or clear bit 8. -/
def setGlobal (value : Bool) : PageTableEntry → PageTableEntry := putFlag 256#64 8 value

/-- The mask of `addr` and `set_addr`, `0x000FFFF_FFFFFFF0` in the source: bits 4 to 47. -/
def addrMask : U64 := 0x000FFFFFFFFFFF0#64

/-- The address field. -/
def addr (e : PageTableEntry) : U64 := e &&& addrMask

/-- Set the address field. -/
def setAddr (a : U64) (e : PageTableEntry) : PageTableEntry :=
  (e &&& ~~~addrMask) ||| (a &&& addrMask)

/-- The low twelve bits. -/
def flags (e : PageTableEntry) : U64 := e &&& 0xFFF#64

/-- Set the low twelve bits. -/
def setFlags (f : U64) (e : PageTableEntry) : PageTableEntry :=
  (e &&& ~~~0xFFF#64) ||| (f &&& 0xFFF#64)

/-! ## Bits -/

/-- The bits of a constant, from its sixty-four cases. -/
lemma getLsbD_const {m : U64} {p : ℕ → Bool} (hbits : ∀ k : Fin 64, m.getLsbD k = p k)
    (hhigh : ∀ j, 64 ≤ j → p j = false) (j : ℕ) : m.getLsbD j = p j := by
  by_cases hj : j < 64
  · exact hbits ⟨j, hj⟩
  · rw [BitVec.getLsbD_of_ge _ _ (by omega), hhigh j (by omega)]

lemma getLsbD_addrMask (j : ℕ) : addrMask.getLsbD j = decide (4 ≤ j ∧ j < 48) :=
  getLsbD_const (p := fun j => decide (4 ≤ j ∧ j < 48)) (by decide)
    (fun j hj => decide_eq_false (by omega)) j

lemma getLsbD_flagMask (j : ℕ) : (0xFFF#64).getLsbD j = decide (j < 12) :=
  getLsbD_const (p := fun j => decide (j < 12)) (by decide)
    (fun j hj => decide_eq_false (by omega)) j

lemma testFlag_one_shl {k : ℕ} (hk : k < 64) (e : PageTableEntry) :
    testFlag (1#64 <<< k) e = e.getLsbD k := and_one_shl_ne_zero e hk

lemma present_eq (e : PageTableEntry) : present e = e.getLsbD 0 :=
  testFlag_one_shl (show 0 < 64 by decide) e

lemma writable_eq (e : PageTableEntry) : writable e = e.getLsbD 1 :=
  testFlag_one_shl (show 1 < 64 by decide) e

lemma userAccessible_eq (e : PageTableEntry) : userAccessible e = e.getLsbD 2 :=
  testFlag_one_shl (show 2 < 64 by decide) e

/-- A flag is cleared first, and then it may be set. -/
lemma putFlag_one_shl (k : ℕ) (value : Bool) (e : PageTableEntry) :
    putFlag (1#64 <<< k) k value e = putBit k value e := by
  cases value with
  | false => simp [putFlag, putBit]
  | true =>
    refine BitVec.eq_of_getLsbD_eq fun j hj => ?_
    simp only [putFlag, putBit, if_true, BitVec.getLsbD_or, BitVec.getLsbD_and,
      BitVec.getLsbD_not, hj, decide_true, Bool.true_and]
    cases e.getLsbD j <;> cases (1#64 <<< k).getLsbD j <;> rfl

/-- Storing a flag changes one bit. -/
lemma getLsbD_putFlag {k : ℕ} (hk : k < 64) (value : Bool) (e : PageTableEntry) (j : ℕ) :
    (putFlag (1#64 <<< k) k value e).getLsbD j
      = if j = k then value else e.getLsbD j := by
  rw [putFlag_one_shl, getLsbD_putBit hk]

lemma getLsbD_setPresent (value : Bool) (e : PageTableEntry) (j : ℕ) :
    (setPresent value e).getLsbD j = if j = 0 then value else e.getLsbD j :=
  getLsbD_putFlag (show 0 < 64 by decide) value e j

lemma getLsbD_setWritable (value : Bool) (e : PageTableEntry) (j : ℕ) :
    (setWritable value e).getLsbD j = if j = 1 then value else e.getLsbD j :=
  getLsbD_putFlag (show 1 < 64 by decide) value e j

lemma getLsbD_setUser (value : Bool) (e : PageTableEntry) (j : ℕ) :
    (setUser value e).getLsbD j = if j = 2 then value else e.getLsbD j :=
  getLsbD_putFlag (show 2 < 64 by decide) value e j

lemma getLsbD_addr (e : PageTableEntry) (j : ℕ) :
    (addr e).getLsbD j = (e.getLsbD j && decide (4 ≤ j ∧ j < 48)) := by
  rw [addr, BitVec.getLsbD_and, getLsbD_addrMask]

/-- `set_addr` replaces bits 4 to 47, flags included. -/
lemma getLsbD_setAddr (a : U64) (e : PageTableEntry) (j : ℕ) :
    (setAddr a e).getLsbD j = if 4 ≤ j ∧ j < 48 then a.getLsbD j else e.getLsbD j := by
  rw [setAddr, BitVec.getLsbD_or, BitVec.getLsbD_and, BitVec.getLsbD_and, BitVec.getLsbD_not,
    getLsbD_addrMask]
  by_cases hj : 4 ≤ j ∧ j < 48
  · simp [hj]
  · by_cases h64 : j < 64
    · simp [hj, h64]
    · simp [hj, BitVec.getLsbD_of_ge e j (by omega)]

/-- `set_flags` replaces bits 0 to 11. -/
lemma getLsbD_setFlags (f : U64) (e : PageTableEntry) (j : ℕ) :
    (setFlags f e).getLsbD j = if j < 12 then f.getLsbD j else e.getLsbD j := by
  rw [setFlags, BitVec.getLsbD_or, BitVec.getLsbD_and, BitVec.getLsbD_and, BitVec.getLsbD_not,
    getLsbD_flagMask]
  by_cases hj : j < 12
  · simp [hj]
  · by_cases h64 : j < 64
    · simp [hj, h64]
    · simp [hj, BitVec.getLsbD_of_ge e j (by omega)]

/-! ## Page-aligned addresses -/

/-- The bits of a page-aligned address below `2 ^ n` lie between 12 and `n`. -/
lemma getLsbD_ofNat_aligned {a n : ℕ} (hal : a % 4096 = 0) (hlow : a < 2 ^ n) {j : ℕ}
    (hj : j < 12 ∨ n ≤ j) : (BitVec.ofNat 64 a).getLsbD j = false := by
  have hbit : a.testBit j = false := by
    rcases hj with hj | hj
    · have hmul : a = 2 ^ 12 * (a / 4096) := by omega
      rw [hmul, Nat.testBit_two_pow_mul]
      have hlt : ¬ 12 ≤ j := by omega
      simp [hlt]
    · exact Nat.testBit_lt_two_pow (lt_of_lt_of_le hlow (Nat.pow_le_pow_right (by decide) hj))
  rw [BitVec.getLsbD_ofNat, hbit, Bool.and_false]

/-- Rounding an address down to a page boundary. -/
lemma toNat_and_not_flagMask (x : U64) : (x &&& ~~~0xFFF#64).toNat = x.toNat / 4096 * 4096 := by
  have hshift : x &&& ~~~0xFFF#64 = x >>> 12 <<< 12 := by
    apply BitVec.eq_of_getLsbD_eq
    intro j hj
    rw [BitVec.getLsbD_and, BitVec.getLsbD_not, getLsbD_flagMask, BitVec.getLsbD_shiftLeft,
      BitVec.getLsbD_ushiftRight]
    by_cases hlow : j < 12
    · simp [hlow]
    · rw [show 12 + (j - 12) = j by omega]
      simp [hlow, hj]
  have hx := x.isLt
  rw [hshift, BitVec.toNat_shiftLeft, BitVec.toNat_ushiftRight, Nat.shiftRight_eq_div_pow,
    Nat.shiftLeft_eq, Nat.mod_eq_of_lt (by omega)]

lemma getLsbD_three (j : ℕ) : (3#64).getLsbD j = decide (j < 2) :=
  getLsbD_const (p := fun j => decide (j < 2)) (by decide)
    (fun j hj => decide_eq_false (by omega)) j

/-- The entry the mapper stores to link the table at `a`: present, writable, nothing else. -/
def linkEntry (a : ℕ) : PageTableEntry := BitVec.ofNat 64 a ||| 3#64

/-- Linking a table from an empty entry produces `linkEntry`. -/
lemma link_empty {a : ℕ} (hal : a % 4096 = 0) (hlow : a < 2 ^ 48) :
    setWritable true (setPresent true (setAddr (BitVec.ofNat 64 a) empty)) = linkEntry a := by
  apply BitVec.eq_of_getLsbD_eq
  intro j hj
  rw [getLsbD_setWritable, getLsbD_setPresent, getLsbD_setAddr, linkEntry, BitVec.getLsbD_or,
    getLsbD_three]
  by_cases h1 : j = 1
  · simp [h1]
  by_cases h0 : j = 0
  · simp [h0]
  have h2 : ¬ j < 2 := by omega
  by_cases hmid : 4 ≤ j ∧ j < 48
  · simp [h1, h0, h2, hmid]
  · rw [getLsbD_ofNat_aligned hal hlow (by omega)]
    simp [h1, h0, h2, hmid, empty]

lemma getLsbD_linkEntry_of_lt_two {j : ℕ} (a : ℕ) (hj : j < 2) :
    (linkEntry a).getLsbD j = true := by
  rw [linkEntry, BitVec.getLsbD_or, getLsbD_three]
  simp [hj]

lemma getLsbD_linkEntry_of_two_le {j : ℕ} (a : ℕ) (hj : 2 ≤ j) :
    (linkEntry a).getLsbD j = (BitVec.ofNat 64 a).getLsbD j := by
  rw [linkEntry, BitVec.getLsbD_or, getLsbD_three]
  have h2 : ¬ j < 2 := by omega
  simp [h2]

/-- An entry whose bits 4 to 47 are those of an aligned address holds that address. -/
lemma toNat_addr_of_bits {a : ℕ} (hal : a % 4096 = 0) (hlow : a < 2 ^ 48) {e : PageTableEntry}
    (hbits : ∀ j, 4 ≤ j → j < 48 → e.getLsbD j = (BitVec.ofNat 64 a).getLsbD j) :
    (addr e).toNat = a := by
  have hword : addr e = BitVec.ofNat 64 a := by
    apply BitVec.eq_of_getLsbD_eq
    intro j _
    rw [getLsbD_addr]
    by_cases hmid : 4 ≤ j ∧ j < 48
    · rw [hbits j hmid.1 hmid.2]
      simp [hmid]
    · rw [getLsbD_ofNat_aligned hal hlow (by omega)]
      simp [hmid]
  rw [hword, BitVec.toNat_ofNat, Nat.mod_eq_of_lt]
  exact lt_of_lt_of_le hlow (by decide)

/-- The software reads the linked address back exactly: no flag of a `linkEntry` lies in the part
of `addrMask` that overlaps the flags. -/
lemma addr_linkEntry {a : ℕ} (hal : a % 4096 = 0) (hlow : a < 2 ^ 48) :
    (addr (linkEntry a)).toNat = a :=
  toNat_addr_of_bits hal hlow fun _ hj _ => getLsbD_linkEntry_of_two_le a (by omega)

/-- The entry `map_page` leaves in a page table whose slot held `e`. -/
def leafEntry (phys f : U64) (e : PageTableEntry) : PageTableEntry := setFlags f (setAddr phys e)

lemma getLsbD_leafEntry (phys f : U64) (e : PageTableEntry) (j : ℕ) :
    (leafEntry phys f e).getLsbD j
      = if j < 12 then f.getLsbD j else if j < 48 then phys.getLsbD j else e.getLsbD j := by
  rw [leafEntry, getLsbD_setFlags, getLsbD_setAddr]
  by_cases h12 : j < 12
  · simp [h12]
  · have h4 : 4 ≤ j := by omega
    simp [h12, h4]

end PageTableEntry

end Masika
