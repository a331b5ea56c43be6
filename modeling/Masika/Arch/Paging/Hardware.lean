import Masika.Arch.Paging.Entry
import Masika.Core.RadixForest

/-!
# What the processor makes of the tables

The paging structures as an x86-64 processor reads them, independently of the code that writes
them: an address is split into four 9-bit indices and a 12-bit offset; an entry is used when bit 0
is set, and the table (or frame) it refers to is in bits 12 to 51; a walk may set the Accessed bit
of the entries it uses and the Dirty bit of the last one; a page is user-accessible, or writable,
when all four entries on the way say so.

`x86` packages the layout as a `RadixFormat`, so that the facts of `Core.RadixForest` are facts
about what the *processor* sees.  The kernel's own walks are compared with it in `Tables`.
-/

namespace Masika

open PageTableEntry

/-! ## How an address is split -/

lemma nine_bits_lt (x : U64) : (x &&& 0x1FF#64).toNat < 512 := by
  have h : (x &&& 0x1FF#64).toNat = x.toNat % 512 := by
    rw [BitVec.toNat_and]
    exact Nat.and_two_pow_sub_one_eq_mod x.toNat 9
  omega

/-- A table has `ENTRY_COUNT` entries, and so a first one. -/
instance entryCount_neZero : NeZero 512 := ⟨by decide⟩

/-- `(virt >> 39) & 0x1FF`. -/
def pml4Index (virt : U64) : Fin 512 := ⟨((virt >>> 39) &&& 0x1FF#64).toNat, nine_bits_lt _⟩

/-- `(virt >> 30) & 0x1FF`. -/
def pdptIndex (virt : U64) : Fin 512 := ⟨((virt >>> 30) &&& 0x1FF#64).toNat, nine_bits_lt _⟩

/-- `(virt >> 21) & 0x1FF`. -/
def pdIndex (virt : U64) : Fin 512 := ⟨((virt >>> 21) &&& 0x1FF#64).toNat, nine_bits_lt _⟩

/-- `(virt >> 12) & 0x1FF`. -/
def ptIndex (virt : U64) : Fin 512 := ⟨((virt >>> 12) &&& 0x1FF#64).toNat, nine_bits_lt _⟩

/-- The indices of the entries on the way down from the top table. -/
abbrev Path := List (Fin 512)

/-- The indices that lead to the page table of an address. -/
def upperPath (virt : U64) : Path := [pml4Index virt, pdptIndex virt, pdIndex virt]

@[simp] lemma upperPath_length (virt : U64) : (upperPath virt).length = 3 := rfl

/-- The page of an address: bits 12 to 47. -/
def pageNumber (virt : U64) : BitVec 36 := virt.extractLsb' 12 36

lemma shift_index_toNat (virt : U64) (k : ℕ) :
    ((virt >>> k) &&& 0x1FF#64).toNat = virt.toNat / 2 ^ k % 512 := by
  rw [BitVec.toNat_and, BitVec.toNat_ushiftRight, Nat.shiftRight_eq_div_pow]
  exact Nat.and_two_pow_sub_one_eq_mod _ 9

/-- Two addresses lie in the same page exactly when all four indices agree. -/
lemma pageNumber_eq_iff (v w : U64) :
    pageNumber v = pageNumber w ↔ upperPath v = upperPath w ∧ ptIndex v = ptIndex w := by
  simp only [pageNumber, upperPath, pml4Index, pdptIndex, pdIndex, ptIndex, List.cons.injEq,
    Fin.mk.injEq, shift_index_toNat, and_true]
  rw [← BitVec.toNat_inj, BitVec.extractLsb'_toNat, BitVec.extractLsb'_toNat,
    Nat.shiftRight_eq_div_pow, Nat.shiftRight_eq_div_pow]
  omega

/-- The address with the given indices, and offset zero. -/
def virtOf (i j k l : Fin 512) : U64 :=
  BitVec.ofNat 64 i.val <<< 39 ||| BitVec.ofNat 64 j.val <<< 30 ||| BitVec.ofNat 64 k.val <<< 21
    ||| BitVec.ofNat 64 l.val <<< 12

lemma toNat_virtOf (i j k l : Fin 512) :
    (virtOf i j k l).toNat = ((i.val * 512 + j.val) * 512 + k.val) * 2 ^ 21 + l.val * 2 ^ 12 := by
  have hi := i.isLt
  have hj := j.isLt
  have hk := k.isLt
  have hl := l.isLt
  have hor : ∀ a b : ℕ, b < 512 →
      a <<< 39 ||| b <<< 30 = (a * 512 + b) <<< 30 ∧ a <<< 30 ||| b <<< 21 = (a * 512 + b) <<< 21 ∧
        a <<< 21 ||| b <<< 12 = (a * 512 + b) <<< 12 := by
    intro a b hb
    have hlt : b <<< 30 < 2 ^ 39 ∧ b <<< 21 < 2 ^ 30 ∧ b <<< 12 < 2 ^ 21 := by
      simp only [Nat.shiftLeft_eq]
      omega
    rw [← Nat.shiftLeft_add_eq_or_of_lt hlt.1, ← Nat.shiftLeft_add_eq_or_of_lt hlt.2.1,
      ← Nat.shiftLeft_add_eq_or_of_lt hlt.2.2]
    simp only [Nat.shiftLeft_eq]
    omega
  have hshift : (BitVec.ofNat 64 i.val <<< 39).toNat = i.val <<< 39 ∧
      (BitVec.ofNat 64 j.val <<< 30).toNat = j.val <<< 30 ∧
      (BitVec.ofNat 64 k.val <<< 21).toNat = k.val <<< 21 ∧
      (BitVec.ofNat 64 l.val <<< 12).toNat = l.val <<< 12 := by
    simp only [BitVec.toNat_shiftLeft, BitVec.toNat_ofNat, Nat.shiftLeft_eq]
    omega
  rw [virtOf, BitVec.toNat_or, BitVec.toNat_or, BitVec.toNat_or, hshift.1, hshift.2.1,
    hshift.2.2.1, hshift.2.2.2, (hor _ _ hj).1, (hor _ _ hk).2.1, (hor _ _ hl).2.2,
    Nat.shiftLeft_eq]
  omega

lemma upperPath_virtOf (i j k l : Fin 512) : upperPath (virtOf i j k l) = [i, j, k] := by
  have hi := i.isLt
  have hj := j.isLt
  have hk := k.isLt
  have hl := l.isLt
  simp only [upperPath, pml4Index, pdptIndex, pdIndex, shift_index_toNat, toNat_virtOf,
    List.cons.injEq, Fin.ext_iff, and_true]
  omega

lemma ptIndex_virtOf (i j k l : Fin 512) : ptIndex (virtOf i j k l) = l := by
  have hl := l.isLt
  simp only [ptIndex, shift_index_toNat, toNat_virtOf, Fin.ext_iff]
  omega

/-! ## The format -/

/-- The address field of an entry: bits 12 to 51. -/
def hwAddr (e : PageTableEntry) : U64 := e &&& 0x000FFFFFFFFFF000#64

/-- The table an entry refers to, if it is present. -/
def hwNext (e : PageTableEntry) : Option ℕ := if present e then some (hwAddr e).toNat else none

/-- Four-kilobyte tables of 512 eight-byte entries, read the way the processor reads them. -/
def x86 : RadixFormat (Fin 512) U64 where
  slot t i := t + 8 * i.val
  Aligned t := t % 4096 = 0
  inTable t x := decide (t ≤ x ∧ x < t + 4096 ∧ (x - t) % 8 = 0)
  decode := hwNext
  zero := 0#64
  slot_inTable t i := by
    have := i.isLt
    rw [decide_eq_true_eq]
    omega
  exists_slot t x hx := by
    rw [decide_eq_true_eq] at hx
    exact ⟨⟨(x - t) / 8, by omega⟩, by simp only; omega⟩
  slot_inj t i j h := by
    apply Fin.ext
    omega
  apart t t' x ht ht' hx hx' := by
    rw [decide_eq_true_eq] at hx hx'
    omega
  decode_zero := rfl

/-! ## Walks -/

/-- The address of the last entry a walk uses, when the three entries above it are present. -/
def hwLeafSlot (mem : ℕ → U64) (root : ℕ) (virt : U64) : Option ℕ :=
  (x86.tableAt mem root (upperPath virt)).map fun t => x86.slot t (ptIndex virt)

/-- The physical address the processor computes, if the page is mapped. -/
def hwTranslate (mem : ℕ → U64) (root : ℕ) (virt : U64) : Option U64 :=
  (hwLeafSlot mem root virt).bind fun a =>
    if present (mem a) then some (hwAddr (mem a) ||| (virt &&& 0xFFF#64)) else none

/-- Which of the status bits a walk sets: the Accessed bit at each level, and the Dirty bit of the
last entry.  All of them are the processor's choice. -/
structure WalkMarks where
  pml4 : Bool
  pdpt : Bool
  pd : Bool
  pt : Bool
  dirty : Bool

/-- Set some status bits of a present entry. -/
def touch (mem : ℕ → U64) (a : ℕ) (accessed dirty : Bool) : ℕ → U64 :=
  if present (mem a) then
    let e := if accessed then mem a ||| 0x20#64 else mem a
    Function.update mem a (if dirty then e ||| 0x40#64 else e)
  else mem

/-- The memory after the processor has walked to `virt`. -/
def hwWalk (mem : ℕ → U64) (root : ℕ) (virt : U64) (m : WalkMarks) : ℕ → U64 :=
  let pml4Entry := x86.slot root (pml4Index virt)
  let mem₁ := touch mem pml4Entry m.pml4 false
  match hwNext (mem pml4Entry) with
  | none => mem₁
  | some pdpt =>
    let pdptEntry := x86.slot pdpt (pdptIndex virt)
    let mem₂ := touch mem₁ pdptEntry m.pdpt false
    match hwNext (mem₁ pdptEntry) with
    | none => mem₂
    | some pd =>
      let pdEntry := x86.slot pd (pdIndex virt)
      let mem₃ := touch mem₂ pdEntry m.pd false
      match hwNext (mem₂ pdEntry) with
      | none => mem₃
      | some pt => touch mem₃ (x86.slot pt (ptIndex virt)) m.pt m.dirty

/-- The words met from table `t` on, down to the one at the end of the path. -/
def entriesAlong (mem : ℕ → U64) : ℕ → Path → Fin 512 → Option (List PageTableEntry)
  | t, [], i => some [mem (x86.slot t i)]
  | t, j :: π, i =>
    (hwNext (mem (x86.slot t j))).bind fun t' =>
      (entriesAlong mem t' π i).map (mem (x86.slot t j) :: ·)

/-- The rights of a page, user-accessible and writable, by the rule of the architecture: the
conjunction over the entries of all four levels.  `none` when the page is not mapped. -/
def effectiveRights (mem : ℕ → U64) (root : ℕ) (virt : U64) : Option (Bool × Bool) :=
  (entriesAlong mem root (upperPath virt) (ptIndex virt)).bind fun es =>
    if es.all present then some (es.all userAccessible, es.all writable) else none

/-! ## Bits of the address field -/

lemma getLsbD_hwAddr (e : PageTableEntry) (j : ℕ) :
    (hwAddr e).getLsbD j = (e.getLsbD j && decide (12 ≤ j ∧ j < 52)) := by
  have hmask : (0x000FFFFFFFFFF000#64).getLsbD j = decide (12 ≤ j ∧ j < 52) :=
    getLsbD_const (p := fun j => decide (12 ≤ j ∧ j < 52)) (by decide)
      (fun j hj => decide_eq_false (by omega)) j
  rw [hwAddr, BitVec.getLsbD_and, hmask]

/-- The processor reads the address of a linked table back exactly. -/
lemma hwNext_linkEntry {a : ℕ} (hal : a % 4096 = 0) (hlow : a < 2 ^ 48) :
    hwNext (linkEntry a) = some a := by
  have hpresent : present (linkEntry a) = true := by
    rw [present_eq]
    exact getLsbD_linkEntry_of_lt_two a (by decide)
  have hword : hwAddr (linkEntry a) = BitVec.ofNat 64 a := by
    apply BitVec.eq_of_getLsbD_eq
    intro j hj
    rw [getLsbD_hwAddr]
    by_cases hmid : 12 ≤ j ∧ j < 48
    · rw [getLsbD_linkEntry_of_two_le a (by omega)]
      have h52 : 12 ≤ j ∧ j < 52 := by omega
      simp [h52]
    · rw [getLsbD_ofNat_aligned hal hlow (by omega)]
      by_cases h52 : 12 ≤ j ∧ j < 52
      · rw [getLsbD_linkEntry_of_two_le a (by omega), getLsbD_ofNat_aligned hal hlow (by omega)]
        rfl
      · simp [h52]
  rw [hwNext, hpresent, if_pos rfl, hword, BitVec.toNat_ofNat, Nat.mod_eq_of_lt]
  exact lt_of_lt_of_le hlow (by decide)

end Masika
