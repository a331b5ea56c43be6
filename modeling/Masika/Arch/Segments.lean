import Mathlib.Tactic.Common
import Masika.Core.BitPacked

/-!
# Segment descriptors

A descriptor of the global descriptor table has a base of 32 bits and a limit of 20 bits, scattered
over its fields: `base_lo`, `base_mid` and `base_hi` are the base from the lowest bits to the
highest, `limit` is the lower part of the limit and the low half of `flags_limit_hi` its upper part.

`make_code_seg` and `make_data_seg` follow this layout.  `make_tss_desc` does not: it puts bits 24
to 27 of the address where the limit is continued, and bits 32 to 39 where the base is.  So the
segment it describes has the right base and limit only if these bits of the address happen to be
those that belong there (`descriptorsDecode_iff`).
-/

namespace Masika

/-- A segment descriptor. -/
structure Descriptor where
  limit : U16
  baseLo : U16
  baseMid : U8
  access : U8
  flagsLimitHi : U8
  baseHi : U8
deriving DecidableEq, Repr

namespace Descriptor

/-- The base that the processor reads from a descriptor. -/
def decodedBase (d : Descriptor) : U32 := d.baseHi ++ (d.baseMid ++ d.baseLo)

/-- The limit that the processor reads from a descriptor. -/
def decodedLimit (d : Descriptor) : BitVec 20 := d.flagsLimitHi.extractLsb' 0 4 ++ d.limit

end Descriptor

/-- The sizes of the fields of `TssEntry` in bytes: `reserved` and the three stack pointers,
`reserved2`, the seven entries of the interrupt stack table, `reserved3`, `iopb_offset`. -/
def tssEntryFields : List ℕ :=
  List.replicate 7 4 ++ [8] ++ List.replicate 14 4 ++ [8] ++ [2]

/-- `size_of::<TssEntry>()`; the struct is packed. -/
def sizeOfTssEntry : ℕ := tssEntryFields.sum

namespace Gdt

/-- What `make_code_seg` and `make_data_seg` have in common. -/
def makeSeg (access flags : U8) (base limit : U32) : Descriptor where
  limit := limit.setWidth 16
  baseLo := base.setWidth 16
  baseMid := (base >>> 16).setWidth 8
  access := access
  flagsLimitHi := ((limit >>> 16).setWidth 8 &&& 0x0f#8) ||| flags
  baseHi := (base >>> 24).setWidth 8

/-- A code segment. -/
def makeCodeSeg : U32 → U32 → Descriptor := makeSeg 0x9a#8 0xa0#8

/-- A data segment. -/
def makeDataSeg : U32 → U32 → Descriptor := makeSeg 0x92#8 0xc0#8

/-- `make_tss_desc`, when `TSS` is at the address `addr`. -/
def makeTssDesc (addr : U64) : Descriptor where
  limit := BitVec.ofNat 16 (sizeOfTssEntry - 1)
  baseLo := addr.setWidth 16
  baseMid := (addr >>> 16).setWidth 8
  access := 0x89#8
  flagsLimitHi := ((addr >>> 24).setWidth 8 &&& 0x0f#8) ||| 0x40#8
  baseHi := (addr >>> 32).setWidth 8

end Gdt

/-! ## The layout -/

/-- The low half of `flags_limit_hi` is not touched by flags in the high half. -/
lemma low_nibble_or (x flags : U8) (hflags : flags.extractLsb' 0 4 = 0#4) :
    ((x &&& 0x0f#8) ||| flags).extractLsb' 0 4 = x.extractLsb' 0 4 := by
  have hmask : (0x0f#8).extractLsb' 0 4 = BitVec.allOnes 4 := by decide
  rw [BitVec.extractLsb'_or, BitVec.extractLsb'_and, hflags, hmask, BitVec.and_allOnes,
    BitVec.or_zero]

/-- The lower three bytes of a base or an address. -/
lemma join_low {w : ℕ} (x : BitVec w) (hw : 16 ≤ w) :
    (x >>> 16).setWidth 8 ++ x.setWidth 16 = x.extractLsb' 0 24 := by
  rw [BitVec.setWidth_ushiftRight_eq_extractLsb, BitVec.setWidth_eq_extractLsb' hw]
  exact BitVec.extractLsb'_append_extractLsb'_eq_extractLsb' rfl

lemma join_top {w : ℕ} (x : BitVec w) :
    x.extractLsb' 24 8 ++ x.extractLsb' 0 24 = x.extractLsb' 0 32 :=
  BitVec.extractLsb'_append_extractLsb'_eq_extractLsb' rfl

lemma append_left_inj_iff {v w : ℕ} {a b : BitVec v} (c : BitVec w) : a ++ c = b ++ c ↔ a = b := by
  constructor
  · intro h
    have hleft := congrArg (BitVec.extractLsb' w v) h
    rwa [BitVec.extractLsb'_append_eq_left, BitVec.extractLsb'_append_eq_left] at hleft
  · intro h
    rw [h]

/-! ## Code and data -/

section Segments

variable (access : U8) {flags : U8} (base limit : U32)

lemma decodedBase_makeSeg : (Gdt.makeSeg access flags base limit).decodedBase = base := by
  simp only [Descriptor.decodedBase, Gdt.makeSeg]
  rw [join_low base (by decide), BitVec.setWidth_ushiftRight_eq_extractLsb, join_top,
    BitVec.extractLsb'_eq_self]

lemma decodedLimit_makeSeg (hflags : flags.extractLsb' 0 4 = 0#4) :
    (Gdt.makeSeg access flags base limit).decodedLimit = limit.setWidth 20 := by
  simp only [Descriptor.decodedLimit, Gdt.makeSeg]
  rw [low_nibble_or _ _ hflags, BitVec.extractLsb'_setWidth_of_le (by decide),
    BitVec.setWidth_eq_extractLsb' (show 16 ≤ 32 by decide),
    BitVec.setWidth_eq_extractLsb' (show 20 ≤ 32 by decide)]
  have hhigh : (limit >>> 16).extractLsb' 0 4 = limit.extractLsb' 16 4 := by
    rw [← BitVec.setWidth_eq_extractLsb' (by decide), BitVec.setWidth_ushiftRight_eq_extractLsb]
  rw [hhigh]
  exact BitVec.extractLsb'_append_extractLsb'_eq_extractLsb' rfl

end Segments

/-- A descriptor of the segment with the given base and limit. -/
def Describes (d : Descriptor) (base : U32) (limit : ℕ) : Prop :=
  d.decodedBase = base ∧ d.decodedLimit.toNat = limit

lemma makeSeg_describes (access : U8) {flags : U8}
    (hflags : flags.extractLsb' 0 4 = 0#4) (base : U32) {limit : U32}
    (hlimit : limit.toNat < 2 ^ 20) :
    Describes (Gdt.makeSeg access flags base limit) base limit.toNat := by
  refine ⟨decodedBase_makeSeg access base limit, ?_⟩
  rw [decodedLimit_makeSeg access base limit hflags, BitVec.toNat_setWidth,
    Nat.mod_eq_of_lt hlimit]

/-! ## The task state segment -/

lemma decodedBase_makeTssDesc (addr : U64) :
    (Gdt.makeTssDesc addr).decodedBase = addr.extractLsb' 32 8 ++ addr.extractLsb' 0 24 := by
  simp only [Descriptor.decodedBase, Gdt.makeTssDesc]
  rw [join_low addr (by decide), BitVec.setWidth_ushiftRight_eq_extractLsb]

lemma decodedLimit_makeTssDesc (addr : U64) :
    (Gdt.makeTssDesc addr).decodedLimit =
      addr.extractLsb' 24 4 ++ BitVec.ofNat 16 (sizeOfTssEntry - 1) := by
  simp only [Descriptor.decodedLimit, Gdt.makeTssDesc]
  rw [low_nibble_or _ _ (by decide), BitVec.extractLsb'_setWidth_of_le (by decide),
    ← BitVec.setWidth_eq_extractLsb' (by decide), BitVec.setWidth_ushiftRight_eq_extractLsb]

/-- **Which addresses `make_tss_desc` encodes**: those whose misplaced bits do no harm. -/
lemma makeTssDesc_describes_iff (addr : U64) :
    Describes (Gdt.makeTssDesc addr) (addr.setWidth 32) (sizeOfTssEntry - 1) ↔
      addr.extractLsb' 24 4 = 0#4 ∧ addr.extractLsb' 32 8 = addr.extractLsb' 24 8 := by
  have hbase : (Gdt.makeTssDesc addr).decodedBase = addr.setWidth 32 ↔
      addr.extractLsb' 32 8 = addr.extractLsb' 24 8 := by
    rw [decodedBase_makeTssDesc, BitVec.setWidth_eq_extractLsb' (by decide), ← join_top]
    exact append_left_inj_iff _
  have hlimit : (Gdt.makeTssDesc addr).decodedLimit.toNat = sizeOfTssEntry - 1 ↔
      addr.extractLsb' 24 4 = 0#4 := by
    have hsize : (0#4 ++ BitVec.ofNat 16 (sizeOfTssEntry - 1)).toNat = sizeOfTssEntry - 1 := by
      decide
    rw [← hsize, BitVec.toNat_inj, decodedLimit_makeTssDesc]
    exact append_left_inj_iff _
  rw [Describes, hbase, hlimit, and_comm]

/-! ## The property -/

/-- **Descriptors decode to their base and limit**, with the task state segment at `addr`. -/
structure DescriptorsDecode (addr : U64) : Prop where
  code : ∀ base limit : U32, limit.toNat < 2 ^ 20 →
    Describes (Gdt.makeCodeSeg base limit) base limit.toNat
  data : ∀ base limit : U32, limit.toNat < 2 ^ 20 →
    Describes (Gdt.makeDataSeg base limit) base limit.toNat
  tss : Describes (Gdt.makeTssDesc addr) (addr.setWidth 32) (sizeOfTssEntry - 1)

/-- **When descriptors decode correctly**: those of code and data always do, that of the task state
segment does if bits 24 to 27 of its address are 0 and bits 32 to 39 repeat bits 24 to 31. -/
theorem descriptorsDecode_iff (addr : U64) :
    DescriptorsDecode addr ↔
      addr.extractLsb' 24 4 = 0#4 ∧ addr.extractLsb' 32 8 = addr.extractLsb' 24 8 := by
  rw [← makeTssDesc_describes_iff]
  constructor
  · intro h
    exact h.tss
  · intro htss
    exact ⟨fun base limit h => makeSeg_describes _ (by decide) base h,
      fun base limit h => makeSeg_describes _ (by decide) base h, htss⟩

/-- **A task state segment at 17 MiB** is described as one at 1 MiB that is larger than 64 KiB. -/
theorem makeTssDesc_wrong_above_16MiB :
    (Gdt.makeTssDesc 0x1100000#64).decodedBase = 0x100000#32 ∧
      (Gdt.makeTssDesc 0x1100000#64).decodedLimit.toNat = 0x10065 ∧
      sizeOfTssEntry - 1 = 0x65 ∧ ¬ DescriptorsDecode 0x1100000#64 := by
  refine ⟨by decide, by decide, by decide, fun h => ?_⟩
  exact absurd h.tss.1 (by decide)

end Masika
