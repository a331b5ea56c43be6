import Masika.Arch.Paging.Refinement
import Masika.Core.Loops
import Masika.Core.Strides
import Masika.Core.Usize

/-!
# Mapping ranges of kernel addresses

`map_range` and `unmap_range` compute the number of pages from the size; `map_kernel_space` goes on
until it has passed the end.  All of them begin at the address they are given and make steps of one
page, so that an address that is not a page boundary makes them miss the last page of some ranges.

**The loops.**  Each round sets the mapping of one page and leaves all other entries alone
(`EditsPage`).  `PagesSet` says this for the first `k` rounds; it is the invariant of all three
loops, and in terms of it they only differ in the mappings.

**Coverage.**  Which bytes lie in the pages of the rounds is a matter of arithmetic
(`strides_cover_iff`).  For `map_range` and `unmap_range` the answer is `mapRange_covers_iff`.

**Termination.**  The counter of `map_kernel_space` wraps around when the end lies in the last page
of the address space.  Then no value it can take has passed the end, and the loop goes on for ever
(`kernelSpaceLoop_endless`).  `mapKernelSpace_covers_iff` is the exact condition for both.

Addresses have 64 bits, of which the tables see bits 12 to 47.  "The same page" always means the
same such bits (`pageNumber`).
-/

namespace Masika

open PageTableEntry

/-! ## The code -/

section Operations

variable (B : BoxAllocator) (pml4 : ℕ)

/-- `(size + PAGE_SIZE - 1) / PAGE_SIZE`. -/
def rangePages (size : U64) : ℕ := wrap (size.toNat + 4096 - 1) / 4096

/-- `start + (i * PAGE_SIZE) as u64`. -/
def rangeAddr (start : U64) (i : ℕ) : U64 := start + BitVec.ofNat 64 (i * 4096)

/-- `none` when a table cannot be allocated. -/
def mapRange (s : TableMem) (virtStart physStart size flags : U64) : Option TableMem :=
  run (fun s i => mapPage B pml4 s (rangeAddr virtStart i) (rangeAddr physStart i) flags) s
    (List.range (rangePages size))

/-- Page by page. -/
def unmapRange (s : TableMem) (virtStart size : U64) : TableMem :=
  (List.range (rangePages size)).foldl (fun s i => unmapPage pml4 s (rangeAddr virtStart i)) s

/-- How far a loop has come: it may be in the middle, the kernel may have been aborted, or it is
done. -/
inductive LoopEnd where
  | running
  | aborted
  | returned (s : TableMem)

/-- What a loop has returned. -/
def LoopEnd.result : LoopEnd → Option TableMem
  | running | aborted => none
  | returned s => some s

lemma LoopEnd.eq_returned {e : LoopEnd} {s : TableMem} (h : e.result = some s) :
    e = .returned s := by
  cases e with
  | running => cases h
  | aborted => cases h
  | returned t => rw [Option.some.inj h]

/-- `while addr < end { .. }`, for at most `fuel` tests of the condition. -/
def kernelSpaceLoop (stop flags : U64) : ℕ → U64 → TableMem → LoopEnd
  | 0, _, _ => .running
  | fuel + 1, addr, s =>
    if addr < stop then
      match mapPage B pml4 s addr addr flags with
      | none => .aborted
      | some s => kernelSpaceLoop stop flags fuel (addr + 4096#64) s
    else .returned s

/-- An identity map, page by page. -/
def mapKernelSpace (fuel : ℕ) (s : TableMem) (start stop flags : U64) : LoopEnd :=
  kernelSpaceLoop B pml4 stop flags fuel start s

end Operations

/-! ## Page numbers -/

lemma toNat_pageNumber (v : U64) : (pageNumber v).toNat = v.toNat / 4096 % 2 ^ 36 := by
  rw [pageNumber, BitVec.extractLsb'_toNat, Nat.shiftRight_eq_div_pow]

lemma pageNumber_eq_iff_div (v w : U64) :
    pageNumber v = pageNumber w ↔ v.toNat / 4096 % 2 ^ 36 = w.toNat / 4096 % 2 ^ 36 := by
  rw [← BitVec.toNat_inj, toNat_pageNumber, toNat_pageNumber]

lemma toNat_rangeAddr (start : U64) (i : ℕ) :
    (rangeAddr start i).toNat = (start.toNat + 4096 * i) % 2 ^ 64 := by
  rw [rangeAddr, BitVec.toNat_add, BitVec.toNat_ofNat, Nat.add_mod_mod, Nat.mul_comm]

lemma rangeAddr_succ (start : U64) (i : ℕ) :
    rangeAddr start (i + 1) = rangeAddr start i + 4096#64 := by
  apply BitVec.eq_of_toNat_eq
  rw [BitVec.toNat_add, toNat_rangeAddr, toNat_rangeAddr, show (4096#64).toNat = 4096 from rfl]
  omega

lemma rangeAddr_zero (start : U64) : rangeAddr start 0 = start := by
  simp [rangeAddr]

/-- The block of a step, as the tables see it. -/
lemma rangeAddr_block (start : U64) (i : ℕ) :
    (rangeAddr start i).toNat / 4096 % 2 ^ 36 = (start.toNat / 4096 + i) % 2 ^ 36 := by
  rw [toNat_rangeAddr]
  omega

/-! ## What the rounds do -/

/-- `t'` differs from `t` at most in the page of `virt`, where it has the mapping `m`. -/
structure EditsPage (pml4 : ℕ) (virt : U64) (m : Option Mapping) (t t' : TableMem) : Prop where
  page : ∀ v, pageNumber v = pageNumber virt → mappingOf (t'.leafOf pml4 v) = m
  others : ∀ v, pageNumber v ≠ pageNumber virt → t'.leafOf pml4 v = t.leafOf pml4 v

/-- The first `k` rounds have given the page of `addr i` the mapping `M i`. -/
structure PagesSet (pml4 : ℕ) (addr : ℕ → U64) (M : ℕ → Option Mapping) (s : TableMem) (k : ℕ)
    (t : TableMem) : Prop where
  done : ∀ i < k, ∀ v, pageNumber v = pageNumber (addr i) → mappingOf (t.leafOf pml4 v) = M i
  others : ∀ v, (∀ i < k, pageNumber v ≠ pageNumber (addr i)) →
    t.leafOf pml4 v = s.leafOf pml4 v

lemma PagesSet.zero (pml4 : ℕ) (addr : ℕ → U64) (M : ℕ → Option Mapping) (s : TableMem) :
    PagesSet pml4 addr M s 0 s :=
  ⟨fun i hi => absurd hi (Nat.not_lt_zero i), fun _ _ => rfl⟩

/-- **One more round.**  It may come back to an earlier page, if it has the same mapping for it. -/
lemma PagesSet.step {pml4 k : ℕ} {addr : ℕ → U64} {M : ℕ → Option Mapping} {s t t' : TableMem}
    (h : PagesSet pml4 addr M s k t) (hedit : EditsPage pml4 (addr k) (M k) t t')
    (hM : ∀ i < k, pageNumber (addr i) = pageNumber (addr k) → M i = M k) :
    PagesSet pml4 addr M s (k + 1) t' := by
  refine ⟨fun i hi v hv => ?_, fun v hv => ?_⟩
  · rcases Nat.eq_or_lt_of_le (Nat.le_of_lt_succ hi) with rfl | hi
    · exact hedit.page v hv
    · by_cases hk : pageNumber v = pageNumber (addr k)
      · rw [hedit.page v hk]
        exact (hM i hi (hv.symm.trans hk)).symm
      · rw [hedit.others v hk]
        exact h.done i hi v hv
  · rw [hedit.others v (hv k (Nat.lt_succ_self k))]
    exact h.others v fun i hi => hv i (Nat.lt_succ_of_lt hi)

section Rounds

variable {B : BoxAllocator} {Node : ℕ → U64 → Prop} {roots : Set ℕ} {pml4 : ℕ} {s s' : TableMem}

lemma mapPage_edits (hs : KernelForest Node roots pml4 s) {virt phys flags : U64}
    (h : mapPage B pml4 s virt phys flags = some s') :
    KernelForest Node roots pml4 s' ∧
      EditsPage pml4 virt (Mapping.ofFlags (frameOf phys) (lowBits flags)) s s' := by
  obtain ⟨hs', hleaf⟩ := mapPage_spec hs h
  refine ⟨hs', fun v hv => ?_, fun v hv => ?_⟩
  · rw [hleaf pml4 hs.root v, if_pos ⟨rfl, hv⟩, mappingOf_leafEntry]
  · rw [hleaf pml4 hs.root v, if_neg fun hc => hv hc.2]

lemma unmapPage_edits (hs : KernelForest Node roots pml4 s) (virt : U64) :
    KernelForest Node roots pml4 (unmapPage pml4 s virt) ∧
      EditsPage pml4 virt none s (unmapPage pml4 s virt) := by
  obtain ⟨hs', hleaf⟩ := editLeaf_spec hs virt (setFlags 0#64)
  refine ⟨hs', fun v hv => ?_, fun v hv => ?_⟩
  · rw [unmapPage, hleaf pml4 hs.root v]
    cases htable : (hwLeafSlot s.mem pml4 virt).isSome with
    | true =>
      rw [if_pos ⟨rfl, hv, rfl⟩, mappingOf_setFlags]
      rfl
    | false =>
      rw [if_neg (by simp), TableMem.leafOf_congr hv, leafOf_of_no_table htable]
      rfl
  · rw [unmapPage, hleaf pml4 hs.root v, if_neg fun hc => hv hc.2.1]

/-- The mappings that `map_range` makes. -/
def rangeMapping (physStart flags : U64) (i : ℕ) : Option Mapping :=
  Mapping.ofFlags (frameOf (rangeAddr physStart i)) (lowBits flags)

/-- Rounds less than 2 ^ 36 apart have different pages. -/
lemma pageNumber_rangeAddr_ne (start : U64) {i j : ℕ} (hij : i < j) (hj : j < i + 2 ^ 36) :
    pageNumber (rangeAddr start i) ≠ pageNumber (rangeAddr start j) := by
  rw [ne_eq, pageNumber_eq_iff_div, rangeAddr_block, rangeAddr_block]
  omega

lemma mapRange_sets (hs : KernelForest Node roots pml4 s) {virt phys size flags : U64}
    (hpages : rangePages size ≤ 2 ^ 36) (h : mapRange B pml4 s virt phys size flags = some s') :
    KernelForest Node roots pml4 s' ∧
      PagesSet pml4 (rangeAddr virt) (rangeMapping phys flags) s (rangePages size) s' := by
  refine run_range_invariant (P := fun k t => KernelForest Node roots pml4 t ∧
    PagesSet pml4 (rangeAddr virt) (rangeMapping phys flags) s k t) ?_ ⟨hs, .zero ..⟩ h
  rintro i hi t t' ⟨ht, hset⟩ hround
  obtain ⟨ht', hedit⟩ := mapPage_edits ht hround
  refine ⟨ht', hset.step hedit fun j hj hsame => ?_⟩
  exact absurd hsame (pageNumber_rangeAddr_ne virt hj (by omega))

lemma unmapRange_sets (hs : KernelForest Node roots pml4 s) (virt size : U64) :
    KernelForest Node roots pml4 (unmapRange pml4 s virt size) ∧
      PagesSet pml4 (rangeAddr virt) (fun _ => none) s (rangePages size)
        (unmapRange pml4 s virt size) := by
  have hloop : KernelForest Node roots pml4 (unmapRange pml4 s virt size) ∧
      PagesSet pml4 (rangeAddr virt) (fun _ => none) s (0 + rangePages size)
        (unmapRange pml4 s virt size) := by
    refine foldl_range_induction (P := fun k t => KernelForest Node roots pml4 t ∧
      PagesSet pml4 (rangeAddr virt) (fun _ => none) s k t) ⟨hs, .zero ..⟩ fun i _ t ht => ?_
    rw [Nat.zero_add] at ht ⊢
    obtain ⟨ht', hedit⟩ := unmapPage_edits ht.1 (rangeAddr virt i)
    exact ⟨ht', ht.2.step hedit fun _ _ _ => rfl⟩
  rwa [Nat.zero_add] at hloop

end Rounds

/-! ## `map_range` and `unmap_range` -/

/-- Byte `i` of a range. -/
abbrev byteAt (start : U64) (i : ℕ) : U64 := start + BitVec.ofNat 64 i

/-- Addresses whose pages do not meet the range are translated as before. -/
def KeptBeyond (pml4 : ℕ) (virt size : U64) (s s' : TableMem) : Prop :=
  ∀ w, (∀ i < size.toNat, pageNumber w ≠ pageNumber (byteAt virt i)) →
    translateVirtToPhys pml4 s' w = translateVirtToPhys pml4 s w

/-- Every byte of the range is mapped to the byte of the physical range. -/
structure RangeMapped (pml4 : ℕ) (virt phys size : U64) (s s' : TableMem) : Prop where
  bytes : ∀ i < size.toNat, translateVirtToPhys pml4 s' (byteAt virt i) = some (byteAt phys i)
  outside : KeptBeyond pml4 virt size s s'

/-- No byte of the range is mapped. -/
structure RangeUnmapped (pml4 : ℕ) (virt size : U64) (s s' : TableMem) : Prop where
  bytes : ∀ i < size.toNat, translateVirtToPhys pml4 s' (byteAt virt i) = none
  outside : KeptBeyond pml4 virt size s s'

section Ranges

variable {B : BoxAllocator} {Node : ℕ → U64 → Prop} {roots : Set ℕ} {pml4 : ℕ} {s s' : TableMem}
  {virt phys size flags : U64}

lemma toNat_byteAt {start : U64} {i : ℕ} (h : start.toNat + i < 2 ^ 64) :
    (byteAt start i).toNat = start.toNat + i := by
  rw [byteAt, BitVec.toNat_add, BitVec.toNat_ofNat]
  omega

/-- The number of pages is that of steps over the range. -/
lemma rangePages_eq (h : size.toNat < 2 ^ 47) : rangePages size = strides 4096 size.toNat := by
  rw [rangePages, strides, wrap_of_lt (by omega)]

/-- Entries that are equal translate an address alike. -/
lemma translateVirtToPhys_congr (hs : KernelForest Node roots pml4 s)
    (hs' : KernelForest Node roots pml4 s') {w : U64} (h : s'.leafOf pml4 w = s.leafOf pml4 w) :
    translateVirtToPhys pml4 s' w = translateVirtToPhys pml4 s w := by
  rw [translateVirtToPhys_eq hs, translateVirtToPhys_eq hs', h]

/-- The page of byte `i` is dealt with in round `j`. -/
lemma pageNumber_byteAt_eq_iff (hvirt : virt.toNat + size.toNat < 2 ^ 47) {i j : ℕ}
    (hi : i < size.toNat) (hj : 4096 * j < size.toNat + 4096) :
    pageNumber (byteAt virt i) = pageNumber (rangeAddr virt j) ↔
      (virt.toNat + i) / 4096 = virt.toNat / 4096 + j := by
  rw [pageNumber_eq_iff_div, rangeAddr_block, toNat_byteAt (by omega)]
  omega

/-- The rounds change no page outside the range. -/
lemma PagesSet.keptBeyond {M : ℕ → Option Mapping} (hs : KernelForest Node roots pml4 s)
    (hs' : KernelForest Node roots pml4 s') (hvirt : virt.toNat + size.toNat < 2 ^ 47)
    (h : PagesSet pml4 (rangeAddr virt) M s (rangePages size) s') :
    KeptBeyond pml4 virt size s s' := by
  intro w hw
  refine translateVirtToPhys_congr hs hs' (h.others w fun j hj => ?_)
  rw [rangePages_eq (by omega), lt_strides_iff (by decide)] at hj
  -- round `j` deals with the page of byte `4096 * j`
  rw [← (pageNumber_byteAt_eq_iff hvirt hj (by omega)).mpr (by omega)]
  exact hw (4096 * j) hj

/-- A byte in a page of the rounds is mapped by one of them. -/
lemma PagesSet.byte {M : ℕ → Option Mapping} (hs' : KernelForest Node roots pml4 s')
    (hvirt : virt.toNat + size.toNat < 2 ^ 47)
    (h : PagesSet pml4 (rangeAddr virt) M s (rangePages size) s') {i : ℕ} (hi : i < size.toNat)
    (hin : (virt.toNat + i) / 4096 < virt.toNat / 4096 + rangePages size) :
    ∃ j, (virt.toNat + i) / 4096 = virt.toNat / 4096 + j ∧
      translateVirtToPhys pml4 s' (byteAt virt i)
        = (M j).map fun m => (m.frame ++ lowBits (byteAt virt i)).setWidth 64 := by
  obtain ⟨j, hj⟩ : ∃ j, (virt.toNat + i) / 4096 = virt.toNat / 4096 + j :=
    ⟨(virt.toNat + i) / 4096 - virt.toNat / 4096, by omega⟩
  have hpage := (pageNumber_byteAt_eq_iff hvirt hi (show 4096 * j < size.toNat + 4096 by omega)).mpr
    hj
  refine ⟨j, hj, ?_⟩
  rw [translateVirtToPhys_eq_map hs', h.done j (by omega) _ hpage]

/-- A byte in the page after those of the rounds is translated as before. -/
lemma PagesSet.missed {M : ℕ → Option Mapping} (hs : KernelForest Node roots pml4 s)
    (hs' : KernelForest Node roots pml4 s') (hvirt : virt.toNat + size.toNat < 2 ^ 47)
    (h : PagesSet pml4 (rangeAddr virt) M s (rangePages size) s') {i : ℕ} (hi : i < size.toNat)
    (hout : virt.toNat / 4096 + rangePages size ≤ (virt.toNat + i) / 4096) :
    translateVirtToPhys pml4 s' (byteAt virt i) = translateVirtToPhys pml4 s (byteAt virt i) := by
  refine translateVirtToPhys_congr hs hs' (h.others _ fun j hj hpage => ?_)
  have hstep := hj
  rw [rangePages_eq (by omega), lt_strides_iff (by decide)] at hstep
  have hblock := (pageNumber_byteAt_eq_iff hvirt hi (by omega)).mp hpage
  omega

/-- The word that is put together from the frame of round `j` and the offset of byte `i`. -/
lemma rangeMapping_word (hcongr : virt.toNat % 4096 = phys.toNat % 4096)
    (hvirt : virt.toNat + size.toNat < 2 ^ 47) (hphys : phys.toNat + size.toNat < 2 ^ 47)
    {i j : ℕ} (hi : i < size.toNat) (hj : (virt.toNat + i) / 4096 = virt.toNat / 4096 + j) :
    (frameOf (rangeAddr phys j) ++ lowBits (byteAt virt i)).setWidth 64 = byteAt phys i := by
  have hframe : (frameOf (rangeAddr phys j)).toNat = phys.toNat / 4096 + j := by
    rw [frameOf, BitVec.extractLsb'_toNat, Nat.shiftRight_eq_div_pow]
    have hblock := rangeAddr_block phys j
    omega
  have hlow : (lowBits (byteAt virt i)).toNat = (virt.toNat + i) % 4096 := by
    rw [lowBits, BitVec.extractLsb'_toNat, toNat_byteAt (by omega)]
    rfl
  apply BitVec.eq_of_toNat_eq
  rw [BitVec.toNat_setWidth, BitVec.toNat_append, hframe, hlow,
    ← Nat.shiftLeft_add_eq_or_of_lt (Nat.mod_lt _ (by decide)), Nat.shiftLeft_eq,
    toNat_byteAt (by omega)]
  omega

/-- Flags with the present bit make a mapping. -/
lemma rangeMapping_of_present (hflags : flags.getLsbD 0 = true) (phys : U64) (j : ℕ) :
    ∃ m, rangeMapping phys flags j = some m ∧ m.frame = frameOf (rangeAddr phys j) := by
  have hp : (lowBits flags).getLsbD 0 = true := by
    rw [getLsbD_lowBits _ (by decide)]
    exact hflags
  exact ⟨_, dif_pos hp, rfl⟩

/-- **When `map_range` and `unmap_range` cover their range**: if it is empty, or if the part of the
first page before it finds room in the last one. -/
theorem mapRange_covers_iff (hs : KernelForest Node roots pml4 s)
    (hcongr : virt.toNat % 4096 = phys.toNat % 4096)
    (hvirt : virt.toNat + size.toNat < 2 ^ 47) (hphys : phys.toNat + size.toNat < 2 ^ 47)
    (hflags : flags.getLsbD 0 = true) (h : mapRange B pml4 s virt phys size flags = some s') :
    (RangeMapped pml4 virt phys size s s' ∧
        RangeUnmapped pml4 virt size s (unmapRange pml4 s virt size) ∧
        RangeUnmapped pml4 virt size s' (unmapRange pml4 s' virt size)) ↔
      size.toNat = 0 ∨ virt.toNat % 4096 + size.toNat ≤ 4096 * rangePages size := by
  have hpages : rangePages size ≤ 2 ^ 36 := by
    rw [rangePages_eq (by omega), strides]
    omega
  obtain ⟨hs', hset⟩ := mapRange_sets hs hpages h
  constructor
  · rintro ⟨hmap, hunmap, -⟩
    by_contra hmiss
    rw [not_or, not_le] at hmiss
    obtain ⟨hsize, hshort⟩ := hmiss
    -- the last byte lies in a page that neither loop reaches
    have hout : virt.toNat / 4096 + rangePages size ≤ (virt.toNat + (size.toNat - 1)) / 4096 := by
      rw [← not_lt, block_lt_iff (by decide) (by omega)]
      omega
    have hlast : size.toNat - 1 < size.toNat := by omega
    obtain ⟨hu, huset⟩ := unmapRange_sets hs virt size
    have hsome := hmap.bytes _ hlast
    rw [hset.missed hs hs' hvirt hlast hout] at hsome
    have hnone := hunmap.bytes _ hlast
    rw [huset.missed hs hu hvirt hlast hout, hsome] at hnone
    cases hnone
  · intro hfits
    have hin : ∀ i < size.toNat, (virt.toNat + i) / 4096 < virt.toNat / 4096 + rangePages size := by
      intro i hi
      rw [block_lt_iff (by decide) (by omega)]
      omega
    have hunmapped : ∀ {t : TableMem}, KernelForest Node roots pml4 t →
        RangeUnmapped pml4 virt size t (unmapRange pml4 t virt size) := by
      intro t ht
      obtain ⟨hu, huset⟩ := unmapRange_sets ht virt size
      refine ⟨fun i hi => ?_, huset.keptBeyond ht hu hvirt⟩
      obtain ⟨j, -, hbyte⟩ := huset.byte hu hvirt hi (hin i hi)
      exact hbyte
    refine ⟨⟨fun i hi => ?_, hset.keptBeyond hs hs' hvirt⟩, hunmapped hs, hunmapped hs'⟩
    obtain ⟨j, hj, hbyte⟩ := hset.byte hs' hvirt hi (hin i hi)
    obtain ⟨m, hm, hframe⟩ := rangeMapping_of_present hflags phys j
    rw [hbyte, hm, Option.map_some, hframe, rangeMapping_word hcongr hvirt hphys hi hj]

end Ranges

/-- One and a half pages. -/
theorem mapRange_covers_two_pages : ∃ s',
    mapRange bumpBox 0x1000 (bootTables (fun _ => 0#64) 0x1000) 0x5000#64 0x9000#64 0x1800#64 3#64
      = some s' ∧
    RangeMapped 0x1000 0x5000#64 0x9000#64 0x1800#64 (bootTables (fun _ => 0#64) 0x1000) s' := by
  obtain ⟨s', h⟩ := Option.isSome_iff_exists.mp (show (mapRange bumpBox 0x1000
    (bootTables (fun _ => 0#64) 0x1000) 0x5000#64 0x9000#64 0x1800#64 3#64).isSome = true by
      decide +kernel)
  have hcovers := mapRange_covers_iff (bootTables_forest (fun _ => 0#64) (by decide)) (by decide)
    (by decide) (by decide) (by decide) h
  exact ⟨s', h, (hcovers.mpr (.inr (by decide))).1⟩

/-- **The second byte is not mapped.**  It is the first one of a page, and the first byte is the
last one of the page before. -/
theorem mapRange_misses_second_page : ∃ s',
    mapRange bumpBox 0x1000 (bootTables (fun _ => 0#64) 0x1000) 0x5FFF#64 0x9FFF#64 2#64 3#64
      = some s' ∧
    translateVirtToPhys 0x1000 s' 0x6000#64 = none ∧
    ¬ RangeMapped 0x1000 0x5FFF#64 0x9FFF#64 2#64 (bootTables (fun _ => 0#64) 0x1000) s' := by
  have hcomp : (mapRange bumpBox 0x1000 (bootTables (fun _ => 0#64) 0x1000) 0x5FFF#64 0x9FFF#64
      2#64 3#64).map (fun s' => translateVirtToPhys 0x1000 s' 0x6000#64) = some none := by
    decide +kernel
  obtain ⟨s', h, hnone⟩ := Option.map_eq_some_iff.mp hcomp
  refine ⟨s', h, hnone, fun hmapped => ?_⟩
  have hsome := hmapped.bytes 1 (by decide)
  rw [show byteAt 0x5FFF#64 1 = 0x6000#64 from rfl, hnone] at hsome
  cases hsome

/-! ## `map_kernel_space` -/

section KernelSpace

variable {B : BoxAllocator} {Node : ℕ → U64 → Prop} {roots : Set ℕ} {pml4 : ℕ} {s : TableMem}
  {start stop flags : U64}

/-- No round adds a page to an address for which the sum does not fit.  Round `i` is reached when
the condition of the loop has held in all rounds before it. -/
def NoCounterOverflow (start stop : U64) : Prop :=
  ∀ i, (∀ j ≤ i, rangeAddr start j < stop) → (rangeAddr start i).toNat + 4096 < 2 ^ 64

/-- What `map_kernel_space` is for: it comes back without an overflow, every address from `start` to
`stop` is mapped, and no page that does not meet this range has been changed. -/
def MapsKernelSpace (B : BoxAllocator) (pml4 : ℕ) (s : TableMem) (start stop flags : U64) : Prop :=
  NoCounterOverflow start stop ∧
    ∃ fuel s', mapKernelSpace B pml4 fuel s start stop flags = .returned s' ∧
      (∀ x, start ≤ x → x < stop → (translateVirtToPhys pml4 s' x).isSome) ∧
      ∀ v, (∀ x, start ≤ x → x < stop → pageNumber v ≠ pageNumber x) →
        s'.leafOf pml4 v = s.leafOf pml4 v

/-- The number of rounds, as long as the counter does not wrap around. -/
def kernelRounds (start stop : U64) : ℕ := strides 4096 (stop.toNat - start.toNat)

/-- The end is not in the last page of the address space, or not behind the place that a step from
`start` has there. -/
def StopReachable (start stop : U64) : Prop :=
  stop.toNat + 4096 ≤ 2 ^ 64 + start.toNat % 4096

/-- **A loop that cannot end.**  The counter never passes the end. -/
lemma kernelSpaceLoop_endless (hlt : ∀ i, rangeAddr start i < stop) (fuel : ℕ) :
    ∀ (i : ℕ) (t s' : TableMem),
      kernelSpaceLoop B pml4 stop flags fuel (rangeAddr start i) t ≠ .returned s' := by
  induction fuel with
  | zero =>
    intro i t s' h
    cases h
  | succ fuel ih =>
    intro i t s' h
    rw [kernelSpaceLoop, if_pos (hlt i)] at h
    cases hmap : mapPage B pml4 t (rangeAddr start i) (rangeAddr start i) flags with
    | none =>
      rw [hmap] at h
      cases h
    | some t' =>
      rw [hmap, ← rangeAddr_succ] at h
      exact ih (i + 1) t' s' h

/-- Where the end is not reachable, the counter stays below it for ever. -/
lemma rangeAddr_lt_of_unreachable (h : ¬ StopReachable start stop) (i : ℕ) :
    rangeAddr start i < stop := by
  rw [StopReachable, not_le] at h
  rw [BitVec.lt_def, toNat_rangeAddr]
  omega

/-- The rounds take place while there is something left of the range. -/
lemma rangeAddr_lt_stop_iff (hlt : start < stop) (hreach : StopReachable start stop) {i : ℕ}
    (hi : i ≤ kernelRounds start stop) :
    rangeAddr start i < stop ↔ i < kernelRounds start stop := by
  rw [kernelRounds] at hi ⊢
  rw [StopReachable] at hreach
  rw [BitVec.lt_def] at hlt
  rw [BitVec.lt_def, toNat_rangeAddr, lt_strides_iff (by decide)]
  rw [strides] at hi
  omega

/-- The frames of an identity mapping. -/
lemma frameOf_eq_pageNumber (v : U64) : frameOf v = pageNumber v := rfl

/-- **The loop up to round `k`**, when no table is missing. -/
lemma kernelSpaceLoop_rounds (hs : KernelForest Node roots pml4 s) (hlt : start < stop)
    (hreach : StopReachable start stop)
    (hbox : ∀ fuel, mapKernelSpace B pml4 fuel s start stop flags ≠ .aborted) :
    ∀ k ≤ kernelRounds start stop, ∃ t, KernelForest Node roots pml4 t ∧
      PagesSet pml4 (rangeAddr start) (rangeMapping start flags) s k t ∧
      ∀ fuel, mapKernelSpace B pml4 (k + fuel) s start stop flags
        = kernelSpaceLoop B pml4 stop flags fuel (rangeAddr start k) t := by
  intro k
  induction k with
  | zero =>
    intro _
    refine ⟨s, hs, .zero .., fun fuel => ?_⟩
    rw [Nat.zero_add, rangeAddr_zero, mapKernelSpace]
  | succ k ih =>
    intro hk
    obtain ⟨t, ht, hset, hloop⟩ := ih (by omega)
    have hround := (rangeAddr_lt_stop_iff hlt hreach (by omega)).mpr (show k < _ from hk)
    cases hmap : mapPage B pml4 t (rangeAddr start k) (rangeAddr start k) flags with
    | none =>
      have habort := hloop 1
      rw [kernelSpaceLoop, if_pos hround, hmap] at habort
      exact absurd habort (hbox _)
    | some t' =>
      obtain ⟨ht', hedit⟩ := mapPage_edits ht hmap
      refine ⟨t', ht', hset.step hedit fun i _ hsame => ?_, fun fuel => ?_⟩
      · -- a page that comes up again gets the same frame again
        rw [rangeMapping, rangeMapping, frameOf_eq_pageNumber, frameOf_eq_pageNumber, hsame]
      · rw [Nat.add_assoc, Nat.add_comm 1 fuel, hloop, kernelSpaceLoop, if_pos hround, hmap,
          rangeAddr_succ]

/-- More fuel does not change how a loop has ended. -/
lemma kernelSpaceLoop_mono {e : LoopEnd} (he : e ≠ .running) (fuel more : ℕ) :
    ∀ {addr : U64} {t : TableMem}, kernelSpaceLoop B pml4 stop flags fuel addr t = e →
      kernelSpaceLoop B pml4 stop flags (fuel + more) addr t = e := by
  induction fuel with
  | zero =>
    intro addr t h
    exact absurd h.symm he
  | succ fuel ih =>
    intro addr t h
    rw [Nat.add_right_comm, kernelSpaceLoop]
    rw [kernelSpaceLoop] at h
    split_ifs at h ⊢
    · cases hmap : mapPage B pml4 t addr addr flags with
      | none =>
        rw [hmap] at h
        exact h
      | some t' =>
        rw [hmap] at h
        exact ih h
    · exact h

/-- A loop ends in one way only. -/
lemma mapKernelSpace_end_unique {e e' : LoopEnd} {fuel fuel' : ℕ}
    (h : mapKernelSpace B pml4 fuel s start stop flags = e) (he : e ≠ .running)
    (h' : mapKernelSpace B pml4 fuel' s start stop flags = e') (he' : e' ≠ .running) : e = e' := by
  have hmore := kernelSpaceLoop_mono he fuel fuel' h
  have hmore' := kernelSpaceLoop_mono he' fuel' fuel h'
  rw [Nat.add_comm] at hmore'
  exact hmore.symm.trans hmore'

/-- **The end of the loop**: after the last round it returns, and what it returns is the memory in
which the pages of all rounds are set. -/
lemma mapKernelSpace_returns (hs : KernelForest Node roots pml4 s) (hlt : start < stop)
    (hreach : StopReachable start stop)
    (hbox : ∀ fuel, mapKernelSpace B pml4 fuel s start stop flags ≠ .aborted) :
    ∃ t, KernelForest Node roots pml4 t ∧
      PagesSet pml4 (rangeAddr start) (rangeMapping start flags) s (kernelRounds start stop) t ∧
      (∃ fuel, mapKernelSpace B pml4 fuel s start stop flags = .returned t) ∧
      ∀ fuel s', mapKernelSpace B pml4 fuel s start stop flags = .returned s' → s' = t := by
  obtain ⟨t, ht, hset, hloop⟩ := kernelSpaceLoop_rounds hs hlt hreach hbox _ le_rfl
  have hreturn := hloop 1
  rw [kernelSpaceLoop,
    if_neg fun h => lt_irrefl _ ((rangeAddr_lt_stop_iff hlt hreach le_rfl).mp h)] at hreturn
  refine ⟨t, ht, hset, ⟨_, hreturn⟩, fun fuel s' h => ?_⟩
  exact LoopEnd.returned.inj
    (mapKernelSpace_end_unique h (fun h => nomatch h) hreturn fun h => nomatch h)

/-- An address is translated when its page has a mapping. -/
lemma isSome_translate (hs : KernelForest Node roots pml4 s) (v : U64) :
    (translateVirtToPhys pml4 s v).isSome = (mappingOf (s.leafOf pml4 v)).isSome := by
  rw [translateVirtToPhys_eq_map hs, Option.isSome_map]

/-- The pages of the rounds are mapped. -/
lemma PagesSet.isSome {k : ℕ} {t : TableMem} (ht : KernelForest Node roots pml4 t)
    (hflags : flags.getLsbD 0 = true)
    (hset : PagesSet pml4 (rangeAddr start) (rangeMapping start flags) s k t) {v : U64} {i : ℕ}
    (hi : i < k) (hpage : pageNumber v = pageNumber (rangeAddr start i)) :
    (translateVirtToPhys pml4 t v).isSome := by
  obtain ⟨m, hm, -⟩ := rangeMapping_of_present hflags start i
  rw [isSome_translate ht, hset.done i hi v hpage, hm]
  rfl

/-- The pages of the rounds meet the range. -/
lemma rangeAddr_mem_range (hlt : start < stop) {i : ℕ} (hi : i < kernelRounds start stop) :
    start ≤ rangeAddr start i ∧ rangeAddr start i < stop := by
  rw [kernelRounds, lt_strides_iff (by decide)] at hi
  rw [BitVec.lt_def] at hlt
  rw [BitVec.le_def, BitVec.lt_def, toNat_rangeAddr]
  omega

lemma toNat_last (hlt : start < stop) : (stop - 1#64).toNat = stop.toNat - 1 := by
  rw [BitVec.lt_def] at hlt
  rw [BitVec.toNat_sub_of_le]
  · rfl
  · rw [BitVec.le_def]
    exact Nat.one_le_of_lt hlt

/-- The page of an address of the range is dealt with in a round, or it is the last one. -/
lemma range_page_cases (hlt : start < stop) {x : U64} (hx : start ≤ x) (hxlt : x < stop) :
    (∃ i < kernelRounds start stop, pageNumber x = pageNumber (rangeAddr start i)) ∨
      pageNumber x = pageNumber (stop - 1#64) := by
  simp only [pageNumber_eq_iff_div, rangeAddr_block, toNat_last hlt]
  rw [BitVec.le_def] at hx
  rw [BitVec.lt_def] at hlt hxlt
  have hmono : start.toNat / 4096 ≤ x.toNat / 4096 := Nat.div_le_div_right hx
  by_cases hin : x.toNat / 4096 < start.toNat / 4096 + kernelRounds start stop
  · exact .inl ⟨x.toNat / 4096 - start.toNat / 4096, by omega, by omega⟩
  · have hlast := (missed_block_eq_last (by decide) hx (by omega) (not_lt.mp hin)).1
    rw [show start.toNat + (stop.toNat - start.toNat) - 1 = stop.toNat - 1 by omega] at hlast
    exact .inr (by rw [hlast])

/-- The last address of the range is in a page that the rounds deal with, unless there are too few
of them. -/
lemma last_page_set_iff (hlt : start < stop) :
    (∃ i < kernelRounds start stop,
        pageNumber (stop - 1#64) = pageNumber (rangeAddr start i)) ↔
      start.toNat % 4096 + (stop.toNat - start.toNat) ≤ 4096 * kernelRounds start stop ∨
        2 ^ 36 ≤ kernelRounds start stop := by
  have hlast := toNat_last hlt
  rw [BitVec.lt_def] at hlt
  have hblock : (stop.toNat - 1) / 4096 ≤ start.toNat / 4096 + kernelRounds start stop := by
    have hle : (start.toNat + (stop.toNat - start.toNat) - 1) / 4096
        ≤ start.toNat / 4096 + kernelRounds start stop := last_block_le (by decide) (by omega)
    rwa [show start.toNat + (stop.toNat - start.toNat) - 1 = stop.toNat - 1 by omega] at hle
  have hin : (stop.toNat - 1) / 4096 < start.toNat / 4096 + kernelRounds start stop ↔
      start.toNat % 4096 + (stop.toNat - start.toNat) ≤ 4096 * kernelRounds start stop := by
    rw [block_lt_iff (by decide) (by omega)]
    omega
  have hmono : start.toNat / 4096 ≤ (stop.toNat - 1) / 4096 := Nat.div_le_div_right (by omega)
  simp only [pageNumber_eq_iff_div, rangeAddr_block, hlast, ← hin]
  constructor
  · rintro ⟨i, hi, hpage⟩
    omega
  · rintro (hin | hmany)
    · exact ⟨(stop.toNat - 1) / 4096 - start.toNat / 4096, by omega, by omega⟩
    · by_cases hin : (stop.toNat - 1) / 4096 < start.toNat / 4096 + kernelRounds start stop
      · exact ⟨(stop.toNat - 1) / 4096 - start.toNat / 4096, by omega, by omega⟩
      · exact ⟨kernelRounds start stop - 2 ^ 36, by omega, by omega⟩

/-- The counter does not overflow on the way to an end that it reaches. -/
lemma noCounterOverflow_of_reachable (hlt : start < stop) (hreach : StopReachable start stop) :
    NoCounterOverflow start stop := by
  intro i hrounds
  have hi : i < kernelRounds start stop := by
    by_contra hge
    exact lt_irrefl _ ((rangeAddr_lt_stop_iff hlt hreach le_rfl).mp (hrounds _ (not_lt.mp hge)))
  rw [kernelRounds, lt_strides_iff (by decide)] at hi
  rw [StopReachable] at hreach
  rw [BitVec.lt_def] at hlt
  rw [toNat_rangeAddr]
  omega

/-- **When `map_kernel_space` does what it is for.**  The range is empty; or its end can be reached,
and its last page is dealt with in a round or was mapped before. -/
theorem mapKernelSpace_covers_iff (hs : KernelForest Node roots pml4 s)
    (hflags : flags.getLsbD 0 = true)
    (hbox : ∀ fuel, mapKernelSpace B pml4 fuel s start stop flags ≠ .aborted) :
    MapsKernelSpace B pml4 s start stop flags ↔
      stop ≤ start ∨ StopReachable start stop ∧
        (start.toNat % 4096 + (stop.toNat - start.toNat) ≤ 4096 * kernelRounds start stop ∨
          2 ^ 36 ≤ kernelRounds start stop ∨
          (translateVirtToPhys pml4 s (stop - 1#64)).isSome) := by
  by_cases hle : stop ≤ start
  · refine iff_of_true ⟨fun i hrounds => ?_, 1, s, ?_, fun x hx hlt => ?_, fun _ _ => rfl⟩
      (.inl hle)
    · have hfirst := hrounds 0 (Nat.zero_le i)
      rw [rangeAddr_zero] at hfirst
      exact absurd hfirst (BitVec.not_lt.mpr hle)
    · rw [mapKernelSpace, kernelSpaceLoop, if_neg (BitVec.not_lt.mpr hle)]
    · rw [BitVec.le_def] at hle hx
      rw [BitVec.lt_def] at hlt
      omega
  have hlt : start < stop := BitVec.not_le.mp hle
  rw [or_iff_right hle, ← or_assoc, ← last_page_set_iff hlt]
  constructor
  · rintro ⟨-, fuel, s', hreturn, hcovers, -⟩
    have hreach : StopReachable start stop := by
      by_contra hnot
      rw [mapKernelSpace, ← rangeAddr_zero start] at hreturn
      exact kernelSpaceLoop_endless (rangeAddr_lt_of_unreachable hnot) fuel 0 s s' hreturn
    refine ⟨hreach, or_iff_not_imp_left.mpr fun hmissed => ?_⟩
    obtain ⟨t, ht, hset, -, honly⟩ := mapKernelSpace_returns hs hlt hreach hbox
    obtain rfl := honly fuel s' hreturn
    have hmem : start ≤ stop - 1#64 ∧ stop - 1#64 < stop := by
      have hlast := toNat_last hlt
      rw [BitVec.lt_def] at hlt
      rw [BitVec.le_def, BitVec.lt_def]
      omega
    have hlast := hcovers _ hmem.1 hmem.2
    rwa [isSome_translate ht, hset.others _ fun i hi hpage => hmissed ⟨i, hi, hpage⟩,
      ← isSome_translate hs] at hlast
  · rintro ⟨hreach, hlast⟩
    obtain ⟨t, ht, hset, ⟨fuel, hreturn⟩, -⟩ := mapKernelSpace_returns hs hlt hreach hbox
    refine ⟨noCounterOverflow_of_reachable hlt hreach, fuel, t, hreturn, fun x hx hxlt => ?_,
      fun v hv => hset.others v fun i hi => ?_⟩
    · by_cases hround : ∃ i < kernelRounds start stop,
          pageNumber x = pageNumber (rangeAddr start i)
      · obtain ⟨i, hi, hpage⟩ := hround
        exact hset.isSome ht hflags hi hpage
      · -- only the last page is left, and it was mapped before
        have hpage := (range_page_cases hlt hx hxlt).resolve_left hround
        rw [hpage] at hround
        have hbefore := hlast.resolve_left hround
        rw [isSome_translate ht, TableMem.leafOf_congr hpage, hset.others _ fun i hi hsame =>
          hround ⟨i, hi, hsame⟩, ← isSome_translate hs]
        exact hbefore
    · exact hv _ (rangeAddr_mem_range hlt hi).1 (rangeAddr_mem_range hlt hi).2

end KernelSpace

/-- Two pages of the lower half. -/
theorem mapKernelSpace_covers_two_pages :
    MapsKernelSpace bumpBox 0x1000 (bootTables (fun _ => 0#64) 0x1000) 0x5000#64 0x7000#64
      3#64 := by
  have hcomp : (mapKernelSpace bumpBox 0x1000 3 (bootTables (fun _ => 0#64) 0x1000) 0x5000#64
      0x7000#64 3#64).result.isSome = true := by decide +kernel
  obtain ⟨s', hs'⟩ := Option.isSome_iff_exists.mp hcomp
  refine (mapKernelSpace_covers_iff (bootTables_forest (fun _ => 0#64) (by decide)) (by decide)
    fun fuel habort => ?_).mpr (.inr ⟨by rw [StopReachable]; decide, .inl (by decide)⟩)
  have hend := mapKernelSpace_end_unique habort (fun h => nomatch h) (LoopEnd.eq_returned hs')
    fun h => nomatch h
  cases hend

/-- **The end of the address space, and a page in the middle.**  With an end in the last page the
loop does not come back.  With a start that is not a page boundary it comes back too early. -/
theorem mapKernelSpace_fails :
    (∀ fuel s', mapKernelSpace bumpBox 0x1000 fuel (bootTables (fun _ => 0#64) 0x1000)
        0xFFFFFFFFFFFFF000#64 0xFFFFFFFFFFFFFFFF#64 3#64 ≠ .returned s') ∧
      ∃ s', mapKernelSpace bumpBox 0x1000 2 (bootTables (fun _ => 0#64) 0x1000) 0xFFF#64 0x1001#64
          3#64 = .returned s' ∧ translateVirtToPhys 0x1000 s' 0x1000#64 = none := by
  constructor
  · intro fuel s' h
    rw [mapKernelSpace, ← rangeAddr_zero 0xFFFFFFFFFFFFF000#64] at h
    refine kernelSpaceLoop_endless (rangeAddr_lt_of_unreachable ?_) fuel 0 _ s' h
    rw [StopReachable]
    decide
  · have hcomp : (mapKernelSpace bumpBox 0x1000 2 (bootTables (fun _ => 0#64) 0x1000) 0xFFF#64
        0x1001#64 3#64).result.map (fun s' => translateVirtToPhys 0x1000 s' 0x1000#64)
        = some none := by decide +kernel
    obtain ⟨s', hs', hnone⟩ := Option.map_eq_some_iff.mp hcomp
    exact ⟨s', LoopEnd.eq_returned hs', hnone⟩

end Masika
