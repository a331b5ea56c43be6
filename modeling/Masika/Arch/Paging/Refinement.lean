import Masika.Arch.Paging.Tables
import Masika.Core.Runs

/-!
# The kernel page tables implement a partial map

What the tables are *for* is a partial map from pages to frames with flags (`AddressMap`).  Its
operations are stated here on their own, page by page; `pagingRun_refines` says that any run of the
kernel's operations, started with the empty `KERNEL_PML4`, answers every query as the map does on
which the same operations have been performed.

The relation kept along a run has two halves.  The trees are separate (`KernelForest`), and the map
holds, for every page, what the entry at the end of its path says (`mappingOf`).  The second half is
preserved because every operation changes the entry of exactly one page, and `mappingOf` of the
changed entry is computed bit by bit.
-/

namespace Masika

open PageTableEntry

/-! ## The abstract map -/

/-- What is known about a mapped page: its frame, and its flags, among them the present bit. -/
@[ext] structure Mapping where
  frame : BitVec 36
  flags : BitVec 12
  present : flags.getLsbD 0 = true

namespace Mapping

/-- A frame and flags make a mapping when the flags have the present bit. -/
def ofFlags (frame : BitVec 36) (flags : BitVec 12) : Option Mapping :=
  if h : flags.getLsbD 0 = true then some ⟨frame, flags, h⟩ else none

/-- More flags. -/
def addFlags (f : BitVec 12) (m : Mapping) : Mapping :=
  ⟨m.frame, m.flags ||| f, by rw [BitVec.getLsbD_or, m.present, Bool.true_or]⟩

end Mapping

/-- Bits 12 to 47 of a physical address. -/
def frameOf (phys : U64) : BitVec 36 := phys.extractLsb' 12 36

/-- The low twelve bits. -/
def lowBits (x : U64) : BitVec 12 := x.extractLsb' 0 12

/-- A partial map from pages to frames with flags. -/
abbrev AddressMap := BitVec 36 → Option Mapping

namespace AddressMap

/-- Nothing is mapped. -/
def empty : AddressMap := fun _ => none

/-- Change what the map says about the page of one address. -/
def alter (M : AddressMap) (virt : U64) (g : Option Mapping → Option Mapping) : AddressMap :=
  Function.update M (pageNumber virt) (g (M (pageNumber virt)))

/-- The frame of a page with the offset of the address attached. -/
def translate (M : AddressMap) (virt : U64) : Option U64 :=
  (M (pageNumber virt)).map fun m => (m.frame ++ lowBits virt).setWidth 64

/-- The flags of a page. -/
def flagsAt (M : AddressMap) (virt : U64) : Option U64 :=
  (M (pageNumber virt)).map fun m => m.flags.setWidth 64

end AddressMap

/-- The operations of `arch/paging.rs` that change the tables. -/
inductive PagingOp where
  | map (virt phys flags : U64)
  | unmap (virt : U64)
  | remap (virt newPhys flags : U64)
  | setFlags (virt flags : U64)
  | protect (virt : U64) (writable : Bool)
  | markAccessed (virt : U64)
  | markDirty (virt : U64)

/-- What each operation does to the abstract map. -/
def AddressMap.apply (M : AddressMap) : PagingOp → AddressMap
  | .map virt phys flags => M.alter virt fun _ => Mapping.ofFlags (frameOf phys) (lowBits flags)
  | .unmap virt => M.alter virt fun _ => none
  | .remap virt phys flags => M.alter virt fun _ => Mapping.ofFlags (frameOf phys) (lowBits flags)
  | .setFlags virt flags => M.alter virt (·.bind fun m => Mapping.ofFlags m.frame (lowBits flags))
  | .protect virt writable =>
    M.alter virt (·.bind fun m => Mapping.ofFlags m.frame (if writable then 3#12 else 1#12))
  | .markAccessed virt => M.alter virt (·.map (Mapping.addFlags 0x20#12))
  | .markDirty virt => M.alter virt (·.map (Mapping.addFlags 0x40#12))

/-! ## The run of the kernel -/

/-- `KERNEL_PML4` before the first operation: all entries empty, no other table, and anything at all
in the rest of memory. -/
def bootTables (mem : ℕ → U64) (pml4 : ℕ) : TableMem := ⟨x86.zeroTable mem pml4, [pml4]⟩

/-- One call. -/
def pagingStep (B : BoxAllocator) (pml4 : ℕ) (s : TableMem) : PagingOp → Option TableMem
  | .map virt phys flags => mapPage B pml4 s virt phys flags
  | .unmap virt => some (unmapPage pml4 s virt)
  | .remap virt phys flags => remapPage B pml4 s virt phys flags
  | .setFlags virt flags => some (setPageFlags pml4 s virt flags)
  | .protect virt writable => some (protectPage pml4 s virt writable)
  | .markAccessed virt => some (markPageAccessed pml4 s virt)
  | .markDirty virt => some (markPageDirty pml4 s virt)

/-- The trees of a kernel that has no other address space in memory. -/
abbrev KernelTables (pml4 : ℕ) : TableMem → Prop :=
  KernelForest (fun _ => IsTableEntry) {pml4} pml4

lemma bootTables_forest (mem : ℕ → U64) {pml4 : ℕ} (hal : pml4 % 4096 = 0) :
    KernelTables pml4 (bootTables mem pml4) := by
  refine ⟨RadixFormat.Forest.init ?_ ?_ ?_ ?_, rfl, rfl⟩
  · intro t ht
    rw [List.mem_singleton.mp ht]
    exact hal
  · intro r hr
    rw [Set.mem_singleton_iff.mp hr]
    exact List.mem_singleton_self pml4
  · intro r hr i
    rw [Set.mem_singleton_iff.mp hr]
    exact RadixFormat.zeroTable_self mem pml4 i
  · intro r _
    exact Or.inl rfl

lemma bootTables_leafOf (mem : ℕ → U64) (pml4 : ℕ) (virt : U64) :
    (bootTables mem pml4).leafOf pml4 virt = PageTableEntry.empty := by
  have hroot : (bootTables mem pml4).mem (x86.slot pml4 (pml4Index virt)) = x86.zero :=
    RadixFormat.zeroTable_self mem pml4 _
  have hnone : x86.tableAt (bootTables mem pml4).mem pml4 (upperPath virt) = none := by
    rw [upperPath, RadixFormat.tableAt, hroot, x86.decode_zero, Option.bind_none]
  exact RadixFormat.leafWord_of_none x86 hnone _

/-! ## What an entry says -/

/-- The mapping an entry stands for. -/
def mappingOf (e : PageTableEntry) : Option Mapping := Mapping.ofFlags (frameOf e) (lowBits e)

lemma getLsbD_frameOf (x : U64) {j : ℕ} (hj : j < 36) :
    (frameOf x).getLsbD j = x.getLsbD (12 + j) := by
  simp [frameOf, hj]

lemma getLsbD_lowBits (x : U64) {j : ℕ} (hj : j < 12) : (lowBits x).getLsbD j = x.getLsbD j := by
  simp [lowBits, hj]

lemma lowBits_zero (e : PageTableEntry) : (lowBits e).getLsbD 0 = present e := by
  rw [getLsbD_lowBits e (by decide), present_eq]

lemma mappingOf_of_present {e : PageTableEntry} (h : present e = true) :
    mappingOf e = some ⟨frameOf e, lowBits e, (lowBits_zero e).trans h⟩ := by
  rw [mappingOf, Mapping.ofFlags, dif_pos]

lemma mappingOf_of_absent {e : PageTableEntry} (h : present e = false) : mappingOf e = none := by
  rw [mappingOf, Mapping.ofFlags, dif_neg]
  rw [lowBits_zero, h]
  simp

lemma frameOf_setFlags (f : U64) (e : PageTableEntry) : frameOf (setFlags f e) = frameOf e := by
  apply BitVec.eq_of_getLsbD_eq
  intro j hj
  rw [getLsbD_frameOf _ hj, getLsbD_frameOf _ hj, getLsbD_setFlags, if_neg (by omega)]

lemma lowBits_setFlags (f : U64) (e : PageTableEntry) : lowBits (setFlags f e) = lowBits f := by
  apply BitVec.eq_of_getLsbD_eq
  intro j hj
  rw [getLsbD_lowBits _ hj, getLsbD_lowBits _ hj, getLsbD_setFlags, if_pos hj]

/-- What `map_page` stores does not depend on what was there. -/
lemma mappingOf_leafEntry (phys f : U64) (e : PageTableEntry) :
    mappingOf (leafEntry phys f e) = Mapping.ofFlags (frameOf phys) (lowBits f) := by
  have hframe : frameOf (leafEntry phys f e) = frameOf phys := by
    apply BitVec.eq_of_getLsbD_eq
    intro j hj
    rw [getLsbD_frameOf _ hj, getLsbD_frameOf _ hj, getLsbD_leafEntry, if_neg (by omega),
      if_pos (by omega)]
  rw [mappingOf, hframe, leafEntry, lowBits_setFlags]

lemma mappingOf_setFlags (f : U64) (e : PageTableEntry) :
    mappingOf (setFlags f e) = Mapping.ofFlags (frameOf e) (lowBits f) := by
  rw [mappingOf, frameOf_setFlags, lowBits_setFlags]

/-- A guarded change of flags is a change of the mapping, where there is one. -/
lemma mappingOf_setFlags_of_present (f : U64) (e : PageTableEntry) :
    mappingOf (if present e then setFlags f e else e)
      = (mappingOf e).bind fun m => Mapping.ofFlags m.frame (lowBits f) := by
  cases hp : present e with
  | true => rw [if_pos rfl, mappingOf_setFlags, mappingOf_of_present hp, Option.bind_some]
  | false => rw [if_neg (by simp), mappingOf_of_absent hp, Option.bind_none]

/-- Setting one flag bit other than the present bit, in the entry and in the mapping. -/
lemma mappingOf_putFlag {k : ℕ} (hk : k < 12) (hk0 : k ≠ 0) (e : PageTableEntry) :
    mappingOf (if present e then putFlag (1#64 <<< k) k true e else e)
      = (mappingOf e).map (Mapping.addFlags (1#12 <<< k)) := by
  have h64 : k < 64 := by omega
  cases hp : present e with
  | false => rw [if_neg (by simp), mappingOf_of_absent hp, Option.map_none]
  | true =>
    have hp' : present (putFlag (1#64 <<< k) k true e) = true := by
      rw [present_eq, getLsbD_putFlag h64, if_neg (Ne.symm hk0), ← present_eq, hp]
    rw [if_pos rfl, mappingOf_of_present hp, mappingOf_of_present hp', Option.map_some,
      Option.some.injEq]
    apply Mapping.ext
    · apply BitVec.eq_of_getLsbD_eq
      intro j hj
      rw [getLsbD_frameOf _ hj, getLsbD_putFlag h64, if_neg (by omega)]
      exact (getLsbD_frameOf _ hj).symm
    · apply BitVec.eq_of_getLsbD_eq
      intro j hj
      rw [getLsbD_lowBits _ hj, getLsbD_putFlag h64]
      simp only [Mapping.addFlags, BitVec.getLsbD_or, getLsbD_lowBits _ hj, getLsbD_one_shl hk]
      by_cases hjk : j = k <;> simp [hjk]

/-- The address `translate_virt_to_phys` builds is the frame with the offset attached. -/
lemma translate_word (e : PageTableEntry) (virt : U64) :
    (addr e &&& ~~~0xFFF#64) ||| (virt &&& 0xFFF#64)
      = (frameOf e ++ lowBits virt).setWidth 64 := by
  apply BitVec.eq_of_getLsbD_eq
  intro j hj
  rw [BitVec.getLsbD_or, BitVec.getLsbD_and, BitVec.getLsbD_and, BitVec.getLsbD_not,
    getLsbD_flagMask, getLsbD_addr, BitVec.getLsbD_setWidth, BitVec.getLsbD_append]
  by_cases h12 : j < 12
  · rw [getLsbD_lowBits _ h12]
    simp [h12, hj]
  · by_cases h48 : j < 48
    · rw [getLsbD_frameOf e (show j - 12 < 36 by omega), show 12 + (j - 12) = j by omega]
      have h4 : 4 ≤ j := by omega
      simp [h12, hj, h48, h4]
    · have hhigh : (frameOf e).getLsbD (j - 12) = false :=
        BitVec.getLsbD_of_ge _ _ (by omega)
      simp [h12, h48, hhigh]

lemma flags_word (e : PageTableEntry) : flags e = (lowBits e).setWidth 64 := by
  apply BitVec.eq_of_getLsbD_eq
  intro j hj
  rw [flags, BitVec.getLsbD_and, getLsbD_flagMask, BitVec.getLsbD_setWidth]
  by_cases h12 : j < 12
  · rw [getLsbD_lowBits _ h12]
    simp [h12, hj]
  · have hhigh : (lowBits e).getLsbD j = false := BitVec.getLsbD_of_ge _ _ (by omega)
    simp [h12, hhigh]

/-- **`translate_virt_to_phys` in terms of the mapping** that the bottom entry stands for. -/
lemma translateVirtToPhys_eq_map {Node : ℕ → U64 → Prop} {roots : Set ℕ} {pml4 : ℕ} {s : TableMem}
    (hs : KernelForest Node roots pml4 s) (virt : U64) :
    translateVirtToPhys pml4 s virt
      = (mappingOf (s.leafOf pml4 virt)).map fun m => (m.frame ++ lowBits virt).setWidth 64 := by
  rw [translateVirtToPhys_eq hs]
  cases hp : present (s.leafOf pml4 virt) with
  | false =>
    rw [mappingOf_of_absent hp]
    rfl
  | true =>
    rw [mappingOf_of_present hp, if_pos rfl, translate_word]
    rfl

/-! ## The refinement -/

/-- The map holds, for every page, what the entry at the end of its path says. -/
def Represents (pml4 : ℕ) (s : TableMem) (M : AddressMap) : Prop :=
  KernelTables pml4 s ∧ ∀ v, M (pageNumber v) = mappingOf (s.leafOf pml4 v)

lemma bootTables_represents (mem : ℕ → U64) {pml4 : ℕ} (hal : pml4 % 4096 = 0) :
    Represents pml4 (bootTables mem pml4) AddressMap.empty := by
  refine ⟨bootTables_forest mem hal, fun v => ?_⟩
  rw [bootTables_leafOf]
  rfl

lemma mapPage_represents {B : BoxAllocator} {pml4 : ℕ} {s s' : TableMem} {M : AddressMap}
    (hs : Represents pml4 s M) {virt phys flags : U64}
    (h : mapPage B pml4 s virt phys flags = some s') :
    Represents pml4 s' (M.alter virt fun _ => Mapping.ofFlags (frameOf phys) (lowBits flags)) := by
  obtain ⟨hf, hl⟩ := mapPage_spec hs.1 h
  refine ⟨hf, fun v => ?_⟩
  rw [hl pml4 rfl v, AddressMap.alter, Function.update_apply]
  by_cases hpage : pageNumber v = pageNumber virt
  · rw [if_pos hpage, if_pos ⟨rfl, hpage⟩, mappingOf_leafEntry]
  · rw [if_neg hpage, if_neg (fun hc => hpage hc.2), hs.2]

/-- **One edit, one page.**  A change `f` of entries that amounts to a change `g` of mappings, where
`g` does not invent any. -/
lemma editLeaf_represents {pml4 : ℕ} {s : TableMem} {M : AddressMap}
    (hs : Represents pml4 s M) (virt : U64) {f : PageTableEntry → PageTableEntry}
    {g : Option Mapping → Option Mapping} (hfg : ∀ e, mappingOf (f e) = g (mappingOf e))
    (hg : g none = none) : Represents pml4 (editLeaf pml4 s virt f) (M.alter virt g) := by
  obtain ⟨hf, hl⟩ := editLeaf_spec hs.1 virt f
  refine ⟨hf, fun v => ?_⟩
  rw [hl pml4 rfl v, AddressMap.alter, Function.update_apply]
  by_cases hpage : pageNumber v = pageNumber virt
  · rw [if_pos hpage, hs.2 virt]
    cases hsome : (hwLeafSlot s.mem pml4 virt).isSome with
    | true => rw [if_pos ⟨rfl, hpage, rfl⟩, hfg]
    | false =>
      -- there is no page table: the entry counts as empty, and so does the map
      rw [if_neg (by simp), ← hs.2 v, hpage, hs.2 virt, leafOf_of_no_table hsome]
      exact hg
  · rw [if_neg hpage, if_neg (fun hc => hpage hc.2.1), hs.2]

lemma unmapPage_represents {pml4 : ℕ} {s : TableMem} {M : AddressMap}
    (hs : Represents pml4 s M) (virt : U64) :
    Represents pml4 (unmapPage pml4 s virt) (M.alter virt fun _ => none) :=
  editLeaf_represents hs virt (fun e => mappingOf_setFlags 0#64 e) rfl

lemma setPageFlags_represents {pml4 : ℕ} {s : TableMem} {M : AddressMap}
    (hs : Represents pml4 s M) (virt flags : U64) :
    Represents pml4 (setPageFlags pml4 s virt flags)
      (M.alter virt (·.bind fun m => Mapping.ofFlags m.frame (lowBits flags))) :=
  editLeaf_represents hs virt (g := (·.bind fun m => Mapping.ofFlags m.frame (lowBits flags)))
    (mappingOf_setFlags_of_present flags) rfl

/-- Doing two changes of one page is doing their composition. -/
lemma AddressMap.alter_alter (M : AddressMap) (virt : U64)
    (g g' : Option Mapping → Option Mapping) :
    (M.alter virt g).alter virt g' = M.alter virt (g' ∘ g) := by
  simp [AddressMap.alter]

/-- Every operation of the kernel is the operation of the map. -/
theorem pagingStep_represents {B : BoxAllocator} {pml4 : ℕ} (s : TableMem) (op : PagingOp)
    (s' : TableMem) (M : AddressMap) (hs : Represents pml4 s M)
    (h : pagingStep B pml4 s op = some s') : Represents pml4 s' (M.apply op) := by
  cases op with
  | map virt phys flags => exact mapPage_represents hs h
  | unmap virt =>
    rw [← Option.some.inj h]
    exact unmapPage_represents hs virt
  | remap virt phys flags =>
    have := mapPage_represents (unmapPage_represents hs virt) h
    rwa [AddressMap.alter_alter] at this
  | setFlags virt flags =>
    rw [← Option.some.inj h]
    exact setPageFlags_represents hs virt flags
  | protect virt writable =>
    rw [← Option.some.inj h]
    have := setPageFlags_represents hs virt (if writable then 3#64 else 1#64)
    cases writable <;> exact this
  | markAccessed virt =>
    rw [← Option.some.inj h]
    exact editLeaf_represents hs virt (mappingOf_putFlag (k := 5) (by decide) (by decide)) rfl
  | markDirty virt =>
    rw [← Option.some.inj h]
    exact editLeaf_represents hs virt (mappingOf_putFlag (k := 6) (by decide) (by decide)) rfl

/-- The queries of a represented map. -/
lemma Represents.queries {pml4 : ℕ} {s : TableMem} {M : AddressMap} (hs : Represents pml4 s M)
    (virt : U64) :
    translateVirtToPhys pml4 s virt = M.translate virt ∧
      getPageFlags pml4 s virt = M.flagsAt virt := by
  rw [translateVirtToPhys_eq_map hs.1, getPageFlags_eq hs.1, AddressMap.translate,
    AddressMap.flagsAt, hs.2 virt]
  refine ⟨rfl, ?_⟩
  cases hp : present (s.leafOf pml4 virt) with
  | false =>
    rw [mappingOf_of_absent hp]
    rfl
  | true =>
    rw [mappingOf_of_present hp, if_pos rfl, flags_word]
    rfl

/-- **The kernel page tables refine a partial map.**  After any run of the operations from the empty
`KERNEL_PML4`, every address is translated, and its flags are reported, as by the map on which the
same operations have been performed. -/
theorem pagingRun_refines (B : BoxAllocator) {pml4 : ℕ} (hal : pml4 % 4096 = 0) (mem : ℕ → U64)
    {ops : List PagingOp} {s : TableMem}
    (h : run (pagingStep B pml4) (bootTables mem pml4) ops = some s) (virt : U64) :
    translateVirtToPhys pml4 s virt
        = (ops.foldl AddressMap.apply AddressMap.empty).translate virt ∧
      getPageFlags pml4 s virt = (ops.foldl AddressMap.apply AddressMap.empty).flagsAt virt :=
  (run_simulates pagingStep_represents (bootTables_represents mem hal) h).queries virt

/-- Two pages that share all their upper tables, one of them remapped and marked. -/
theorem pagingRun_refines_shared_tables :
    ∃ s, run (pagingStep bumpBox 0x1000) (bootTables (fun _ => 0xFF#64) 0x1000)
        [.map 0x5000#64 0x9000#64 3#64, .map 0x6000#64 0xA000#64 3#64,
          .remap 0x5000#64 0xB000#64 1#64, .markDirty 0x5000#64] = some s ∧
      translateVirtToPhys 0x1000 s 0x5123#64 = some 0xB123#64 ∧
      getPageFlags 0x1000 s 0x5123#64 = some 0x41#64 := by
  obtain ⟨s, hs⟩ := Option.isSome_iff_exists.mp (show (run (pagingStep bumpBox 0x1000)
    (bootTables (fun _ => 0xFF#64) 0x1000)
      [.map 0x5000#64 0x9000#64 3#64, .map 0x6000#64 0xA000#64 3#64,
        .remap 0x5000#64 0xB000#64 1#64, .markDirty 0x5000#64]).isSome = true by decide)
  have hq := pagingRun_refines bumpBox (by decide) _ hs 0x5123#64
  exact ⟨s, hs, hq.1.trans (by decide), hq.2.trans (by decide)⟩

end Masika
