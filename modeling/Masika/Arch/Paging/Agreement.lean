import Masika.Arch.Paging.Refinement

/-!
# Kernel walks and processor walks

The processor walks the same tables between the kernel's operations, and sets status bits in them.
`PageTableEntry::addr` covers bits 4 to 47, hence the Accessed bit (bit 5): once the processor has
marked an entry that links a table, the kernel follows the link to an address 32 bytes too high
(`accessed_link_breaks_agreement`).

What remains true is that kernel and processor agree as long as the processor marks only the last
entry of its walks (`agree_of_leaf_marks`).  There the masks differ only in bits 4 to 11 and 48 to
51: the former are cut off by `translate_virt_to_phys`, the latter are never set.
-/

namespace Masika

open PageTableEntry

/-! ## The kernel and the processor on one memory -/

/-- The kernel's operations, interleaved with walks of the processor. -/
inductive MmuOp where
  | map (virt phys flags : U64)
  | unmap (virt : U64)
  | setFlags (virt flags : U64)
  | walk (virt : U64) (marks : WalkMarks)

/-- One call, or a walk of the processor. -/
def mmuStep (B : BoxAllocator) (pml4 : ℕ) (s : TableMem) : MmuOp → Option TableMem
  | .map virt phys flags => mapPage B pml4 s virt phys flags
  | .unmap virt => some (unmapPage pml4 s virt)
  | .setFlags virt flags => some (setPageFlags pml4 s virt flags)
  | .walk virt marks => some { s with mem := hwWalk s.mem pml4 virt marks }

/-- Bits 48 to 63 repeat bit 47. -/
def Canonical (virt : U64) : Prop := (virt.extractLsb' 0 48).signExtend 64 = virt

instance (virt : U64) : Decidable (Canonical virt) := inferInstanceAs (Decidable (_ = _))

/-- Kernel and processor agree: on the translation of every canonical address, on the entry that
`unmap_page` is about to edit, and on the entry that `map_page` edits. -/
structure Agree (B : BoxAllocator) (pml4 : ℕ) (s : TableMem) : Prop where
  translate : ∀ virt, Canonical virt →
    translateVirtToPhys pml4 s virt = hwTranslate s.mem pml4 virt
  unmap : ∀ virt, walkPt pml4 s virt = hwLeafSlot s.mem pml4 virt
  map : ∀ virt phys flags s', mapPage B pml4 s virt phys flags = some s' →
    ∃ a s₁, mapPath B pml4 s virt = some (a, s₁) ∧ hwLeafSlot s'.mem pml4 virt = some a

/-- The walk changes no entry above the page table: it may as well have left them unmarked. -/
def MarksLeafOnly (pml4 : ℕ) (s : TableMem) : MmuOp → Prop
  | .walk virt marks =>
    hwWalk s.mem pml4 virt marks
      = hwWalk s.mem pml4 virt { marks with pml4 := false, pdpt := false, pd := false }
  | _ => True

/-! ## Walks that mark only the last entry -/

@[simp] lemma touch_unmarked (mem : ℕ → U64) (a : ℕ) : touch mem a false false = mem := by
  simp [touch]

/-- Such a walk touches the last entry, if it gets there, and nothing else. -/
lemma hwWalk_leaf (mem : ℕ → U64) (root : ℕ) (virt : U64) (pt dirty : Bool) :
    hwWalk mem root virt ⟨false, false, false, pt, dirty⟩
      = match hwLeafSlot mem root virt with
        | none => mem
        | some a => touch mem a pt dirty := by
  simp only [hwWalk, touch_unmarked, hwLeafSlot, upperPath, RadixFormat.tableAt]
  change _ = match (((hwNext (mem (x86.slot root (pml4Index virt)))).bind fun t =>
    (hwNext (mem (x86.slot t (pdptIndex virt)))).bind fun t =>
      (hwNext (mem (x86.slot t (pdIndex virt)))).bind fun t => some t).map
        fun t => x86.slot t (ptIndex virt)) with
    | none => mem
    | some a => touch mem a pt dirty
  cases hwNext (mem (x86.slot root (pml4Index virt))) with
  | none => rfl
  | some pdpt =>
    simp only [Option.bind_some]
    cases hwNext (mem (x86.slot pdpt (pdptIndex virt))) with
    | none => rfl
    | some pd =>
      simp only [Option.bind_some]
      cases hwNext (mem (x86.slot pd (pdIndex virt))) <;> rfl

/-- Status bits added to an entry that is present. -/
def marked (accessed dirty : Bool) (e : PageTableEntry) : PageTableEntry :=
  if present e then
    let e := if accessed then e ||| 0x20#64 else e
    if dirty then e ||| 0x40#64 else e
  else e

lemma touch_eq_update (mem : ℕ → U64) (a : ℕ) (accessed dirty : Bool) :
    touch mem a accessed dirty = Function.update mem a (marked accessed dirty (mem a)) := by
  rw [touch, marked]
  split_ifs <;> simp

lemma getLsbD_marked (accessed dirty : Bool) (e : PageTableEntry) {j : ℕ} (hj : 48 ≤ j) :
    (marked accessed dirty e).getLsbD j = e.getLsbD j := by
  have h20 : (0x20#64).getLsbD j = false :=
    getLsbD_const (p := fun j => decide (j = 5)) (by decide)
      (fun j hj => decide_eq_false (by omega)) j |>.trans (decide_eq_false (by omega))
  have h40 : (0x40#64).getLsbD j = false :=
    getLsbD_const (p := fun j => decide (j = 6)) (by decide)
      (fun j hj => decide_eq_false (by omega)) j |>.trans (decide_eq_false (by omega))
  rw [marked]
  split_ifs <;> simp only [BitVec.getLsbD_or, h20, h40, Bool.or_false]

/-! ## The invariant -/

/-- The kernel's tree is intact, and no bottom entry uses the bits above 47. -/
structure LowLeaves (pml4 : ℕ) (s : TableMem) : Prop where
  tables : KernelTables pml4 s
  low : ∀ v j, 48 ≤ j → (s.leafOf pml4 v).getLsbD j = false

lemma bootTables_lowLeaves (mem : ℕ → U64) {pml4 : ℕ} (hal : pml4 % 4096 = 0) :
    LowLeaves pml4 (bootTables mem pml4) := by
  refine ⟨bootTables_forest mem hal, fun v j _ => ?_⟩
  rw [bootTables_leafOf]
  exact BitVec.getLsbD_zero

/-- An edit of bottom entries that leaves the bits above 47 alone. -/
lemma LowLeaves.editLeaf {pml4 : ℕ} {s : TableMem} (hs : LowLeaves pml4 s) (virt : U64)
    {f : PageTableEntry → PageTableEntry} (hf : ∀ e j, 48 ≤ j → (f e).getLsbD j = e.getLsbD j) :
    LowLeaves pml4 (editLeaf pml4 s virt f) := by
  obtain ⟨htab, hleaf⟩ := editLeaf_spec hs.tables virt f
  refine ⟨htab, fun v j hj => ?_⟩
  rw [hleaf pml4 rfl v]
  split_ifs
  · rw [hf _ j hj, hs.low virt j hj]
  · exact hs.low v j hj

lemma LowLeaves.mapPage {B : BoxAllocator} {pml4 : ℕ} {s s' : TableMem} (hs : LowLeaves pml4 s)
    {virt phys flags : U64} (h : mapPage B pml4 s virt phys flags = some s') :
    LowLeaves pml4 s' := by
  obtain ⟨htab, hleaf⟩ := mapPage_spec hs.tables h
  refine ⟨htab, fun v j hj => ?_⟩
  rw [hleaf pml4 rfl v]
  split_ifs
  · rw [getLsbD_leafEntry, if_neg (by omega), if_neg (by omega), hs.low virt j hj]
  · exact hs.low v j hj

/-- A walk of the processor that marks only the last entry is an edit of that entry. -/
lemma walk_eq_editLeaf {pml4 : ℕ} {s : TableMem} (hs : KernelTables pml4 s) (virt : U64)
    {marks : WalkMarks} (hm : MarksLeafOnly pml4 s (.walk virt marks)) :
    ({ s with mem := hwWalk s.mem pml4 virt marks } : TableMem)
      = editLeaf pml4 s virt (marked marks.pt marks.dirty) := by
  have hmem : hwWalk s.mem pml4 virt marks
      = hwWalk s.mem pml4 virt ⟨false, false, false, marks.pt, marks.dirty⟩ := hm
  rw [hmem, hwWalk_leaf, editLeaf, walkPt_eq_hwLeafSlot hs]
  cases hwLeafSlot s.mem pml4 virt with
  | none => rfl
  | some a => simp only [TableMem.write, touch_eq_update]

lemma LowLeaves.step {B : BoxAllocator} {pml4 : ℕ} (s : TableMem) (op : MmuOp) (s' : TableMem)
    (hs : LowLeaves pml4 s) (hok : MarksLeafOnly pml4 s op)
    (h : mmuStep B pml4 s op = some s') : LowLeaves pml4 s' := by
  cases op with
  | map virt phys flags => exact hs.mapPage h
  | unmap virt =>
    rw [← Option.some.inj h]
    exact hs.editLeaf virt fun e j hj => by rw [getLsbD_setFlags, if_neg (by omega)]
  | setFlags virt flags =>
    rw [← Option.some.inj h]
    refine hs.editLeaf virt (f := fun e => if present e then setFlags flags e else e)
      fun e j hj => ?_
    split_ifs
    · rw [getLsbD_setFlags, if_neg (by omega)]
    · rfl
  | walk virt marks =>
    rw [← Option.some.inj h, walk_eq_editLeaf hs.tables virt hok]
    exact hs.editLeaf virt fun e j hj => getLsbD_marked _ _ e hj

/-! ## Agreement -/

/-- The two address masks agree on an entry without high bits, once the offset is cut off. -/
lemma addr_eq_hwAddr {e : PageTableEntry} (he : ∀ j, 48 ≤ j → e.getLsbD j = false) :
    addr e &&& ~~~0xFFF#64 = hwAddr e := by
  apply BitVec.eq_of_getLsbD_eq
  intro j hj
  rw [BitVec.getLsbD_and, BitVec.getLsbD_not, getLsbD_flagMask, getLsbD_addr, getLsbD_hwAddr]
  by_cases h48 : j < 48
  · by_cases h12 : j < 12
    · have hn : ¬ (12 ≤ j ∧ j < 52) := by omega
      simp [h12, hn]
    · have h4 : 4 ≤ j := by omega
      have h52 : 12 ≤ j ∧ j < 52 := by omega
      simp [h12, h48, h4, h52, hj]
  · simp [he j (by omega)]

/-- `hwTranslate` in terms of the bottom entry. -/
lemma hwTranslate_eq (s : TableMem) (root : ℕ) (virt : U64) :
    hwTranslate s.mem root virt
      = if present (s.leafOf root virt) then
          some (hwAddr (s.leafOf root virt) ||| (virt &&& 0xFFF#64))
        else none := by
  rw [hwTranslate, hwLeafSlot]
  cases ht : x86.tableAt s.mem root (upperPath virt) with
  | none =>
    have hempty : s.leafOf root virt = empty := RadixFormat.leafWord_of_none x86 ht _
    rw [hempty]
    rfl
  | some t => simp [leafOf_of_tableAt ht]

/-- What makes the two agree. -/
theorem LowLeaves.agree {B : BoxAllocator} {pml4 : ℕ} {s : TableMem} (hs : LowLeaves pml4 s) :
    Agree B pml4 s := by
  refine ⟨fun virt _ => ?_, walkPt_eq_hwLeafSlot hs.tables, ?_⟩
  · rw [translateVirtToPhys_eq hs.tables, hwTranslate_eq, addr_eq_hwAddr (hs.low virt)]
  · intro virt phys flags s' h
    rw [Masika.mapPage, Option.map_eq_some_iff] at h
    obtain ⟨⟨a, s₁⟩, h₁, rfl⟩ := h
    obtain ⟨hs₁, -, t, ht, rfl⟩ := mapPath_spec hs.tables h₁
    refine ⟨_, s₁, h₁, ?_⟩
    have htab := RadixFormat.tableAt_write hs₁.forest hs₁.root rfl ht (ptIndex virt)
      (leafEntry phys flags (s₁.mem (x86.slot t (ptIndex virt)))) hs₁.root
      (upperPath_length virt).le
    simp only [hwLeafSlot, TableMem.write]
    rw [htab, ht, Option.map_some]

/-- **Agreement as long as only last entries are marked.**  In every run from the empty
`KERNEL_PML4` in which no walk of the processor changes an entry above the page tables, kernel and
processor agree in every state. -/
theorem agree_of_leaf_marks (B : BoxAllocator) {pml4 : ℕ} (hal : pml4 % 4096 = 0)
    (mem : ℕ → U64) {ops : List MmuOp} {s : TableMem}
    (hok : Meets (MarksLeafOnly pml4) (mmuStep B pml4) (bootTables mem pml4) ops)
    (h : run (mmuStep B pml4) (bootTables mem pml4) ops = some s) : Agree B pml4 s :=
  (run_invariant_of_meets LowLeaves.step (bootTables_lowLeaves mem hal) hok h).agree

/-- A page is mapped, and the processor reads and writes it. -/
def mappedThenWalked (marks : WalkMarks) : List MmuOp :=
  [.map 0x5000#64 0x9000#64 3#64, .walk 0x5000#64 marks]

/-- A page that is written. -/
theorem agree_of_leaf_marks_dirty_page :
    ∃ s, run (mmuStep bumpBox 0x1000) (bootTables (fun _ => 0#64) 0x1000)
        (mappedThenWalked ⟨false, false, false, true, true⟩) = some s ∧ Agree bumpBox 0x1000 s := by
  obtain ⟨s, hs⟩ := Option.isSome_iff_exists.mp (show (run (mmuStep bumpBox 0x1000)
    (bootTables (fun _ => 0#64) 0x1000)
      (mappedThenWalked ⟨false, false, false, true, true⟩)).isSome = true by decide)
  refine ⟨s, hs, agree_of_leaf_marks bumpBox (by decide) _ ?_ hs⟩
  exact ⟨trivial, fun _ _ => ⟨rfl, fun _ _ => trivial⟩⟩

/-- **The Accessed bit of a link misleads the kernel.**  The processor marks all four entries of its
walk; the kernel then looks four entries further in the next table, finds nothing there, and takes
the mapped page for unmapped. -/
theorem accessed_link_breaks_agreement :
    ¬ ∀ (ops : List MmuOp) (s : TableMem),
        run (mmuStep bumpBox 0x1000) (bootTables (fun _ => 0#64) 0x1000) ops = some s →
          Agree bumpBox 0x1000 s := by
  intro hall
  have hkernel : (run (mmuStep bumpBox 0x1000) (bootTables (fun _ => 0#64) 0x1000)
      (mappedThenWalked ⟨true, true, true, true, false⟩)).map
        (fun s => translateVirtToPhys 0x1000 s 0x5000#64) = some none := by decide
  have hprocessor : (run (mmuStep bumpBox 0x1000) (bootTables (fun _ => 0#64) 0x1000)
      (mappedThenWalked ⟨true, true, true, true, false⟩)).map
        (fun s => hwTranslate s.mem 0x1000 0x5000#64) = some (some 0x9000#64) := by decide
  obtain ⟨s, hs, hnone⟩ := Option.map_eq_some_iff.mp hkernel
  rw [hs, Option.map_some, Option.some.injEq] at hprocessor
  have hagree := (hall _ s hs).translate 0x5000#64 (by decide)
  rw [hnone, hprocessor] at hagree
  exact absurd hagree (by simp)

end Masika
