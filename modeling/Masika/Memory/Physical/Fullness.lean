import Masika.Memory.Physical.Ranges
import Masika.Memory.Physical.Requests

/-!
# Whether the bitmap is full

The last word of the bitmap also has bits that stand for no frame, unless the number of frames is a
multiple of 64.  `set_bit` and `clear_bit` check the frame number, so that no function that
allocates, reserves or releases ever writes those bits (`OnlyFrames`, `onlyFrames_apply`).  After
`reset_all_bits` they are zero, and stay zero.

`is_bitmap_full` compares whole words with `u64::MAX`.  Hence, unless the number of frames is a
multiple of 64, it never answers "full", however many frames have been allocated
(`bitmapFull_iff`).
-/

namespace Masika

open PhysicalMemoryManager

/-- The calls that allocate, reserve or release.  The functions that are missing here make one of
these calls and nothing else: `alloc_n_frames`, `alloc_multiple_frames`, `alloc_huge_page`,
`alloc_kernel_stack`, `alloc_user_page`, `alloc_page_table`, those that zero the frames they get,
`reclaim_frame`, and the counterparts that release. -/
inductive ManagerOp where
  | allocFrame
  | allocFramesContiguous (count : ℕ)
  | allocKernelHeapSpace (size : ℕ)
  | allocIdentityMap (size : ℕ)
  | allocAndMap (size : ℕ) (vmm : ℕ → ℕ → Bool)
  | allocGuardedRegion (size : ℕ)
  | allocDmaCapableFrame
  | allocAligned (align size : ℕ)
  | allocAt (addr : ℕ)
  | allocSpecificFrame (frame : ℕ)
  | allocSpecificRange (startAddr endAddr : ℕ)
  | validateAndAlloc (addr size : ℕ)
  | reserveFrame (addr : ℕ)
  | reserveRegionForBoot (base size : ℕ)
  | markAsUsed (base size : ℕ)
  | initRegion (base size : ℕ)
  | freeFrame (addr : ℕ)
  | freeFramesContiguous (addr count : ℕ)
  | freeGuardedRegion (addr size guardBefore : ℕ)

/-- What a call does. -/
def ManagerOp.apply (m : PhysicalMemoryManager) : ManagerOp → PhysicalMemoryManager
  | .allocFrame => m.allocFrame.2
  | .allocFramesContiguous count => (m.allocFramesContiguous count).2
  | .allocKernelHeapSpace size => (m.allocKernelHeapSpace size).2
  | .allocIdentityMap size => (m.allocIdentityMap size).2
  | .allocAndMap size vmm => (m.allocAndMap size vmm).2
  | .allocGuardedRegion size => (m.allocGuardedRegion size).2
  | .allocDmaCapableFrame => m.allocDmaCapableFrame.2
  | .allocAligned align size => (m.allocAligned align size).2
  | .allocAt addr => (m.allocAt addr).2
  | .allocSpecificFrame frame => (m.allocSpecificFrame frame).2
  | .allocSpecificRange startAddr endAddr => (m.allocSpecificRange startAddr endAddr).2
  | .validateAndAlloc addr size => (m.validateAndAlloc addr size).2
  | .reserveFrame addr => m.reserveFrame addr
  | .reserveRegionForBoot base size => m.reserveRegionForBoot base size
  | .markAsUsed base size => m.markAsUsed base size
  | .initRegion base size => m.initRegion base size
  | .freeFrame addr => m.freeFrame addr
  | .freeFramesContiguous addr count => m.freeFramesContiguous addr count
  | .freeGuardedRegion addr size guardBefore => m.freeGuardedRegion addr size guardBefore

namespace PhysicalMemoryManager

/-- One call after the other. -/
def after (m : PhysicalMemoryManager) (ops : List ManagerOp) : PhysicalMemoryManager :=
  ops.foldl ManagerOp.apply m

/-- All words are full. -/
def isBitmapFull (m : PhysicalMemoryManager) : Bool :=
  (List.range ((m.totalFrames + 63) / 64)).all fun i => m.bitmap i == BitVec.allOnes 64

variable {m m' m'' : PhysicalMemoryManager}

/-! ## Bits that stand for no frame -/

/-- Only bits of frames that exist may differ. -/
structure OnlyFrames (m m' : PhysicalMemoryManager) : Prop where
  total : m'.totalFrames = m.totalFrames
  beyond : ∀ f, m.totalFrames ≤ f → m'.bit f = m.bit f

lemma OnlyFrames.refl (m : PhysicalMemoryManager) : OnlyFrames m m := ⟨rfl, fun _ _ => rfl⟩

lemma OnlyFrames.trans (h : OnlyFrames m m') (h' : OnlyFrames m' m'') : OnlyFrames m m'' where
  total := h'.total.trans h.total
  beyond f hf := (h'.beyond f (by rw [h.total]; exact hf)).trans (h.beyond f hf)

section Calls

variable (m)

lemma onlyFrames_foldl_setBit (frames : List ℕ) :
    OnlyFrames m (frames.foldl setBit m) where
  total := by rw [foldl_setBit_eq]
  beyond f hf := by simp [bit_foldl_setBit, Nat.not_lt.mpr hf]

lemma onlyFrames_foldl_clearBit (frames : List ℕ) :
    OnlyFrames m (frames.foldl clearBit m) where
  total := by rw [foldl_clearBit_eq]
  beyond f hf := by simp [bit_foldl_clearBit, Nat.not_lt.mpr hf]

/-- The counters and the hint make no difference. -/
lemma onlyFrames_charge (frames : List ℕ) (count : U64) :
    OnlyFrames m (m.charge frames count) where
  total := (m.onlyFrames_foldl_setBit frames).total
  beyond := (m.onlyFrames_foldl_setBit frames).beyond

lemma Drops.onlyFrames {S : Finset ℕ} (h : Drops m m' S) : OnlyFrames m m' where
  total := h.total
  beyond f hf := by simp [h.bits, Nat.not_lt.mpr hf]

/-! ## What the calls write -/

lemma onlyFrames_takeFrame (f : ℕ) : OnlyFrames m (m.takeFrame f) where
  total := (m.onlyFrames_foldl_setBit [f]).total
  beyond := (m.onlyFrames_foldl_setBit [f]).beyond

lemma onlyFrames_allocFrame : OnlyFrames m m.allocFrame.2 := by
  rcases m.allocFrame_cases with ⟨f, hresult, -⟩ | ⟨hresult, -⟩
  · rw [hresult]
    exact m.onlyFrames_takeFrame f
  · rw [hresult]
    exact .refl m

/-- Also a request for more frames than there are writes only bits of frames that exist. -/
lemma onlyFrames_allocFramesContiguous (count : ℕ) :
    OnlyFrames m (m.allocFramesContiguous count).2 := by
  rw [allocFramesContiguous]
  split_ifs with h0 h1
  · exact .refl m
  · exact m.onlyFrames_allocFrame
  · simp only
    cases (List.range (wrapSub m.totalFrames count + 1)).find? fun start =>
        ((List.range count).map fun offset => wrap (start + offset)).all
          fun frame => !m.getBit frame with
    | none => exact .refl m
    | some start =>
      have hcharge := m.onlyFrames_charge
        ((List.range count).map fun offset => wrap (start + offset)) (BitVec.ofNat 64 count)
      exact ⟨hcharge.total, hcharge.beyond⟩

lemma onlyFrames_allocAligned (align size : ℕ) : OnlyFrames m (m.allocAligned align size).2 := by
  rw [allocAligned]
  split
  · exact .refl m
  · exact m.onlyFrames_charge _ _

lemma onlyFrames_allocSpecificFrame (frame : ℕ) : OnlyFrames m (m.allocSpecificFrame frame).2 := by
  rw [allocSpecificFrame]
  split_ifs
  · exact .refl m
  · exact m.onlyFrames_charge _ _

lemma onlyFrames_allocSpecificRange (startAddr endAddr : ℕ) :
    OnlyFrames m (m.allocSpecificRange startAddr endAddr).2 := by
  rw [allocSpecificRange]
  split_ifs
  · exact .refl m
  · exact m.onlyFrames_charge _ _

lemma onlyFrames_validateAndAlloc (addr size : ℕ) :
    OnlyFrames m (m.validateAndAlloc addr size).2 := by
  rw [validateAndAlloc]
  split_ifs
  · exact .refl m
  · exact m.onlyFrames_charge _ _

lemma onlyFrames_reserveFrame (addr : ℕ) : OnlyFrames m (m.reserveFrame addr) := by
  rw [reserveFrame]
  by_cases h : addr / FRAME_SIZE < m.totalFrames ∧ m.getBit (addr / FRAME_SIZE) = false
  · have hset := m.onlyFrames_foldl_setBit [addr / FRAME_SIZE]
    rw [if_pos h]
    exact ⟨hset.total, hset.beyond⟩
  · rw [if_neg h]
    exact .refl m

lemma onlyFrames_freeFrame (addr : ℕ) :
    OnlyFrames m (m.freeFrame addr) := (m.freeFrame_spec addr).onlyFrames

lemma onlyFrames_freeFramesContiguous (addr count : ℕ) :
    OnlyFrames m (m.freeFramesContiguous addr count) :=
  (m.freeFramesContiguous_spec addr count).onlyFrames

lemma onlyFrames_allocAndMap (size : ℕ) (vmm : ℕ → ℕ → Bool) :
    OnlyFrames m (m.allocAndMap size vmm).2 := by
  have halloc := m.onlyFrames_allocFramesContiguous (frameCeil size)
  rw [allocAndMap]
  generalize m.allocFramesContiguous (frameCeil size) = result at halloc
  obtain ⟨_ | addr, m'⟩ := result
  · exact halloc
  · simp only
    split_ifs
    · exact halloc
    · exact halloc.trans (m'.onlyFrames_freeFramesContiguous _ _)

lemma onlyFrames_allocDmaCapableFrame : OnlyFrames m m.allocDmaCapableFrame.2 := by
  have halloc := m.onlyFrames_allocFrame
  rw [allocDmaCapableFrame]
  generalize m.allocFrame = result at halloc
  obtain ⟨_ | frame, m'⟩ := result
  · exact halloc
  · simp only
    split_ifs
    · exact halloc
    · exact halloc.trans (m'.onlyFrames_freeFrame _)

lemma onlyFrames_allocGuardedRegion (size : ℕ) : OnlyFrames m (m.allocGuardedRegion size).2 := by
  have halloc := m.onlyFrames_allocFramesContiguous (frameCeil size + 2)
  rw [allocGuardedRegion]
  generalize m.allocFramesContiguous (frameCeil size + 2) = result at halloc
  obtain ⟨_ | region, m'⟩ := result
  · exact halloc
  · exact halloc

end Calls

/-- **No call writes a bit that stands for no frame.** -/
theorem onlyFrames_apply (m : PhysicalMemoryManager) (op : ManagerOp) :
    OnlyFrames m (op.apply m) := by
  cases op with
  | allocFrame => exact m.onlyFrames_allocFrame
  | allocFramesContiguous count => exact m.onlyFrames_allocFramesContiguous count
  | allocKernelHeapSpace size => exact m.onlyFrames_allocFramesContiguous _
  | allocIdentityMap size => exact m.onlyFrames_allocFramesContiguous _
  | allocAndMap size vmm => exact m.onlyFrames_allocAndMap size vmm
  | allocGuardedRegion size => exact m.onlyFrames_allocGuardedRegion size
  | allocDmaCapableFrame => exact m.onlyFrames_allocDmaCapableFrame
  | allocAligned align size => exact m.onlyFrames_allocAligned align size
  | allocAt addr => exact m.onlyFrames_allocSpecificFrame (addr / FRAME_SIZE)
  | allocSpecificFrame frame => exact m.onlyFrames_allocSpecificFrame frame
  | allocSpecificRange startAddr endAddr => exact m.onlyFrames_allocSpecificRange startAddr endAddr
  | validateAndAlloc addr size => exact m.onlyFrames_validateAndAlloc addr size
  | reserveFrame addr => exact m.onlyFrames_reserveFrame addr
  | reserveRegionForBoot base size =>
    have hset := m.onlyFrames_foldl_setBit (m.regionFrames base size)
    exact ⟨hset.total, hset.beyond⟩
  | markAsUsed base size => exact m.onlyFrames_charge _ _
  | initRegion base size => exact m.onlyFrames_foldl_clearBit _
  | freeFrame addr => exact m.onlyFrames_freeFrame addr
  | freeFramesContiguous addr count => exact m.onlyFrames_freeFramesContiguous addr count
  | freeGuardedRegion addr size guardBefore => exact m.onlyFrames_freeFramesContiguous _ _

lemma onlyFrames_after (ops : List ManagerOp) : ∀ m : PhysicalMemoryManager,
    OnlyFrames m (m.after ops) := by
  induction ops with
  | nil => intro m; exact .refl m
  | cons op ops ih => intro m; exact (m.onlyFrames_apply op).trans (ih (op.apply m))

/-! ## The last word -/

/-- Every bit of every word is set, also those that stand for no frame. -/
lemma isBitmapFull_iff :
    m.isBitmapFull = true ↔ ∀ f, f / 64 < (m.totalFrames + 63) / 64 → m.bit f = true := by
  simp only [isBitmapFull, List.all_eq_true, List.mem_range, beq_iff_eq]
  constructor
  · intro hfull f hf
    have hlt : f % 64 < 64 := Nat.mod_lt f (by decide)
    rw [bit, getBit_eq, hfull (f / 64) hf, BitVec.getLsbD_allOnes, decide_eq_true hlt]
  · intro hfull i hi
    apply BitVec.eq_of_getLsbD_eq
    intro k hk
    have hword : (i * 64 + k) / 64 = i := by omega
    have hset := hfull (i * 64 + k) (by rw [hword]; exact hi)
    rw [getLsbD_eq_getBit m.bitmap i hk, Nat.shiftLeft_eq, BitVec.getLsbD_allOnes,
      decide_eq_true hk]
    exact hset

lemma after_padding_clear (m : PhysicalMemoryManager) (ops : List ManagerOp) {f : ℕ}
    (hbeyond : m.totalFrames ≤ f) (hf : f / 64 < (m.totalFrames + 63) / 64) :
    (m.resetAllBits.after ops).bit f = false :=
  ((onlyFrames_after ops m.resetAllBits).beyond f hbeyond).trans (bit_resetAllBits hf)

/-- In these states "full" is a statement about the frames only if every word is full of frames. -/
lemma isBitmapFull_after_iff (m : PhysicalMemoryManager) (ops : List ManagerOp) :
    (m.resetAllBits.after ops).isBitmapFull = true ↔
      m.totalFrames % 64 = 0 ∧ ∀ f < m.totalFrames, (m.resetAllBits.after ops).bit f = true := by
  have htotal : (m.resetAllBits.after ops).totalFrames = m.totalFrames :=
    (onlyFrames_after ops m.resetAllBits).total
  rw [isBitmapFull_iff, htotal]
  constructor
  · intro hfull
    refine ⟨?_, fun f hf => hfull f (by omega)⟩
    by_contra hrest
    -- the first bit after those of the frames is in the last word
    have hclear := m.after_padding_clear ops (f := m.totalFrames) le_rfl (by omega)
    rw [hfull m.totalFrames (by omega)] at hclear
    exact absurd hclear (by simp)
  · rintro ⟨hmultiple, hfull⟩ f hf
    exact hfull f (by omega)

/-- **When "full" means exhausted.**  In every state that calls lead to from `reset_all_bits`,
`is_bitmap_full` answers as `alloc_frame` would, exactly when the number of frames is a multiple of
64 or some frame is clear. -/
theorem bitmapFull_iff (m : PhysicalMemoryManager) (ops : List ManagerOp) :
    ((m.resetAllBits.after ops).isBitmapFull = true ↔
        (m.resetAllBits.after ops).allocFrame.1 = none) ↔
      m.totalFrames % 64 = 0 ∨
        ∃ f < m.totalFrames, (m.resetAllBits.after ops).bit f = false := by
  have htotal : (m.resetAllBits.after ops).totalFrames = m.totalFrames :=
    (onlyFrames_after ops m.resetAllBits).total
  have hexhausted : (m.resetAllBits.after ops).allocFrame.1 = none ↔
      ∀ f < m.totalFrames, (m.resetAllBits.after ops).bit f = true := by
    rw [← htotal]
    exact allocFrame_eq_none
  have hsome : (∃ f < m.totalFrames, (m.resetAllBits.after ops).bit f = false) ↔
      ¬ ∀ f < m.totalFrames, (m.resetAllBits.after ops).bit f = true := by
    simp
  rw [isBitmapFull_after_iff, hexhausted, hsome]
  tauto

/-- A single frame, and it is allocated: the next call fails, and the bitmap is not full. -/
theorem oneFrame_notFull :
    ¬ (((PhysicalMemoryManager.new 0x1000#64 fun _ => 0#64).resetAllBits.after
          [.allocFrame]).isBitmapFull = true ↔
        ((PhysicalMemoryManager.new 0x1000#64 fun _ => 0#64).resetAllBits.after
          [.allocFrame]).allocFrame.1 = none) := by
  decide +kernel

end PhysicalMemoryManager

end Masika
