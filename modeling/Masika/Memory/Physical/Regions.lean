import Masika.Core.Runs
import Masika.Memory.Physical.Allocation

/-!
# Setting up regions at boot time

`init_region`, `mark_as_used` and `reserve_region_for_boot` set or clear the bits of a region and
adjust the counters without looking at the bits: the first not at all, the other two by the number
of frames of the whole region, also when a frame was set before or does not exist.  So whether the
counters stay exact depends on the region (`regionOp_exact_iff`):

* `init_region` keeps them exact if and only if no frame of the region was set;
* the other two if and only if every frame of the region exists and was clear.

`free_frame` and `reserve_frame`, which work on single frames, do check the bit first.
-/

namespace Masika

open PhysicalMemoryManager

/-- The calls at boot. -/
inductive RegionOp where
  | initRegion (base size : ℕ)
  | markAsUsed (base size : ℕ)
  | reserveRegionForBoot (base size : ℕ)

namespace RegionOp

/-- The start of the region. -/
def base : RegionOp → ℕ
  | .initRegion base _ => base
  | .markAsUsed base _ => base
  | .reserveRegionForBoot base _ => base

/-- The size of the region. -/
def size : RegionOp → ℕ
  | .initRegion _ size => size
  | .markAsUsed _ size => size
  | .reserveRegionForBoot _ size => size

/-- What a call does. -/
def apply (m : PhysicalMemoryManager) : RegionOp → PhysicalMemoryManager
  | .initRegion base size => m.initRegion base size
  | .markAsUsed base size => m.markAsUsed base size
  | .reserveRegionForBoot base size => m.reserveRegionForBoot base size

/-- The frames that the region touches, whether they exist or not. -/
def frames (op : RegionOp) : Finset ℕ :=
  Finset.Ico (op.base / 4096) ((op.base + op.size + 4095) / 4096)

/-- The region can be set up without looking at the bits. -/
def Fits (m : PhysicalMemoryManager) (op : RegionOp) : Prop :=
  match op with
  | .initRegion _ _ => ∀ f ∈ op.frames, f < m.totalFrames → m.bit f = false
  | _ => ∀ f ∈ op.frames, f < m.totalFrames ∧ m.bit f = false

end RegionOp

namespace PhysicalMemoryManager

/-- The two counters together count the set bits. -/
def Exact (m : PhysicalMemoryManager) : Prop :=
  m.usedFrames.toNat + m.reservedFrames.toNat = m.taken.card

/-- Exact counters leave `get_free_frames` no room to underflow. -/
lemma Exact.getFreeFrames {m : PhysicalMemoryManager} (hm : m.Exact) :
    m.getFreeFrames.toNat + m.taken.card = m.totalFrames := by
  have hle := m.card_taken_le
  have hlt := m.total_lt
  rw [Exact] at hm
  rw [PhysicalMemoryManager.getFreeFrames, BitVec.toNat_sub, BitVec.toNat_sub, BitVec.toNat_ofNat]
  omega

/-! ## How many bits change -/

lemma mem_regionFrames (m : PhysicalMemoryManager) {base size f : ℕ}
    (h : base + size + 4095 < 2 ^ 64) :
    f ∈ m.regionFrames base size
      ↔ base / 4096 ≤ f ∧ f < (base + size + 4095) / 4096 ∧ f < m.totalFrames := by
  rw [regionFrames, List.mem_range'_1, frameCeil_eq h, FRAME_SIZE]
  omega

/-- Setting the bits of a region adds its frames that exist and were clear. -/
lemma card_taken_foldl_setBit (m : PhysicalMemoryManager) {base size : ℕ}
    (h : base + size + 4095 < 2 ^ 64) :
    ((m.regionFrames base size).foldl setBit m).taken.card
      = m.taken.card
        + ((Finset.Ico (base / 4096) ((base + size + 4095) / 4096)).filter
            fun f => f < m.totalFrames ∧ m.bit f = false).card := by
  have htotal : ((m.regionFrames base size).foldl setBit m).totalFrames = m.totalFrames := by
    rw [foldl_setBit_eq]
  rw [← Finset.card_union_of_disjoint]
  · congr 1
    ext f
    simp only [mem_taken, htotal, bit_foldl_setBit, Finset.mem_union, Finset.mem_filter,
      Finset.mem_Ico, mem_regionFrames m h, Bool.or_eq_true, decide_eq_true_eq]
    cases m.bit f with
    | false =>
      simp
      tauto
    | true => simp
  · rw [Finset.disjoint_left]
    intro f hf hf'
    rw [mem_taken] at hf
    rw [Finset.mem_filter, hf.2] at hf'
    exact absurd hf'.2.2 (by simp)

/-- Clearing the bits of a region removes its frames that were set. -/
lemma card_taken_foldl_clearBit (m : PhysicalMemoryManager) {base size : ℕ}
    (h : base + size + 4095 < 2 ^ 64) :
    ((m.regionFrames base size).foldl clearBit m).taken.card
        + ((Finset.Ico (base / 4096) ((base + size + 4095) / 4096)).filter
            fun f => f < m.totalFrames ∧ m.bit f = true).card
      = m.taken.card := by
  have htotal : ((m.regionFrames base size).foldl clearBit m).totalFrames = m.totalFrames := by
    rw [foldl_clearBit_eq]
  rw [← Finset.card_union_of_disjoint]
  · congr 1
    ext f
    simp only [mem_taken, htotal, bit_foldl_clearBit, Finset.mem_union, Finset.mem_filter,
      Finset.mem_Ico, mem_regionFrames m h, Bool.and_eq_true, Bool.not_eq_true',
      decide_eq_false_iff_not]
    tauto
  · rw [Finset.disjoint_left]
    intro f hf hf'
    rw [mem_taken, bit_foldl_clearBit] at hf
    rw [Finset.mem_filter, Finset.mem_Ico] at hf'
    have hin : f ∈ m.regionFrames base size ∧ f < m.totalFrames :=
      ⟨(mem_regionFrames m h).mpr ⟨hf'.1.1, hf'.1.2, hf'.2.1⟩, hf'.2.1⟩
    simp [hin] at hf

/-- The number of frames that is added to a counter. -/
lemma toNat_regionCount {base size : ℕ} (h : base + size + 4095 < 2 ^ 64) :
    (regionCount base size).toNat
      = (Finset.Ico (base / 4096) ((base + size + 4095) / 4096)).card := by
  rw [regionCount_eq h, BitVec.toNat_ofNat, frameCeil_eq h, FRAME_SIZE, Nat.card_Ico]
  omega

lemma card_region_lt {base size : ℕ} (h : base + size + 4095 < 2 ^ 64) :
    (Finset.Ico (base / 4096) ((base + size + 4095) / 4096)).card < 2 ^ 52 := by
  rw [Nat.card_Ico]
  omega

/-- All frames of the region are charged, and those that exist and were clear become set: the two
numbers are the same exactly if these are all. -/
lemma exact_charge_iff {m m' : PhysicalMemoryManager} {base size : ℕ}
    (hm : m.Exact) (h : base + size + 4095 < 2 ^ 64)
    (htaken : m'.taken = ((m.regionFrames base size).foldl setBit m).taken)
    (hcounters : m'.usedFrames = m.usedFrames + regionCount base size ∧
        m'.reservedFrames = m.reservedFrames ∨
      m'.usedFrames = m.usedFrames ∧
        m'.reservedFrames = m.reservedFrames + regionCount base size) :
    m'.Exact ↔ ∀ f ∈ Finset.Ico (base / 4096) ((base + size + 4095) / 4096),
      f < m.totalFrames ∧ m.bit f = false := by
  have hsum : m'.usedFrames.toNat + m'.reservedFrames.toNat
      = m.usedFrames.toNat + m.reservedFrames.toNat + (regionCount base size).toNat := by
    have hle := m.card_taken_le
    have hlt := m.total_lt
    have hcount := toNat_regionCount h
    have hsize := card_region_lt h
    rw [Exact] at hm
    rcases hcounters with ⟨hused, hreserved⟩ | ⟨hused, hreserved⟩ <;>
      rw [hused, hreserved, BitVec.toNat_add] <;>
      omega
  rw [← Finset.card_filter_eq_iff, Exact, htaken, card_taken_foldl_setBit m h, hsum,
    toNat_regionCount h, hm, Nat.add_left_cancel_iff]
  exact eq_comm

end PhysicalMemoryManager

/-- **One region.**  From exact counters, each of the three functions leads to exact counters if and
only if the region fits. -/
theorem exact_regionOp_iff {m : PhysicalMemoryManager} (hm : m.Exact) {op : RegionOp}
    (h : op.base + op.size + 4095 < 2 ^ 64) : (op.apply m).Exact ↔ op.Fits m := by
  have hle := m.card_taken_le
  have hlt := m.total_lt
  cases op with
  | initRegion base size =>
    replace h : base + size + 4095 < 2 ^ 64 := h
    have hcard := card_taken_foldl_clearBit m h
    have hused : (m.initRegion base size).usedFrames = m.usedFrames := by
      rw [initRegion, foldl_clearBit_eq]
    have hreserved : (m.initRegion base size).reservedFrames = m.reservedFrames := by
      rw [initRegion, foldl_clearBit_eq]
    have hnone : (RegionOp.initRegion base size).Fits m ↔
        ((Finset.Ico (base / 4096) ((base + size + 4095) / 4096)).filter
          fun f => f < m.totalFrames ∧ m.bit f = true).card = 0 := by
      rw [Finset.card_eq_zero, Finset.filter_eq_empty_iff]
      simp only [RegionOp.Fits, not_and, Bool.not_eq_true]
      exact Iff.rfl
    rw [hnone, RegionOp.apply, Exact, hused, hreserved, hm, initRegion]
    omega
  | markAsUsed base size =>
    have hreserved : (m.markAsUsed base size).reservedFrames = m.reservedFrames := by
      rw [markAsUsed, charge, foldl_setBit_eq]
    have hcounters : (m.markAsUsed base size).usedFrames
        = m.usedFrames + regionCount base size ∧ _ := ⟨rfl, hreserved⟩
    exact exact_charge_iff hm h rfl (Or.inl hcounters)
  | reserveRegionForBoot base size =>
    have hused : (m.reserveRegionForBoot base size).usedFrames = m.usedFrames := by
      rw [reserveRegionForBoot, foldl_setBit_eq]
    have hcounters : _ ∧ (m.reserveRegionForBoot base size).reservedFrames
        = m.reservedFrames + regionCount base size := ⟨hused, rfl⟩
    exact exact_charge_iff hm h rfl (Or.inr hcounters)

/-- Setting up one region after another. -/
def regionStep (m : PhysicalMemoryManager) (op : RegionOp) : Option PhysicalMemoryManager :=
  some (op.apply m)

/-- The region does not leave 64 bits, and it fits. -/
def RegionOp.FitsWithin (m : PhysicalMemoryManager) (op : RegionOp) : Prop :=
  op.base + op.size + 4095 < 2 ^ 64 ∧ op.Fits m

/-- **When the counters stay exact.**  From exact counters, each of the three functions leads to
exact counters if and only if the region fits; and after any sequence of regions that fit,
`get_free_frames` is the number of clear bits. -/
theorem regionOp_exact_iff (m : PhysicalMemoryManager) (hm : m.Exact) :
    (∀ op : RegionOp, op.base + op.size + 4095 < 2 ^ 64 → ((op.apply m).Exact ↔ op.Fits m)) ∧
      ∀ ops m', Meets RegionOp.FitsWithin regionStep m ops → run regionStep m ops = some m' →
        m'.Exact ∧ m'.getFreeFrames.toNat + m'.taken.card = m'.totalFrames := by
  refine ⟨fun op h => exact_regionOp_iff hm h, fun ops m' hok h => ?_⟩
  have hexact : m'.Exact := by
    refine run_invariant_of_meets (fun s op s' hs hop hstep => ?_) hm hok h
    rw [← Option.some.inj hstep]
    exact (exact_regionOp_iff hs hop.1).mpr hop.2
  exact ⟨hexact, hexact.getFreeFrames⟩

lemma exact_resetAllBits (m : PhysicalMemoryManager) : m.resetAllBits.Exact := by
  rw [Exact, taken_resetAllBits]
  rfl

/-- The first two frames of a machine with eight. -/
theorem regionOp_exact_iff_first_frames :
    ((RegionOp.markAsUsed 0 0x1800).apply
      (PhysicalMemoryManager.new 0x8000#64 fun _ => 0#64).resetAllBits).Exact := by
  refine ((regionOp_exact_iff _ (exact_resetAllBits _)).1 (.markAsUsed 0 0x1800) (by decide)).mpr ?_
  simp only [RegionOp.Fits]
  decide +kernel

/-- **A region that reaches beyond the last frame is charged in full.** -/
theorem region_beyond_memory_breaks_counters :
    ¬ ∀ m : PhysicalMemoryManager, m.Exact → ∀ op : RegionOp,
        op.base + op.size + 4095 < 2 ^ 64 → (op.apply m).Exact := by
  intro hall
  have hexact := hall (PhysicalMemoryManager.new 0x8000#64 fun _ => 0#64).resetAllBits
    (exact_resetAllBits _) (.markAsUsed 0x4000 0x8000) (by decide)
  revert hexact
  rw [Exact]
  decide +kernel

end Masika
