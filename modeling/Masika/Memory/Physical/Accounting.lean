import Masika.Core.Runs
import Masika.Memory.Physical.Allocation

/-!
# Used frames and reserved frames

The manager has one bit per frame and two counters, and a bit does not tell which counter it was
charged to.  Here the last setter of every frame is recorded beside the manager, so that the two
counters can be compared with what they are meant to count.

`free_frame` and `free_frames_contiguous` take every frame they clear off `used_frames`, also one
that was reserved.  Hence one `reserve_frame` followed by one `free_frame` sends `used_frames` to
`2 ^ 64 - 1` (`freeing_a_reserved_frame_wraps`).  The other leak is `alloc_frames_contiguous` with
more frames than there are: the bound of its loop underflows.  As long as neither happens the
counters are exact (`counters_separate`).
-/

namespace Masika

open Extent PhysicalMemoryManager

/-- Who set a bit. -/
inductive Setter where
  | allocation
  | reservation
deriving DecidableEq, Repr

/-- The manager, and for every frame the last function that set its bit. -/
structure Charges where
  manager : PhysicalMemoryManager
  setter : ℕ → Setter

/-- The calls that change a counter. -/
inductive ChargeOp where
  | allocFrame
  | allocFramesContiguous (count : ℕ)
  | allocAt (addr : ℕ)
  | reserveFrame (addr : ℕ)
  | reclaimFrame (addr : ℕ)
  | freeFrame (addr : ℕ)
  | releaseFrame (addr : ℕ)
  | freeFramesContiguous (addr count : ℕ)

namespace ChargeOp

/-- What a call does. -/
def apply (m : PhysicalMemoryManager) : ChargeOp → PhysicalMemoryManager
  | .allocFrame => m.allocFrame.2
  | .allocFramesContiguous count => (m.allocFramesContiguous count).2
  | .allocAt addr => (m.allocAt addr).2
  | .reserveFrame addr => m.reserveFrame addr
  | .reclaimFrame addr => m.reclaimFrame addr
  | .freeFrame addr => m.freeFrame addr
  | .releaseFrame addr => m.releaseFrame addr
  | .freeFramesContiguous addr count => m.freeFramesContiguous addr count

/-- In whose name the operation sets bits, if it sets any. -/
def setter : ChargeOp → Setter
  | .reserveFrame _ => .reservation
  | .reclaimFrame _ => .reservation
  | _ => .allocation

end ChargeOp

namespace Charges

/-- The manager becomes `m`, and every bit that was clear before and is set now was set by `who`. -/
def next (s : Charges) (m : PhysicalMemoryManager) (who : Setter) : Charges :=
  ⟨m, fun f => if s.manager.bit f = false ∧ m.bit f = true then who else s.setter f⟩

/-- One call. -/
def step (s : Charges) (op : ChargeOp) : Option Charges :=
  some (s.next (op.apply s.manager) op.setter)

/-- The set bits whose last setter was `who`. -/
def setBy (s : Charges) (who : Setter) : Finset ℕ :=
  s.manager.taken.filter fun f => s.setter f = who

/-- Each counter counts what it is meant to count. -/
structure Separated (s : Charges) : Prop where
  reserved : s.manager.reservedFrames.toNat = (s.setBy .reservation).card
  used : s.manager.usedFrames.toNat = (s.setBy .allocation).card
  free : s.manager.getFreeFrames.toNat
    = ((Finset.range s.manager.totalFrames).filter fun f => s.manager.bit f = false).card

/-- No more frames are cleared than `used_frames` counts, so that taking them off does not wrap. -/
def NoUnderflow (s s' : Charges) : Prop :=
  (s.manager.taken \ s'.manager.taken).card ≤ s.manager.usedFrames.toNat

/-- The operation does not release a reserved frame, and does not ask for more contiguous frames
than there are. -/
def ReleasesAllocated (s : Charges) : ChargeOp → Prop
  | .freeFrame addr => addr / FRAME_SIZE ∉ s.setBy .reservation
  | .releaseFrame addr => addr / FRAME_SIZE ∉ s.setBy .reservation
  | .freeFramesContiguous addr count => ∀ f ∈ framesFreed addr count, f ∉ s.setBy .reservation
  | .allocFramesContiguous count => count ≤ 1 ∨ count ≤ s.manager.totalFrames
  | _ => True

/-! ## The invariant -/

lemma mem_setBy {s : Charges} {who : Setter} {f : ℕ} :
    f ∈ s.setBy who ↔ f ∈ s.manager.taken ∧ s.setter f = who := Finset.mem_filter

/-- The two counters; what `get_free_frames` computes follows. -/
structure Counted (s : Charges) : Prop where
  reserved : s.manager.reservedFrames.toNat = (s.setBy .reservation).card
  used : s.manager.usedFrames.toNat = (s.setBy .allocation).card

lemma card_setBy_add (s : Charges) :
    (s.setBy .allocation).card + (s.setBy .reservation).card = s.manager.taken.card := by
  have hother : ∀ f, s.setter f = .reservation ↔ ¬ s.setter f = .allocation := by
    intro f
    cases s.setter f <;> simp
  rw [setBy, setBy, Finset.filter_congr fun f _ => hother f]
  exact Finset.card_filter_add_card_filter_not _

lemma Counted.separated {s : Charges} (hs : Counted s) : Separated s := by
  refine ⟨hs.reserved, hs.used, ?_⟩
  have hsum := s.card_setBy_add
  have hle := s.manager.card_taken_le
  have hlt := s.manager.total_lt
  have hclear : (Finset.range s.manager.totalFrames).filter (fun f => s.manager.bit f = false)
      = Finset.range s.manager.totalFrames \ s.manager.taken := by
    ext f
    simp only [Finset.mem_filter, Finset.mem_range, Finset.mem_sdiff, mem_taken, not_and,
      Bool.not_eq_true]
    tauto
  have hsub : s.manager.taken ⊆ Finset.range s.manager.totalFrames :=
    fun f hf => Finset.mem_range.mpr (mem_taken.mp hf).1
  rw [hclear, Finset.card_sdiff_of_subset hsub, Finset.card_range, getFreeFrames,
    BitVec.toNat_sub, BitVec.toNat_sub, BitVec.toNat_ofNat, hs.reserved, hs.used]
  omega

lemma counted_reset (m : PhysicalMemoryManager) (setter : ℕ → Setter) :
    Counted ⟨m.resetAllBits, setter⟩ := by
  have hnone : ∀ who, (⟨m.resetAllBits, setter⟩ : Charges).setBy who = ∅ := fun who => by
    rw [setBy, m.taken_resetAllBits, Finset.filter_empty]
  exact ⟨by rw [hnone]; rfl, by rw [hnone]; rfl⟩

/-! ## Steps -/

section Sets

variable {s : Charges} {m : PhysicalMemoryManager} {F : Finset ℕ} {who : Setter}

/-- Frames that become set are added to those of the one who sets them. -/
lemma setBy_next_self (h : Sets s.manager m F) : (s.next m who).setBy who = s.setBy who ∪ F := by
  obtain ⟨htaken, -⟩ := h.taken
  ext f
  simp only [mem_setBy, next, htaken, Finset.mem_union, h.bits]
  by_cases hf : f ∈ F
  · simp [hf, (h.clear f hf).2]
  · cases s.manager.bit f <;> simp [hf]

lemma setBy_next_other (h : Sets s.manager m F) {other : Setter} (hne : who ≠ other) :
    (s.next m who).setBy other = s.setBy other := by
  obtain ⟨htaken, hdisj⟩ := h.taken
  ext f
  simp only [mem_setBy, next, htaken, Finset.mem_union, h.bits]
  by_cases hf : f ∈ F
  · have hnot : f ∉ s.manager.taken := Finset.disjoint_left.mp hdisj hf
    simp [hf, hnot, (h.clear f hf).2, hne]
  · cases s.manager.bit f <;> simp [hf]

/-- Their number is the old one and that of the new frames, and 64 bits hold it. -/
lemma card_setBy_next (h : Sets s.manager m F) (who : Setter) :
    ((s.next m who).setBy who).card = (s.setBy who).card + F.card ∧
      (s.setBy who).card + F.card < 2 ^ 64 := by
  have hcard : ((s.next m who).setBy who).card = (s.setBy who).card + F.card := by
    rw [setBy_next_self h, Finset.card_union_of_disjoint]
    exact (h.taken.2.mono_right (Finset.filter_subset _ _)).symm
  have hsub : ((s.next m who).setBy who).card ≤ m.taken.card :=
    Finset.card_le_card (Finset.filter_subset _ _)
  have hle := m.card_taken_le
  have hlt := m.total_lt
  exact ⟨hcard, by omega⟩

end Sets

lemma Counted.grant {s : Charges} (hs : Counted s) {m : PhysicalMemoryManager} {e : Extent}
    (h : Grants s.manager m e) : Counted (s.next m .allocation) := by
  obtain ⟨hcard, hlt⟩ := card_setBy_next h.sets .allocation
  rw [card_frames, ← hs.used] at hcard hlt
  constructor
  · rw [setBy_next_other h.sets (by decide), ← hs.reserved]
    exact congrArg BitVec.toNat h.reserved
  · have hused : (s.next m .allocation).manager.usedFrames
        = s.manager.usedFrames + BitVec.ofNat 64 e.count := h.used
    rw [hcard, hused, BitVec.toNat_add, BitVec.toNat_ofNat]
    omega

lemma Counted.reserve {s : Charges} (hs : Counted s) {m : PhysicalMemoryManager} {f : ℕ}
    (h : Reserves s.manager m f) : Counted (s.next m .reservation) := by
  obtain ⟨hcard, hlt⟩ := card_setBy_next h.sets .reservation
  rw [Finset.card_singleton, ← hs.reserved] at hcard hlt
  constructor
  · have hcounter : (s.next m .reservation).manager.reservedFrames
        = s.manager.reservedFrames + 1#64 := h.reserved
    rw [hcard, hcounter, BitVec.toNat_add, BitVec.toNat_ofNat]
    omega
  · rw [setBy_next_other h.sets (by decide), ← hs.used]
    exact congrArg BitVec.toNat h.used

/-- Frames that are released are no longer anybody's; the others are as before. -/
lemma setBy_next_of_drops {s : Charges} {m : PhysicalMemoryManager} {S : Finset ℕ}
    (h : Drops s.manager m S) (whose who : Setter) :
    (s.next m whose).setBy who = s.setBy who \ S := by
  have hsetter : ∀ f, (s.next m whose).setter f = s.setter f := by
    intro f
    simp only [next, h.bits]
    cases s.manager.bit f <;> simp
  have hmanager : (s.next m whose).manager.taken = m.taken := rfl
  ext f
  rw [mem_setBy, hsetter, hmanager, h.taken, Finset.mem_sdiff, Finset.mem_sdiff, mem_setBy]
  tauto

/-- **Frames that were not reserved can be released.** -/
lemma Counted.drop {s : Charges} (hs : Counted s) {m : PhysicalMemoryManager} {S : Finset ℕ}
    (h : Drops s.manager m S) (hS : ∀ f ∈ S, f ∉ s.setBy .reservation) (who : Setter) :
    Counted (s.next m who) ∧ NoUnderflow s (s.next m who) := by
  have hcleared : s.manager.taken ∩ S = s.setBy .allocation ∩ S := by
    ext f
    simp only [Finset.mem_inter, mem_setBy]
    constructor
    · rintro ⟨ht, hf⟩
      refine ⟨⟨ht, ?_⟩, hf⟩
      cases hw : s.setter f with
      | allocation => rfl
      | reservation => exact absurd (mem_setBy.mpr ⟨ht, hw⟩) (hS f hf)
    · rintro ⟨⟨ht, -⟩, hf⟩
      exact ⟨ht, hf⟩
  have hle : (s.manager.taken ∩ S).card ≤ s.manager.usedFrames.toNat := by
    rw [hcleared, hs.used]
    exact Finset.card_le_card Finset.inter_subset_left
  refine ⟨⟨?_, ?_⟩, ?_⟩
  · have hdisjoint : Disjoint (s.setBy .reservation) S :=
      Finset.disjoint_left.mpr fun f hf hfS => hS f hfS hf
    rw [setBy_next_of_drops h, Finset.sdiff_eq_self_of_disjoint hdisjoint, ← hs.reserved]
    exact congrArg BitVec.toNat h.reserved
  · have hcard := Finset.card_sdiff_add_card_inter (s.setBy .allocation) S
    have hused : (s.next m who).manager.usedFrames
        = s.manager.usedFrames - BitVec.ofNat 64 (s.manager.taken ∩ S).card := h.used
    have hlt := s.manager.usedFrames.isLt
    rw [setBy_next_of_drops h, hused, BitVec.toNat_sub, BitVec.toNat_ofNat]
    rw [hcleared] at hle ⊢
    rw [hs.used] at hle hlt ⊢
    omega
  · have hmanager : (s.next m who).manager.taken = m.taken := rfl
    rw [NoUnderflow, hmanager, h.taken, Finset.sdiff_sdiff_self_left]
    exact hle

/-- An operation that clears nothing cannot underflow. -/
lemma noUnderflow_of_subset {s s' : Charges} (h : s.manager.taken ⊆ s'.manager.taken) :
    NoUnderflow s s' := by
  rw [NoUnderflow, Finset.sdiff_eq_empty_iff_subset.mpr h, Finset.card_empty]
  exact Nat.zero_le _

lemma noUnderflow_of_sets {s : Charges} {m : PhysicalMemoryManager} {F : Finset ℕ}
    (h : Sets s.manager m F) (who : Setter) : NoUnderflow s (s.next m who) := by
  refine noUnderflow_of_subset ?_
  have htaken : (s.next m who).manager.taken = s.manager.taken ∪ F := h.taken.1
  rw [htaken]
  exact Finset.subset_union_left

/-- A call that changes nothing sets no bit. -/
lemma next_self (s : Charges) (who : Setter) : s.next s.manager who = s := by
  have hsetter : (s.next s.manager who).setter = s.setter := by
    funext f
    simp only [next]
    cases s.manager.bit f <;> simp
  exact congrArg (Charges.mk s.manager) hsetter

/-- Nothing happens. -/
lemma Counted.same {s : Charges} (hs : Counted s) {m : PhysicalMemoryManager}
    (h : m = s.manager) (who : Setter) : Counted (s.next m who) ∧ NoUnderflow s (s.next m who) := by
  subst h
  rw [s.next_self who]
  exact ⟨hs, noUnderflow_of_subset (Finset.Subset.refl _)⟩

lemma Counted.grantsOrFails {s : Charges} (hs : Counted s) {count : ℕ}
    {result : Option ℕ × PhysicalMemoryManager} (h : s.manager.GrantsOrFails count result) :
    Counted (s.next result.2 .allocation) ∧ NoUnderflow s (s.next result.2 .allocation) := by
  obtain ⟨_ | addr, m⟩ := result
  · exact hs.same h .allocation
  · obtain ⟨start, -, hgrant⟩ := h
    exact ⟨hs.grant hgrant, noUnderflow_of_sets hgrant.sets .allocation⟩

lemma Counted.reserveFrame {s : Charges} (hs : Counted s) (addr : ℕ) :
    Counted (s.next (s.manager.reserveFrame addr) .reservation) ∧
      NoUnderflow s (s.next (s.manager.reserveFrame addr) .reservation) := by
  rcases s.manager.reserveFrame_spec addr with ⟨hsame, -⟩ | hres
  · exact hs.same hsame .reservation
  · exact ⟨hs.reserve hres, noUnderflow_of_sets hres.sets .reservation⟩

/-- One call keeps the counters right. -/
theorem Counted.step {s : Charges} (hs : Counted s) {op : ChargeOp} (hok : s.ReleasesAllocated op) :
    Counted (s.next (op.apply s.manager) op.setter) ∧
      NoUnderflow s (s.next (op.apply s.manager) op.setter) := by
  cases op with
  | allocFrame => exact hs.grantsOrFails s.manager.allocFrame_spec
  | allocFramesContiguous count =>
    exact hs.grantsOrFails (s.manager.allocFramesContiguous_spec hok)
  | allocAt addr =>
    have hspec := s.manager.allocAt_spec addr
    simp only [ChargeOp.apply, ChargeOp.setter]
    generalize s.manager.allocAt addr = result at hspec ⊢
    obtain ⟨_ | _, m⟩ := result
    · exact hs.same hspec .allocation
    · exact hs.grantsOrFails
        (show s.manager.GrantsOrFails 1 (some (_ * FRAME_SIZE), m) from ⟨_, rfl, hspec⟩)
  | reserveFrame addr => exact hs.reserveFrame addr
  | reclaimFrame addr => exact hs.reserveFrame addr
  | freeFrame addr =>
    refine hs.drop (s.manager.freeFrame_spec addr) (fun f hf => ?_) .allocation
    rw [Finset.mem_singleton.mp hf]
    exact hok
  | releaseFrame addr =>
    refine hs.drop (s.manager.freeFrame_spec addr) (fun f hf => ?_) .allocation
    rw [Finset.mem_singleton.mp hf]
    exact hok
  | freeFramesContiguous addr count =>
    exact hs.drop (s.manager.freeFramesContiguous_spec addr count)
      (fun f hf => hok f (List.mem_toFinset.mp hf)) .allocation

end Charges

/-- **The counters are exact until a reserved frame is released.**  In every run from
`reset_all_bits` in which no release hits a frame that `reserve_frame` has set, and no contiguous
allocation asks for more frames than there are, both counters and `get_free_frames` say what they
are meant to say, and the next such operation does not underflow. -/
theorem counters_separate (m : PhysicalMemoryManager) (setter : ℕ → Setter) {ops : List ChargeOp}
    {s : Charges} (hok : Meets Charges.ReleasesAllocated Charges.step ⟨m.resetAllBits, setter⟩ ops)
    (h : run Charges.step ⟨m.resetAllBits, setter⟩ ops = some s) :
    s.Separated ∧ ∀ op s', s.ReleasesAllocated op → s.step op = some s' → s.NoUnderflow s' := by
  have hs : s.Counted := by
    refine run_invariant_of_meets (fun s op s' hs hop hstep => ?_)
      (Charges.counted_reset m setter) hok h
    rw [← Option.some.inj hstep]
    exact (hs.step hop).1
  refine ⟨hs.separated, fun op s' hop hstep => ?_⟩
  rw [← Option.some.inj hstep]
  exact (hs.step hop).2

/-- A frame is reserved, two others are allocated, and one of those is freed again. -/
def reservedAndAllocated : List ChargeOp :=
  [.reserveFrame 0x2000, .allocFrame, .allocAt 0x5000, .freeFrame 0x5000]

/-- One frame of each kind. -/
theorem counters_separate_reservedAndAllocated :
    ∃ s, run Charges.step ⟨(PhysicalMemoryManager.new 0x8000#64 fun _ => 0#64).resetAllBits,
        fun _ => .allocation⟩ reservedAndAllocated = some s ∧
      s.manager.usedFrames = 1#64 ∧ s.manager.reservedFrames = 1#64 ∧ s.Separated := by
  have hcomp : (run Charges.step ⟨(PhysicalMemoryManager.new 0x8000#64 fun _ => 0#64).resetAllBits,
      fun _ => .allocation⟩ reservedAndAllocated).map
        (fun s => (s.manager.usedFrames, s.manager.reservedFrames)) = some (1#64, 1#64) := by
    decide +kernel
  obtain ⟨s, hs, hcounters⟩ := Option.map_eq_some_iff.mp hcomp
  rw [Prod.mk.injEq] at hcounters
  refine ⟨s, hs, hcounters.1, hcounters.2, (counters_separate _ _ ?_ hs).1⟩
  refine ⟨trivial, fun s₁ h₁ => ⟨trivial, fun s₂ h₂ => ⟨trivial, fun s₃ h₃ => ⟨?_, fun _ _ => ?_⟩⟩⟩⟩
  · rw [← Option.some.inj h₃, ← Option.some.inj h₂, ← Option.some.inj h₁, Charges.ReleasesAllocated]
    decide +kernel
  · trivial

/-- **A reserved frame is charged to `used_frames` when it is freed.** -/
theorem freeing_a_reserved_frame_wraps :
    ¬ ∀ (ops : List ChargeOp) (s : Charges),
        run Charges.step ⟨(PhysicalMemoryManager.new 0x8000#64 fun _ => 0#64).resetAllBits,
          fun _ => .allocation⟩ ops = some s → s.Separated := by
  intro hall
  have hsep := hall [.reserveFrame 0, .freeFrame 0] _ rfl
  have hused := hsep.used
  revert hused
  decide +kernel

end Masika
