import Masika.Memory.Physical.Accounting

/-!
# Which frames are reported as reserved

`is_frame_reserved` looks at the bit of the frame and then compares the **number of used frames**
with the number of the frame.  The bitmap does not say who set a bit; the counter says nothing about
one frame.  What the answer should be is recorded beside the manager, as in the account of the two
counters: the last function that set each bit.

`frameReserved_iff` says for which frames the answer is right.  To state this without the counter,
the counter is computed from the history: it is the number of allocated frames, less one for every
release that has hit a reserved frame (`Balanced`).
-/

namespace Masika

open PhysicalMemoryManager

/-- Set, and above the number of used frames. -/
def PhysicalMemoryManager.isFrameReserved (m : PhysicalMemoryManager) (addr : ℕ) : Bool :=
  let frame := addr / FRAME_SIZE
  m.getBit frame && decide (m.usedFrames.toNat < frame)

/-- The calls that set or clear bits. -/
inductive ReservationOp where
  | reserveFrame (addr : ℕ)
  | allocFrame
  | allocAt (addr : ℕ)
  | freeFrame (addr : ℕ)

namespace ReservationOp

/-- The same call, among those that are accounted for. -/
def toCharge : ReservationOp → ChargeOp
  | .reserveFrame addr => .reserveFrame addr
  | .allocFrame => .allocFrame
  | .allocAt addr => .allocAt addr
  | .freeFrame addr => .freeFrame addr

/-- Whether the call releases a reserved frame. -/
def strays (s : Charges) : ReservationOp → ℕ
  | .freeFrame addr => if addr / FRAME_SIZE ∈ s.setBy .reservation then 1 else 0
  | _ => 0

end ReservationOp

/-- The manager with the last setter of every frame, and how often a reserved frame has been
released. -/
structure Reservations where
  charges : Charges
  strayed : ℕ

namespace Reservations

/-- After `reset_all_bits`. -/
def start (m : PhysicalMemoryManager) (setter : ℕ → Setter) : Reservations :=
  ⟨⟨m.resetAllBits, setter⟩, 0⟩

/-- One call. -/
def step (x : Reservations) (op : ReservationOp) : Reservations :=
  ⟨x.charges.next (op.toCharge.apply x.charges.manager) op.toCharge.setter,
    x.strayed + op.strays x.charges⟩

/-- One call after the other. -/
def after (x : Reservations) (ops : List ReservationOp) : Reservations := ops.foldl step x

/-- The manager. -/
def manager (x : Reservations) : PhysicalMemoryManager := x.charges.manager

/-- The frames whose bit is set and was last set by `reserve_frame`. -/
def reserved (x : Reservations) : Finset ℕ := x.charges.setBy .reservation

/-- The frames whose bit is set and was last set by an allocation. -/
def allocated (x : Reservations) : Finset ℕ := x.charges.setBy .allocation

/-- The allocated frames, less the releases that have hit a reserved frame, as a machine word. -/
def balance (x : Reservations) : U64 :=
  BitVec.ofNat 64 x.allocated.card - BitVec.ofNat 64 x.strayed

/-- The counter says what the history says. -/
def Balanced (x : Reservations) : Prop := x.manager.usedFrames = x.balance

/-! ## The counter along a run -/

section Steps

variable {s : Charges} {m : PhysicalMemoryManager} {k : ℕ}

lemma balanced_same (h : Balanced ⟨s, k⟩) (hsame : m = s.manager) (who : Setter) :
    Balanced ⟨s.next m who, k⟩ := by
  rwa [hsame, s.next_self who]

/-- One more frame is allocated. -/
lemma balanced_grant (h : Balanced ⟨s, k⟩) {f : ℕ} (hgrant : Grants s.manager m ⟨f, 1⟩) :
    Balanced ⟨s.next m .allocation, k⟩ := by
  obtain ⟨hcard, -⟩ := Charges.card_setBy_next hgrant.sets .allocation
  rw [Extent.card_frames] at hcard
  have hused : m.usedFrames = s.manager.usedFrames + 1#64 := hgrant.used
  have hbefore : s.manager.usedFrames
      = BitVec.ofNat 64 (s.setBy .allocation).card - BitVec.ofNat 64 k := h
  have hafter : m.usedFrames
      = BitVec.ofNat 64 ((s.next m .allocation).setBy .allocation).card - BitVec.ofNat 64 k := by
    rw [hused, hbefore, hcard, BitVec.ofNat_add]
    grind
  exact hafter

lemma balanced_grantsOrFails (h : Balanced ⟨s, k⟩) {result : Option ℕ × PhysicalMemoryManager}
    (hresult : s.manager.GrantsOrFails 1 result) : Balanced ⟨s.next result.2 .allocation, k⟩ := by
  obtain ⟨_ | addr, m⟩ := result
  · exact balanced_same h hresult .allocation
  · obtain ⟨f, -, hgrant⟩ := hresult
    exact balanced_grant h hgrant

/-- A reservation does not touch the counter. -/
lemma balanced_reserve (h : Balanced ⟨s, k⟩) {f : ℕ} (hreserve : Reserves s.manager m f) :
    Balanced ⟨s.next m .reservation, k⟩ := by
  have hsame : (s.next m .reservation).setBy .allocation = s.setBy .allocation :=
    Charges.setBy_next_other hreserve.sets (by decide)
  have hafter : m.usedFrames
      = BitVec.ofNat 64 ((s.next m .reservation).setBy .allocation).card - BitVec.ofNat 64 k := by
    rw [hsame, hreserve.used]
    exact h
  exact hafter

/-- A release takes one frame off: an allocated one, or a reserved one, which is recorded. -/
lemma balanced_drop (h : Balanced ⟨s, k⟩) {f : ℕ} (hdrop : Drops s.manager m {f}) (who : Setter) :
    Balanced ⟨s.next m who, k + if f ∈ s.setBy .reservation then 1 else 0⟩ := by
  have hbefore : s.manager.usedFrames
      = BitVec.ofNat 64 (s.setBy .allocation).card - BitVec.ofNat 64 k := h
  have hafter : m.usedFrames
      = BitVec.ofNat 64 ((s.next m who).setBy .allocation).card
        - BitVec.ofNat 64 (k + if f ∈ s.setBy .reservation then 1 else 0) := by
    rw [Charges.setBy_next_of_drops hdrop, hdrop.used, hbefore]
    by_cases htaken : f ∈ s.manager.taken
    · rw [Finset.inter_singleton_of_mem htaken, Finset.card_singleton]
      cases hsetter : s.setter f with
      | allocation =>
        have hmem : f ∈ s.setBy .allocation := Charges.mem_setBy.mpr ⟨htaken, hsetter⟩
        have hnot : f ∉ s.setBy .reservation := by
          simp [Charges.mem_setBy, hsetter]
        have hcard : (s.setBy .allocation).card = (s.setBy .allocation \ {f}).card + 1 := by
          rw [Finset.sdiff_singleton_eq_erase, Finset.card_erase_add_one hmem]
        rw [if_neg hnot, Nat.add_zero, hcard, BitVec.ofNat_add]
        grind
      | reservation =>
        have hmem : f ∈ s.setBy .reservation := Charges.mem_setBy.mpr ⟨htaken, hsetter⟩
        have hnot : f ∉ s.setBy .allocation := by
          simp [Charges.mem_setBy, hsetter]
        rw [if_pos hmem, Finset.sdiff_singleton_eq_erase, Finset.erase_eq_of_notMem hnot,
          BitVec.ofNat_add]
        grind
    · have hnot : ∀ who, f ∉ s.setBy who := fun who hf => htaken (Charges.mem_setBy.mp hf).1
      rw [Finset.inter_singleton_of_notMem htaken, if_neg (hnot _),
        Finset.sdiff_singleton_eq_erase, Finset.erase_eq_of_notMem (hnot _)]
      simp
  exact hafter

end Steps

/-- Every call keeps the balance. -/
theorem Balanced.step {x : Reservations} (h : x.Balanced) (op : ReservationOp) :
    (x.step op).Balanced := by
  obtain ⟨s, k⟩ := x
  cases op with
  | reserveFrame addr =>
    rcases s.manager.reserveFrame_spec addr with ⟨hsame, -⟩ | hreserve
    · exact balanced_same h hsame .reservation
    · exact balanced_reserve h hreserve
  | allocFrame => exact balanced_grantsOrFails h s.manager.allocFrame_spec
  | allocAt addr =>
    have hspec := s.manager.allocAt_spec addr
    simp only [Reservations.step, ReservationOp.toCharge, ChargeOp.apply, ChargeOp.setter,
      ReservationOp.strays]
    generalize s.manager.allocAt addr = result at hspec ⊢
    obtain ⟨_ | _, m⟩ := result
    · exact balanced_same h hspec .allocation
    · exact balanced_grant h hspec
  | freeFrame addr => exact balanced_drop h (s.manager.freeFrame_spec addr) .allocation

lemma balanced_start (m : PhysicalMemoryManager) (setter : ℕ → Setter) :
    (start m setter).Balanced := by
  have hnone : (start m setter).allocated = ∅ := by
    rw [allocated, start, Charges.setBy, m.taken_resetAllBits, Finset.filter_empty]
  rw [Balanced, balance, hnone, Finset.card_empty]
  exact (BitVec.sub_zero 0#64).symm

lemma Balanced.after (ops : List ReservationOp) : ∀ {x : Reservations}, x.Balanced →
    (x.after ops).Balanced := by
  induction ops with
  | nil => intro x h; exact h
  | cons op ops ih => intro x h; exact ih (h.step op)

end Reservations

/-! ## The report -/

/-- **When the report is right.**  In every run from `reset_all_bits` and for every address,
`is_frame_reserved` says whether the frame is set and was last set by `reserve_frame`, exactly when
the frame is clear, or it was last set by `reserve_frame` just in case its number is larger than the
number of allocated frames, less the reserved frames that were released. -/
theorem frameReserved_iff (m : PhysicalMemoryManager) (setter : ℕ → Setter)
    (ops : List ReservationOp) (addr : ℕ) :
    (((Reservations.start m setter).after ops).manager.isFrameReserved addr = true ↔
        addr / 4096 ∈ ((Reservations.start m setter).after ops).reserved) ↔
      addr / 4096 ∉ ((Reservations.start m setter).after ops).manager.taken ∨
        (addr / 4096 ∈ ((Reservations.start m setter).after ops).reserved ↔
          ((Reservations.start m setter).after ops).balance.toNat < addr / 4096) := by
  have hbalanced := (Reservations.balanced_start m setter).after ops
  generalize (Reservations.start m setter).after ops = x at hbalanced
  have hsub : addr / 4096 ∈ x.reserved → addr / 4096 ∈ x.manager.taken :=
    fun h => (Charges.mem_setBy.mp h).1
  rw [isFrameReserved, ← hbalanced, FRAME_SIZE, Bool.and_eq_true, getBit_eq_true,
    decide_eq_true_eq]
  tauto

/-- Frame 0 is reserved and frame 5 is allocated: the report says the opposite of both. -/
theorem reserved_and_allocated_confused :
    (((Reservations.start (PhysicalMemoryManager.new 0x8000#64 fun _ => 0#64)
          fun _ => .allocation).after [.reserveFrame 0, .allocAt 0x5000]).manager.isFrameReserved 0
        = false ∧
      0 ∈ ((Reservations.start (PhysicalMemoryManager.new 0x8000#64 fun _ => 0#64)
          fun _ => .allocation).after [.reserveFrame 0, .allocAt 0x5000]).reserved) ∧
    (((Reservations.start (PhysicalMemoryManager.new 0x8000#64 fun _ => 0#64)
          fun _ => .allocation).after [.reserveFrame 0, .allocAt 0x5000]).manager.isFrameReserved
          0x5000 = true ∧
      5 ∉ ((Reservations.start (PhysicalMemoryManager.new 0x8000#64 fun _ => 0#64)
          fun _ => .allocation).after [.reserveFrame 0, .allocAt 0x5000]).reserved) := by
  decide +kernel

end Masika
