import Masika.Memory.Physical.Allocation

/-!
# Alignments and ranges that the caller names

Three functions take frames that the caller describes.  `alloc_aligned` tries the multiples of an
alignment one after the other.  `validate_and_alloc` and `alloc_specific_range` take a range of
addresses, frame by frame, or nothing.

**The search.**  `allocAligned_lowest`: for an alignment that is a power of two the call finds the
lowest address that suits, if there is one.  The stride is counted in frames, so that an alignment
below the frame size is the same as the frame size (`stride_mul`).

**The ranges.**  `validateAndAlloc_iff_validateRange`: one function compares the end of the range
with the number of frames, the other compares every frame; they agree because the range is not
empty.  `allocSpecificRange_exact_iff`: the number of frames is a difference, and it is computed
also when the loops have had nothing to do, because the end lies **before** the start.
-/

namespace Masika

namespace PhysicalMemoryManager

variable {m m' : PhysicalMemoryManager}

/-! ## The check of one range -/

/-- A loop that leaves at a frame that does not exist or is set goes to its end when the frames
are all free. -/
lemma all_free_iff {start count : ℕ} :
    ((List.range' start count).all fun f => !(decide (f ≥ m.totalFrames) || m.getBit f)) = true ↔
      m.FreeRun start count := by
  simp only [List.all_eq_true, Bool.not_eq_true', List.mem_range'_1, FreeRun, and_imp]
  refine forall_congr' fun f => forall_congr' fun _ => forall_congr' fun _ => ?_
  rw [Bool.or_eq_false_iff, decide_eq_false_iff_not, ge_iff_le, not_le]
  exact and_congr_right fun hlt => by rw [getBit_of_lt hlt]

lemma any_taken_iff {start count : ℕ} :
    ((List.range' start count).any fun f => decide (f ≥ m.totalFrames) || m.getBit f) = true ↔
      ¬ m.FreeRun start count := by
  rw [← all_free_iff, List.all_eq_not_any_not]
  simp only [Bool.not_not, Bool.not_eq_true', Bool.not_eq_false]

/-! ## Alignment -/

/-- An address with the alignment and the room that are asked for. -/
def Suits (m : PhysicalMemoryManager) (align count addr : ℕ) : Prop :=
  max align 4096 ∣ addr ∧ m.FreeRun (addr / 4096) count

/-- The stride of the search, in bytes. -/
lemma stride_mul (k : ℕ) : max (2 ^ k / FRAME_SIZE) 1 * 4096 = max (2 ^ k) 4096 := by
  rw [FRAME_SIZE]
  rcases Nat.lt_or_ge k 12 with hk | hk
  · have hlt : 2 ^ k < 2 ^ 12 := Nat.pow_lt_pow_right (by decide) hk
    omega
  · have hsplit : 2 ^ k = 2 ^ (k - 12) * 4096 := by
      rw [show 4096 = 2 ^ 12 from rfl, ← Nat.pow_add, Nat.sub_add_cancel hk]
    have hpos : 0 < 2 ^ (k - 12) := Nat.two_pow_pos _
    omega

/-- The addresses that suit are those of the frames which the search would accept. -/
lemma suits_iff {k count addr : ℕ} (hpos : 0 < count) :
    m.Suits (2 ^ k) count addr ↔
      ∃ start ∈ List.range' 0 ((m.totalFrames + max (2 ^ k / FRAME_SIZE) 1 - 1)
          / max (2 ^ k / FRAME_SIZE) 1) (max (2 ^ k / FRAME_SIZE) 1),
        addr = start * FRAME_SIZE ∧ m.FreeRun start count := by
  rw [Suits, ← stride_mul]
  generalize hstep : max (2 ^ k / FRAME_SIZE) 1 = step
  have hstep : 0 < step := by omega
  simp only [mem_range'_stride hstep, FRAME_SIZE]
  constructor
  · rintro ⟨⟨q, rfl⟩, hrun⟩
    have hstart : step * 4096 * q / 4096 = step * q := by
      rw [Nat.mul_right_comm, Nat.mul_div_cancel _ (by decide)]
    rw [hstart] at hrun
    -- the first frame of the run exists, so that the search comes to it
    have hlt := (hrun (step * q) le_rfl (by omega)).1
    exact ⟨step * q, ⟨hlt, Nat.dvd_mul_right step q⟩, Nat.mul_right_comm step 4096 q, hrun⟩
  · rintro ⟨start, ⟨-, hdvd⟩, rfl, hrun⟩
    rw [Nat.mul_div_cancel start (by decide)]
    exact ⟨Nat.mul_dvd_mul_right hdvd 4096, hrun⟩

/-- **`alloc_aligned` finds the lowest address that suits.**  For every alignment that is a power of
two and every size that can be rounded up, the call succeeds exactly when some multiple of the
alignment and of the frame size has its frames clear and below `total_frames`.  Then it returns the
lowest one, sets those bits and charges them; otherwise nothing changes. -/
theorem allocAligned_lowest (m : PhysicalMemoryManager) (k : ℕ) {size : ℕ} (hpos : 1 ≤ size)
    (hsize : size + 4095 < 2 ^ 64) :
    ((m.allocAligned (2 ^ k) size).1.isSome ↔
        ∃ addr, m.Suits (2 ^ k) ((size + 4095) / 4096) addr) ∧
      match m.allocAligned (2 ^ k) size with
      | (some addr, m') => m.Suits (2 ^ k) ((size + 4095) / 4096) addr ∧
          (∀ addr' < addr, ¬ m.Suits (2 ^ k) ((size + 4095) / 4096) addr') ∧
          Grants m m' ⟨addr / 4096, (size + 4095) / 4096⟩
      | (none, m') => m' = m := by
  have hcount : 0 < (size + 4095) / 4096 := by omega
  have hincreasing : (List.range' 0 ((m.totalFrames + max (2 ^ k / FRAME_SIZE) 1 - 1)
      / max (2 ^ k / FRAME_SIZE) 1) (max (2 ^ k / FRAME_SIZE) 1)).Pairwise (· < ·) :=
    List.pairwise_lt_range' _ (by omega)
  rw [allocAligned, frameCeil_eq hsize]
  generalize (size + 4095) / 4096 = count at hcount
  simp only [suits_iff hcount]
  generalize List.range' 0 ((m.totalFrames + max (2 ^ k / FRAME_SIZE) 1 - 1)
    / max (2 ^ k / FRAME_SIZE) 1) (max (2 ^ k / FRAME_SIZE) 1) = starts at hincreasing
  cases hfind : starts.find? fun start => (List.range' start count).all fun frame =>
      !(decide (frame ≥ m.totalFrames) || m.getBit frame) with
  | none =>
    have hnone : ∀ start ∈ starts, ¬ m.FreeRun start count := by
      intro start hmem hrun
      exact List.find?_eq_none.mp hfind start hmem (all_free_iff.mpr hrun)
    refine ⟨⟨fun h => absurd h (by simp), ?_⟩, rfl⟩
    rintro ⟨_, start, hmem, -, hrun⟩
    exact absurd hrun (hnone start hmem)
  | some start =>
    obtain ⟨hmem, hfree, hbefore⟩ := (find?_eq_some_of_increasing hincreasing).mp hfind
    have hrun := all_free_iff.mp hfree
    have hsuits : ∃ s ∈ starts, start * FRAME_SIZE = s * FRAME_SIZE ∧ m.FreeRun s count :=
      ⟨start, hmem, rfl, hrun⟩
    refine ⟨⟨fun _ => ⟨_, hsuits⟩, fun _ => rfl⟩, hsuits, ?_, ?_⟩
    · rintro _ hlt ⟨s, hs, rfl, hrun'⟩
      have hfalse := hbefore s hs (Nat.lt_of_mul_lt_mul_right hlt)
      rw [all_free_iff.mpr hrun'] at hfalse
      exact absurd hfalse (by simp)
    · rw [FRAME_SIZE, Nat.mul_div_cancel start (by decide)]
      exact grants_charge (freeRun_iff.mp hrun)

/-- Eight frames, of which 0 and 4 are set. -/
def twoSet : PhysicalMemoryManager := PhysicalMemoryManager.new 32768#64 fun _ => 0b10001#64

/-- Two frames at a multiple of two frames. -/
theorem twoSet_aligned :
    (twoSet.allocAligned 8192 5000).1 = some 8192 ∧
      ((twoSet.allocAligned (2 ^ 13) 5000).1.isSome ↔
        ∃ addr, twoSet.Suits (2 ^ 13) ((5000 + 4095) / 4096) addr) :=
  ⟨by decide, (allocAligned_lowest twoSet 13 (by decide) (by decide)).1⟩

/-! ## A range that is validated -/

/-- All frames of the range are clear. -/
def validateRange (m : PhysicalMemoryManager) (base size : ℕ) : Bool :=
  let startFrame := base / FRAME_SIZE
  let endFrame := frameCeil (base + size)
  if endFrame > m.totalFrames then false
  else !(List.range' startFrame (endFrame - startFrame)).any m.getBit

/-- The range of `validate_range` is not empty, so that its frames all exist when its end does not
lie beyond the last one. -/
lemma validateRange_iff {base size : ℕ} (hsize : 1 ≤ size) (h : base + size + 4095 < 2 ^ 64) :
    m.validateRange base size = true ↔
      m.FreeRun (base / 4096) ((base + size + 4095) / 4096 - base / 4096) := by
  rw [validateRange, frameCeil_eq h, FRAME_SIZE]
  split_ifs with hend
  · simp only [false_iff]
    intro hrun
    have hlast := (hrun ((base + size + 4095) / 4096 - 1) (by omega) (by omega)).1
    omega
  · simp only [Bool.not_eq_true', List.any_eq_false, List.mem_range'_1, FreeRun, and_imp,
      Bool.not_eq_true]
    refine forall_congr' fun f => forall_congr' fun _ => forall_congr' fun hf => ?_
    have hlt : f < m.totalFrames := by omega
    rw [getBit_of_lt hlt]
    exact ⟨fun hclear => ⟨hlt, hclear⟩, fun hclear => hclear.2⟩

/-- **`validate_and_alloc` is all or nothing, and agrees with `validate_range`.** -/
theorem validateAndAlloc_iff_validateRange (m : PhysicalMemoryManager) {addr size : ℕ}
    (hsize : 1 ≤ size) (h : addr + size + 4095 < 2 ^ 64) :
    ((m.validateAndAlloc addr size).1 = true ↔ m.validateRange addr size = true) ∧
      match m.validateAndAlloc addr size with
      | (true, m') => Grants m m' ⟨addr / 4096, (addr + size + 4095) / 4096 - addr / 4096⟩
      | (false, m') => m' = m := by
  have hspec := m.validateAndAlloc_spec h
  have hresult : (m.validateAndAlloc addr size).1 = true ↔ m.validateRange addr size = true := by
    rw [validateRange_iff hsize h, validateAndAlloc, frameCeil_eq h, FRAME_SIZE]
    by_cases hrun : m.FreeRun (addr / 4096) ((addr + size + 4095) / 4096 - addr / 4096)
    · rw [if_neg fun h => any_taken_iff.mp h hrun]
      simp [hrun]
    · rw [if_pos (any_taken_iff.mpr hrun)]
      simp [hrun]
  refine ⟨hresult, ?_⟩
  rw [frameCeil_eq h, FRAME_SIZE] at hspec
  generalize m.validateAndAlloc addr size = result at hspec
  obtain ⟨_ | _, m'⟩ := result
  · exact hspec
  · exact hspec

/-- Frames 2 and 3, named by addresses inside them. -/
theorem twoSet_validated :
    (twoSet.validateAndAlloc 0x2fff 2).1 = true ∧
      ((twoSet.validateAndAlloc 0x2fff 2).1 = true ↔ twoSet.validateRange 0x2fff 2 = true) :=
  ⟨by decide, (validateAndAlloc_iff_validateRange twoSet (by decide) (by decide)).1⟩

/-! ## A range between two addresses -/

/-- The frames between two addresses. -/
def allocSpecificRange (m : PhysicalMemoryManager) (startAddr endAddr : ℕ) :
    Except Unit Unit × PhysicalMemoryManager :=
  let startFrame := startAddr / FRAME_SIZE
  let endFrame := frameCeil endAddr
  let frames := List.range' startFrame (endFrame - startFrame)
  if frames.any fun f => decide (f ≥ m.totalFrames) || m.getBit f then (.error (), m)
  else (.ok (), m.charge frames (BitVec.ofNat 64 endFrame - BitVec.ofNat 64 startFrame))

/-- The call fails and changes nothing, or it sets the frames of the range, all of them clear
before, and charges as many as it sets. -/
def ChargesRange (m : PhysicalMemoryManager) (startAddr endAddr : ℕ) : Prop :=
  match m.allocSpecificRange startAddr endAddr with
  | (.error (), m') => m' = m
  | (.ok (), m') =>
    Grants m m' ⟨startAddr / 4096, (endAddr + 4095) / 4096 - startAddr / 4096⟩

/-- Neither `end_addr + FRAME_SIZE - 1` nor, where the call comes to it, `end_frame - start_frame`
underflows. -/
def SubtractionsFit (m : PhysicalMemoryManager) (startAddr endAddr : ℕ) : Prop :=
  1 ≤ wrap (endAddr + FRAME_SIZE) ∧
    ((m.allocSpecificRange startAddr endAddr).1 = .ok () →
      startAddr / FRAME_SIZE ≤ frameCeil endAddr)

/-- The call fails when a frame of the range is taken or does not exist. -/
lemma allocSpecificRange_eq (startAddr : ℕ) {endAddr : ℕ} (hend : endAddr + 4095 < 2 ^ 64) :
    (m.FreeRun (startAddr / 4096) ((endAddr + 4095) / 4096 - startAddr / 4096) ∧
        m.allocSpecificRange startAddr endAddr
          = (.ok (), m.charge (List.range' (startAddr / 4096)
              ((endAddr + 4095) / 4096 - startAddr / 4096))
              (BitVec.ofNat 64 ((endAddr + 4095) / 4096) - BitVec.ofNat 64 (startAddr / 4096)))) ∨
      ¬ m.FreeRun (startAddr / 4096) ((endAddr + 4095) / 4096 - startAddr / 4096) ∧
        m.allocSpecificRange startAddr endAddr = (.error (), m) := by
  rw [allocSpecificRange, frameCeil_eq hend, FRAME_SIZE]
  by_cases hrun : m.FreeRun (startAddr / 4096) ((endAddr + 4095) / 4096 - startAddr / 4096)
  · exact .inl ⟨hrun, if_neg fun h => any_taken_iff.mp h hrun⟩
  · exact .inr ⟨hrun, if_pos (any_taken_iff.mpr hrun)⟩

/-- Nothing is to be set, and the call succeeds. -/
lemma freeRun_empty (m : PhysicalMemoryManager) (start : ℕ) : m.FreeRun start 0 := by
  intro f hle hlt
  omega

/-- What is charged is right as long as the end does not lie before the start. -/
lemma chargesRange_iff {startAddr endAddr : ℕ} (hstart : startAddr < 2 ^ 64)
    (hend : endAddr + 4095 < 2 ^ 64) :
    m.ChargesRange startAddr endAddr ↔ startAddr / 4096 ≤ (endAddr + 4095) / 4096 := by
  rw [ChargesRange]
  rcases Nat.lt_or_ge ((endAddr + 4095) / 4096) (startAddr / 4096) with hlt | hle
  · have hzero : (endAddr + 4095) / 4096 - startAddr / 4096 = 0 := by omega
    rcases m.allocSpecificRange_eq startAddr hend with ⟨-, hresult⟩ | ⟨htaken, -⟩
    · rw [hresult, hzero]
      simp only
      refine ⟨fun hgrant => ?_, fun hle => absurd hle (by omega)⟩
      -- the difference is not zero, although no frame was set
      have hused := hgrant.used
      simp only [charge, BitVec.add_right_inj] at hused
      have := congrArg BitVec.toNat hused
      simp only [BitVec.toNat_sub, BitVec.toNat_ofNat] at this
      omega
    · rw [hzero] at htaken
      exact absurd (m.freeRun_empty _) htaken
  · refine ⟨fun _ => hle, fun _ => ?_⟩
    have hcount : BitVec.ofNat 64 ((endAddr + 4095) / 4096) - BitVec.ofNat 64 (startAddr / 4096)
        = BitVec.ofNat 64 ((endAddr + 4095) / 4096 - startAddr / 4096) :=
      BitVec.ofNat_sub_ofNat_of_le _ _ (by omega) hle
    rcases m.allocSpecificRange_eq startAddr hend with
      ⟨hrun, hresult⟩ | ⟨-, hresult⟩
    · rw [hresult, hcount]
      exact grants_charge (freeRun_iff.mp hrun)
    · rw [hresult]

/-- **When a range is charged as it should be.**  `alloc_specific_range` fails without a trace, or
sets the frames of the range and charges exactly those, if and only if the end of the range does not
lie before its start.  With the underflows of its subtractions counted as well, the end may not be
the last multiple of the frame size either. -/
theorem allocSpecificRange_exact_iff (m : PhysicalMemoryManager) {startAddr endAddr : ℕ}
    (hstart : startAddr < 2 ^ 64) (hend : endAddr + 4095 < 2 ^ 64) :
    (m.ChargesRange startAddr endAddr ∧ m.SubtractionsFit startAddr endAddr ↔
        startAddr / 4096 ≤ (endAddr + 4095) / 4096 ∧ endAddr + 4096 ≠ 2 ^ 64) ∧
      (m.ChargesRange startAddr endAddr ↔ startAddr / 4096 ≤ (endAddr + 4095) / 4096) := by
  have hcharges := chargesRange_iff (m := m) hstart hend
  refine ⟨?_, hcharges⟩
  rw [hcharges, SubtractionsFit, frameCeil_eq hend, FRAME_SIZE, wrap]
  constructor
  · rintro ⟨hle, hround, -⟩
    exact ⟨hle, by omega⟩
  · rintro ⟨hle, hround⟩
    exact ⟨hle, by omega, fun _ => hle⟩

/-- Frames 1 to 3. -/
theorem twoSet_range : twoSet.ChargesRange 0x1000 0x4000 ∧ twoSet.SubtractionsFit 0x1000 0x4000 :=
  (allocSpecificRange_exact_iff twoSet (by decide) (by decide)).1.mpr (by decide)

/-- From frame 2 down to address 0: the call succeeds, sets nothing and subtracts two from
`used_frames`. -/
theorem twoSet_reversed :
    (twoSet.allocSpecificRange 0x2000 0).1 = .ok () ∧
      (twoSet.allocSpecificRange 0x2000 0).2.taken = twoSet.taken ∧
      (twoSet.allocSpecificRange 0x2000 0).2.usedFrames = twoSet.usedFrames - 2#64 ∧
      ¬ twoSet.ChargesRange 0x2000 0 ∧ ¬ twoSet.SubtractionsFit 0x2000 0 := by
  refine ⟨by rfl, by decide +kernel, by decide, fun h => ?_, fun h => ?_⟩
  · exact absurd ((chargesRange_iff (by decide) (by decide)).mp h) (by decide)
  · exact absurd (h.2 rfl) (by decide)

end PhysicalMemoryManager

end Masika
