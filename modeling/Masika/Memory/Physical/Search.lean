import Masika.Memory.Physical.Allocation

/-!
# Which frames the manager picks

`alloc_frame` scans words from a hint and falls back to a second scan; `alloc_frames_contiguous` is
a nested first-fit search, and `find_largest_free_block` a single pass that measures runs.  This
file says which frames each of them arrives at.

* `allocFrame_plainSearch`: the word scan and the fallback together are a plain search, for every
  bitmap and every hint.
* `allocFramesContiguous_iff_largest`: the first-fit search and the single pass agree on which
  requests there is room for.
* `contiguous_safe_iff`: which requests are safe.  The search bound `total_frames - count` wraps for
  a request that is larger than memory, and `get_bit` answers "clear" for frames that do not exist,
  so that such a request is **granted** (`allocFramesContiguous_oversized`).
-/

namespace Masika

namespace PhysicalMemoryManager

/-- The single pass of `find_largest_free_block`. -/
def findLargestFreeBlock (m : PhysicalMemoryManager) : ℕ :=
  longestRun (fun i => !m.getBit i) m.totalFrames

variable {m m' : PhysicalMemoryManager}

/-! ## One frame -/

/-- Frame `f` is taken: its bit, one counter and the hint change. -/
structure Takes (m m' : PhysicalMemoryManager) (f : ℕ) : Prop where
  total : m'.totalFrames = m.totalFrames
  bits : ∀ g, m'.bit g = (m.bit g || decide (g = f))
  used : m'.usedFrames = m.usedFrames + 1#64
  reserved : m'.reservedFrames = m.reservedFrames
  hint : m'.maxReservedFrame = max m.maxReservedFrame f

lemma takes_takeFrame {f : ℕ} (h : m.PlainSearch f) : Takes m (m.takeFrame f) f := by
  have hgrant := grants_takeFrame h.clear.1 h.clear.2
  refine ⟨hgrant.total, fun g => ?_, hgrant.used, hgrant.reserved, ?_⟩
  · rw [hgrant.bits]
    congr 1
    rw [decide_eq_decide, Extent.mem_frames]
    simp only
    omega
  · rw [takeFrame]
    simp only
    split_ifs <;> omega

/-- `alloc_frame` fails exactly when every frame is set. -/
lemma allocFrame_eq_none : m.allocFrame.1 = none ↔ ∀ g < m.totalFrames, m.bit g = true := by
  rcases m.allocFrame_cases with ⟨f, hresult, hsearch⟩ | ⟨hresult, hfull⟩
  · rw [hresult]
    refine ⟨fun h => absurd h (by simp), fun hfull => ?_⟩
    have hclear := hsearch.clear
    rw [hfull f hclear.1] at hclear
    exact absurd hclear.2 (by simp)
  · rw [hresult]
    exact ⟨fun _ => hfull, fun _ => rfl⟩

/-- **`alloc_frame` is the plain search.**  It fails exactly when every frame is set, and then
changes nothing; otherwise it takes the frame that a search from the hint, and from frame 0 after
that, comes to first.  Bits beyond the last frame and hints beyond it make no difference. -/
theorem allocFrame_plainSearch (m : PhysicalMemoryManager) :
    (m.allocFrame.1 = none ↔ ∀ g < m.totalFrames, m.bit g = true) ∧
      match m.allocFrame with
      | (some addr, m') => ∃ f, addr = 4096 * f ∧ m.PlainSearch f ∧ Takes m m' f
      | (none, m') => m' = m := by
  refine ⟨allocFrame_eq_none, ?_⟩
  rcases m.allocFrame_cases with ⟨f, hresult, hsearch⟩ | ⟨hresult, -⟩
  · rw [hresult]
    exact ⟨f, Nat.mul_comm f _, hsearch, takes_takeFrame hsearch⟩
  · rw [hresult]

/-! ## Several frames -/

/-- The report of `find_largest_free_block` is the size of the largest request there is room for. -/
lemma le_findLargestFreeBlock {count : ℕ} (hpos : 0 < count) :
    count ≤ m.findLargestFreeBlock ↔ ∃ s, m.FreeRun s count := by
  rw [findLargestFreeBlock, le_longestRun]
  refine exists_congr fun s => ⟨fun ⟨hfits, hrun⟩ f hs hf => ?_, fun hrun => ?_⟩
  · have hclear := hrun f hs hf
    rw [Bool.not_eq_true', getBit_of_lt (by omega)] at hclear
    exact ⟨by omega, hclear⟩
  · have hlast := (hrun (s + count - 1) (by omega) (by omega)).1
    refine ⟨by omega, fun f hs hf => ?_⟩
    simp only [getBit_of_lt (hrun f hs hf).1, (hrun f hs hf).2, Bool.not_false]

/-- One frame: there is room for it exactly when some frame is clear. -/
lemma allocFrame_isSome_iff : m.allocFrame.1.isSome ↔ 1 ≤ m.findLargestFreeBlock := by
  rw [le_findLargestFreeBlock Nat.one_pos, ← Option.ne_none_iff_isSome, ne_eq, allocFrame_eq_none]
  simp only [not_forall, Bool.not_eq_true]
  constructor
  · rintro ⟨f, hlt, hclear⟩
    refine ⟨f, fun g hle hg => ?_⟩
    obtain rfl : g = f := by omega
    exact ⟨hlt, hclear⟩
  · rintro ⟨f, hrun⟩
    obtain ⟨hlt, hclear⟩ := hrun f le_rfl (by omega)
    exact ⟨f, hlt, hclear⟩

/-- **First fit and the largest-block report agree.**  A request for two frames or more that is not
larger than memory is granted exactly when the report is at least as large; then it is granted at
the lowest start, and exactly those bits are set.  Otherwise nothing changes.  A request for one
frame is granted exactly when the report is not zero. -/
theorem allocFramesContiguous_iff_largest (m : PhysicalMemoryManager) :
    (∀ count, 2 ≤ count → count ≤ m.totalFrames →
      ((m.allocFramesContiguous count).1.isSome ↔ count ≤ m.findLargestFreeBlock) ∧
        match m.allocFramesContiguous count with
        | (some addr, m') => ∃ s, addr = 4096 * s ∧ m.FreeRun s count ∧
            (∀ s' < s, ¬ m.FreeRun s' count) ∧
            ∀ f, m'.bit f = (m.bit f || decide (s ≤ f ∧ f < s + count))
        | (none, m') => m' = m) ∧
      ((m.allocFramesContiguous 1).1.isSome ↔ 1 ≤ m.findLargestFreeBlock) := by
  refine ⟨fun count htwo hle => ?_, allocFrame_isSome_iff⟩
  have hlowest := m.allocFramesContiguous_lowest htwo hle
  rw [le_findLargestFreeBlock (show 0 < count by omega)]
  cases hresult : m.allocFramesContiguous count with
  | mk result m' =>
    rw [hresult] at hlowest
    cases result with
    | none =>
      exact ⟨⟨fun h => absurd h (by simp), fun ⟨s, hrun⟩ => absurd hrun (hlowest.2 s)⟩,
        hlowest.1⟩
    | some addr =>
      obtain ⟨s, haddr, hgrant, hbefore⟩ := hlowest
      have hrun : m.FreeRun s count := freeRun_iff.mpr hgrant.clear
      refine ⟨⟨fun _ => ⟨s, hrun⟩, fun _ => rfl⟩, s, ?_, hrun, hbefore, fun f => ?_⟩
      · rw [haddr, Nat.mul_comm, FRAME_SIZE]
      · rw [hgrant.bits]
        congr 1
        rw [decide_eq_decide, Extent.mem_frames]

/-- Eight frames, of which 0, 3 and 7 are set. -/
def spottedMemory : PhysicalMemoryManager :=
  PhysicalMemoryManager.new 32768#64 fun _ => 0b10001001#64

/-- Three frames are found. -/
theorem spottedMemory_three :
    (spottedMemory.allocFramesContiguous 3).1 = some 16384 ∧
      ((spottedMemory.allocFramesContiguous 3).1.isSome ↔
        3 ≤ spottedMemory.findLargestFreeBlock) :=
  ⟨by decide, ((allocFramesContiguous_iff_largest spottedMemory).1 3 (by decide) (by decide)).1⟩

/-! ## Requests of any size -/

/-- `self.total_frames - count` does not underflow, if it is computed at all. -/
def BoundFits (m : PhysicalMemoryManager) (count : ℕ) : Prop :=
  count ≠ 0 → count ≠ 1 → count ≤ m.totalFrames

/-- What the call returns, if anything, is the address of `count` frames that exist and were
clear. -/
def ReturnsFree (m : PhysicalMemoryManager) (count : ℕ) : Prop :=
  ∀ addr, (m.allocFramesContiguous count).1 = some addr → m.FreeRun (addr / 4096) count

lemma returnsFree_of_le {count : ℕ} (h : count ≤ 1 ∨ count ≤ m.totalFrames) :
    m.ReturnsFree count := by
  intro addr haddr
  have hspec := m.allocFramesContiguous_spec h
  rw [GrantsOrFails, haddr] at hspec
  obtain ⟨s, rfl, hgrant⟩ := hspec
  rw [FRAME_SIZE, Nat.mul_div_cancel s (by decide)]
  exact freeRun_iff.mpr hgrant.clear

/-- More frames than there are cannot all exist. -/
lemma not_freeRun_of_lt {s count : ℕ} (h : m.totalFrames < count) : ¬ m.FreeRun s count := by
  intro hrun
  have := (hrun (s + count - 1) (by omega) (by omega)).1
  omega

/-- **A request that is larger than memory is granted**: the frames from `total_frames` on all look
clear, and the search bound has wrapped far beyond them. -/
theorem allocFramesContiguous_oversized (m : PhysicalMemoryManager) {count : ℕ} (htwo : 2 ≤ count)
    (hlarge : m.totalFrames < count) (hfits : m.totalFrames + count ≤ 2 ^ 64) :
    (m.allocFramesContiguous count).1.isSome := by
  have hbound : m.totalFrames ≤ wrapSub m.totalFrames count := by
    rw [wrapSub, wrap, wrap]
    omega
  rw [allocFramesContiguous, if_neg (by omega), if_neg (by omega)]
  simp only
  cases hfind : (List.range (wrapSub m.totalFrames count + 1)).find? fun start =>
      ((List.range count).map fun offset => wrap (start + offset)).all
        fun frame => !m.getBit frame with
  | some start => rfl
  | none =>
    refine absurd ?_ (List.find?_eq_none.mp hfind m.totalFrames (List.mem_range.mpr (by omega)))
    rw [map_wrap_range hfits, List.all_eq_true]
    intro f hf
    have := (List.mem_range'_1.mp hf).1
    rw [getBit, if_pos this]
    rfl

/-- **Which requests are safe.**  The search of `alloc_frames_contiguous` computes no underflow and
returns frames that exist and were clear exactly for requests of at most one frame, or of at most as
many frames as there are.  Unless `count` is within `total_frames` of the end of the address space,
any other request also returns frames that do not exist. -/
theorem contiguous_safe_iff (m : PhysicalMemoryManager) (count : ℕ) :
    (m.BoundFits count ∧ m.ReturnsFree count ↔ count ≤ 1 ∨ count ≤ m.totalFrames) ∧
      (m.totalFrames + count ≤ 2 ^ 64 →
        (m.ReturnsFree count ↔ count ≤ 1 ∨ count ≤ m.totalFrames)) := by
  refine ⟨⟨fun ⟨hno, _⟩ => ?_, fun h => ⟨fun h0 h1 => by omega, returnsFree_of_le h⟩⟩,
    fun hfits => ⟨fun hfree => ?_, returnsFree_of_le⟩⟩
  · rw [BoundFits] at hno
    omega
  · by_contra hlarge
    rw [not_or, not_le, not_le] at hlarge
    obtain ⟨addr, haddr⟩ := Option.isSome_iff_exists.mp
      (m.allocFramesContiguous_oversized (by omega) hlarge.2 hfits)
    exact not_freeRun_of_lt hlarge.2 (hfree addr haddr)

/-- Where no frame is set, the first start is taken, whatever the size of the request. -/
lemma allocFramesContiguous_of_clear (count : ℕ) (htwo : 2 ≤ count)
    (hclear : ∀ f, m.getBit f = false) : (m.allocFramesContiguous count).1 = some 0 := by
  have hfind : (List.range (wrapSub m.totalFrames count + 1)).find? (fun start =>
      ((List.range count).map fun offset => wrap (start + offset)).all
        fun frame => !m.getBit frame) = some 0 := by
    refine List.find?_range_eq_some.mpr ⟨?_, List.mem_range.mpr (Nat.succ_pos _), ?_⟩
    · simp [hclear]
    · intro j hj
      exact absurd hj (Nat.not_lt_zero j)
  rw [allocFramesContiguous, if_neg (by omega), if_neg (by omega)]
  simp only [hfind, Nat.zero_mul]
  rfl

/-- Eight frames, all of them clear. -/
def emptyMemory : PhysicalMemoryManager := PhysicalMemoryManager.new 32768#64 fun _ => 0#64

lemma getBit_emptyMemory (f : ℕ) : emptyMemory.getBit f = false := by
  rw [getBit]
  split_ifs
  · rfl
  · simp [getBit_eq, emptyMemory, PhysicalMemoryManager.new]

/-- Nine frames of eight: the call returns address 0, and frame 8 does not exist. -/
theorem emptyMemory_nine :
    (emptyMemory.allocFramesContiguous 9).1 = some 0 ∧ ¬ emptyMemory.BoundFits 9 ∧
      ¬ emptyMemory.ReturnsFree 9 := by
  have hfirst := allocFramesContiguous_of_clear 9 (by decide) getBit_emptyMemory
  have htotal : emptyMemory.totalFrames = 8 := rfl
  refine ⟨hfirst, fun hno => ?_, fun hfree => ?_⟩
  · have := hno (by decide) (by decide)
    omega
  · have := (hfree 0 hfirst 8 (by decide) (by decide)).1
    omega

end PhysicalMemoryManager

end Masika
