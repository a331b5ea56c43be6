import Masika.Core.Loops
import Masika.Memory.Physical.Manager

/-!
# What the manager grants and takes back

One specification per function of `PhysicalMemoryManager`, in terms of three relations between the
manager before and after: `Grants` for the allocations, `Drops` for the releases, `Reserves` for
reservations.  Each of them speaks about *every* bit of the bitmap, so that "nothing else changes"
is part of the specification, and about both counters.
-/

namespace Masika

namespace PhysicalMemoryManager

/-! ## The three relations -/

/-- The frames of `e` exist, were clear and are set now; they are charged to `used_frames`. -/
structure Grants (m m' : PhysicalMemoryManager) (e : Extent) : Prop where
  total : m'.totalFrames = m.totalFrames
  clear : ∀ f ∈ e.frames, f < m.totalFrames ∧ m.bit f = false
  bits : ∀ f, m'.bit f = (m.bit f || decide (f ∈ e.frames))
  used : m'.usedFrames = m.usedFrames + BitVec.ofNat 64 e.count
  reserved : m'.reservedFrames = m.reservedFrames

/-- The frames of `S` that existed and were set are clear now; each is taken off `used_frames`. -/
structure Drops (m m' : PhysicalMemoryManager) (S : Finset ℕ) : Prop where
  total : m'.totalFrames = m.totalFrames
  bits : ∀ f, m'.bit f = (m.bit f && !decide (f ∈ S ∧ f < m.totalFrames))
  used : m'.usedFrames = m.usedFrames - BitVec.ofNat 64 (m.taken ∩ S).card
  reserved : m'.reservedFrames = m.reservedFrames

/-- Frame `f` existed, was clear and is set now; it is charged to `reserved_frames`. -/
structure Reserves (m m' : PhysicalMemoryManager) (f : ℕ) : Prop where
  total : m'.totalFrames = m.totalFrames
  clear : f < m.totalFrames ∧ m.bit f = false
  bits : ∀ g, m'.bit g = (m.bit g || decide (g = f))
  used : m'.usedFrames = m.usedFrames
  reserved : m'.reservedFrames = m.reservedFrames + 1#64

variable {m m' : PhysicalMemoryManager}

/-- What granting and reserving do to the bits. -/
structure Sets (m m' : PhysicalMemoryManager) (F : Finset ℕ) : Prop where
  total : m'.totalFrames = m.totalFrames
  clear : ∀ f ∈ F, f < m.totalFrames ∧ m.bit f = false
  bits : ∀ f, m'.bit f = (m.bit f || decide (f ∈ F))

lemma Grants.sets {e : Extent} (h : Grants m m' e) : Sets m m' e.frames :=
  ⟨h.total, h.clear, h.bits⟩

lemma Reserves.sets {f : ℕ} (h : Reserves m m' f) : Sets m m' {f} := by
  refine ⟨h.total, fun g hg => ?_, fun g => ?_⟩
  · rw [Finset.mem_singleton.mp hg]
    exact h.clear
  · simp only [h.bits, Finset.mem_singleton]

lemma Sets.taken {F : Finset ℕ} (h : Sets m m' F) :
    m'.taken = m.taken ∪ F ∧ Disjoint F m.taken := by
  constructor
  · ext f
    simp only [mem_taken, Finset.mem_union, h.total, h.bits, Bool.or_eq_true, decide_eq_true_eq]
    constructor
    · rintro ⟨hf, hb | hb⟩
      · exact Or.inl ⟨hf, hb⟩
      · exact Or.inr hb
    · rintro (⟨hf, hb⟩ | hb)
      · exact ⟨hf, Or.inl hb⟩
      · exact ⟨(h.clear f hb).1, Or.inr hb⟩
  · rw [Finset.disjoint_left]
    intro f hf hft
    rw [mem_taken, (h.clear f hf).2] at hft
    exact absurd hft.2 (by simp)

lemma Drops.taken {S : Finset ℕ} (h : Drops m m' S) : m'.taken = m.taken \ S := by
  ext f
  simp only [mem_taken, Finset.mem_sdiff, h.total, h.bits, Bool.and_eq_true, Bool.not_eq_true',
    decide_eq_false_iff_not]
  tauto

/-- `reset_all_bits` clears whole words, so that also the bits that stand for no frame are zero. -/
lemma bit_resetAllBits {m : PhysicalMemoryManager} {f : ℕ}
    (hf : f / 64 < (m.totalFrames + 63) / 64) : m.resetAllBits.bit f = false := by
  rw [bit, getBit_eq, resetAllBits]
  simp only [if_pos hf, BitVec.getLsbD_zero]

lemma taken_resetAllBits (m : PhysicalMemoryManager) : m.resetAllBits.taken = ∅ := by
  ext f
  simp only [mem_taken, Finset.notMem_empty, iff_false, not_and, Bool.not_eq_true]
  intro hf
  have hlt : f < m.totalFrames := hf
  exact bit_resetAllBits (by omega)

/-! ## Charging a run of frames -/

lemma bit_foldl_setBit (frames : List ℕ) (m : PhysicalMemoryManager) (f : ℕ) :
    (frames.foldl setBit m).bit f = (m.bit f || decide (f ∈ frames ∧ f < m.totalFrames)) := by
  rw [foldl_setBit_eq, bit, getBit_foldl_setBit, bit]
  simp only [List.mem_filter, decide_eq_true_eq]

lemma bit_foldl_clearBit (frames : List ℕ) (m : PhysicalMemoryManager) (f : ℕ) :
    (frames.foldl clearBit m).bit f = (m.bit f && !decide (f ∈ frames ∧ f < m.totalFrames)) := by
  rw [foldl_clearBit_eq, bit, getBit_foldl_clearBit, bit]
  simp only [List.mem_filter, decide_eq_true_eq]

/-- All frames of an extent that exist and are clear can be charged. -/
lemma grants_charge {e : Extent} (h : ∀ f ∈ e.frames, f < m.totalFrames ∧ m.bit f = false) :
    Grants m (m.charge (List.range' e.start e.count) (BitVec.ofNat 64 e.count)) e where
  total := by rw [charge, foldl_setBit_eq]
  clear := h
  bits f := by
    have hbit : (m.charge (List.range' e.start e.count) (BitVec.ofNat 64 e.count)).bit f
        = ((List.range' e.start e.count).foldl setBit m).bit f := rfl
    rw [hbit, bit_foldl_setBit]
    congr 1
    rw [decide_eq_decide, List.mem_range'_1, ← Extent.mem_frames]
    exact ⟨fun hf => hf.1, fun hf => ⟨hf, (h f hf).1⟩⟩
  used := rfl
  reserved := by rw [charge, foldl_setBit_eq]

/-- A single frame, as `alloc_frame` charges it. -/
lemma grants_takeFrame {f : ℕ} (hf : f < m.totalFrames) (hclear : m.bit f = false) :
    Grants m (m.takeFrame f) ⟨f, 1⟩ := by
  have hall : ∀ g ∈ (⟨f, 1⟩ : Extent).frames, g < m.totalFrames ∧ m.bit g = false := by
    intro g hg
    obtain ⟨hle, hlt⟩ := Extent.mem_frames.mp hg
    obtain rfl : g = f := by simp only at hle hlt; omega
    exact ⟨hf, hclear⟩
  have hgrant := grants_charge hall
  exact ⟨hgrant.total, hall, hgrant.bits, rfl, hgrant.reserved⟩

/-! ## The word scan finds the first clear frame -/

/-- What the body of the scan says about the frames of one word. -/
lemma scanWord_eq_some {start wordIdx f : ℕ} (hw : start >>> 6 ≤ wordIdx)
    (h : (if m.maskedWord start wordIdx ≠ 0#64 then
      if (wordIdx <<< 6) + (m.maskedWord start wordIdx).ctz.toNat < m.totalFrames then
        some ((wordIdx <<< 6) + (m.maskedWord start wordIdx).ctz.toNat) else none
      else none) = some f) :
    start ≤ f ∧ f < m.totalFrames ∧ m.bit f = false ∧ f / 64 = wordIdx ∧
      ∀ g, start ≤ g → g / 64 = wordIdx → g < f → m.bit g = true := by
  have hshl : wordIdx <<< 6 = wordIdx * 64 := Nat.shiftLeft_eq wordIdx 6
  split_ifs at h with hne hlt
  obtain ⟨h64, hclear, hstart, hbelow⟩ := maskedWord_lowest m hw hne
  rw [Option.some.injEq] at h
  subst h
  refine ⟨hstart, hlt, hclear, by omega, fun g hg hword hgf => ?_⟩
  have hsplit : (wordIdx <<< 6) + (g - wordIdx * 64) = g := by omega
  have := hbelow (g - wordIdx * 64) (by omega) (by omega)
  rwa [hsplit] at this

lemma scanWord_eq_none {start wordIdx : ℕ} (hw : start >>> 6 ≤ wordIdx)
    (h : (if m.maskedWord start wordIdx ≠ 0#64 then
      if (wordIdx <<< 6) + (m.maskedWord start wordIdx).ctz.toNat < m.totalFrames then
        some ((wordIdx <<< 6) + (m.maskedWord start wordIdx).ctz.toNat) else none
      else none) = none) {g : ℕ} (hg : start ≤ g) (hword : g / 64 = wordIdx)
    (hlt : g < m.totalFrames) : m.bit g = true := by
  have hshl : wordIdx <<< 6 = wordIdx * 64 := Nat.shiftLeft_eq wordIdx 6
  have hsplit : (wordIdx <<< 6) + (g - wordIdx * 64) = g := by omega
  split_ifs at h with hzero hout
  · obtain ⟨h64, -, -, hbelow⟩ := maskedWord_lowest m hw hzero
    -- the lowest clear frame of the word lies beyond the last frame, hence above `g`
    have := hbelow (g - wordIdx * 64) (by omega) (by omega)
    rwa [hsplit] at this
  · have hbit := getLsbD_maskedWord m hw (k := g - wordIdx * 64) (by omega)
    rw [not_not.mp hzero, hsplit, decide_eq_true hg, BitVec.getLsbD_zero, Bool.and_true] at hbit
    rw [← Bool.not_eq_false', ← hbit]

/-- **`find_first_free_frame_from` finds the lowest clear frame**, wherever the search starts and
whatever the bits beyond the last frame are. -/
theorem findFirstFreeFrameFrom_spec (m : PhysicalMemoryManager) (start : ℕ) :
    match m.findFirstFreeFrameFrom start with
    | some f => m.FirstFree start f
    | none => ∀ g, start ≤ g → g < m.totalFrames → m.bit g = true := by
  have hs6 : start >>> 6 = start / 64 := shiftRight_six start
  cases h : m.findFirstFreeFrameFrom start with
  | some f =>
    obtain ⟨i, hle, -, hi, hbefore⟩ := exists_of_findSome?_range' h
    obtain ⟨hstart, hlt, hclear, hword, hbelow⟩ := scanWord_eq_some hle hi
    refine ⟨hstart, hlt, hclear, fun g hg hgf => ?_⟩
    by_cases hsame : g / 64 = i
    · exact hbelow g hg hsame hgf
    · have hj : start >>> 6 ≤ g / 64 := by omega
      exact scanWord_eq_none hj (hbefore (g / 64) hj (by omega)) hg rfl (by omega)
  | none =>
    intro g hg hlt
    have hj : start >>> 6 ≤ g / 64 := by omega
    have hwords : (m.totalFrames + 63) >>> 6 = (m.totalFrames + 63) / 64 := shiftRight_six _
    have hbody := findSome?_range'_eq_none.mp h (g / 64) hj (by omega)
    exact scanWord_eq_none hj hbody hg rfl hlt

/-! ## Allocations -/

/-- An allocation that fails and changes nothing, or grants `count` frames at the address it
returns. -/
def GrantsOrFails (m : PhysicalMemoryManager) (count : ℕ)
    (result : Option ℕ × PhysicalMemoryManager) : Prop :=
  match result.1 with
  | none => result.2 = m
  | some addr => ∃ start, addr = start * FRAME_SIZE ∧ Grants m result.2 ⟨start, count⟩

/-- The frame that a plain search finds: the lowest clear one from the hint on or, if all of those
are set, the lowest clear one. -/
def PlainSearch (m : PhysicalMemoryManager) (f : ℕ) : Prop :=
  m.FirstFree m.maxReservedFrame f ∨
    (∀ g, m.maxReservedFrame ≤ g → g < m.totalFrames → m.bit g = true) ∧ m.FirstFree 0 f

lemma PlainSearch.clear {f : ℕ} (h : m.PlainSearch f) : f < m.totalFrames ∧ m.bit f = false := by
  rcases h with h | ⟨-, h⟩
  · exact ⟨h.2.1, h.2.2.1⟩
  · exact ⟨h.2.1, h.2.2.1⟩

/-- `alloc_frame` searches first, then takes. -/
lemma allocFrame_cases (m : PhysicalMemoryManager) :
    (∃ f, m.allocFrame = (some (f * FRAME_SIZE), m.takeFrame f) ∧ m.PlainSearch f) ∨
      m.allocFrame = (none, m) ∧ ∀ g < m.totalFrames, m.bit g = true := by
  have hscan := m.findFirstFreeFrameFrom_spec m.maxReservedFrame
  rw [allocFrame]
  cases h : m.findFirstFreeFrameFrom m.maxReservedFrame with
  | some f =>
    rw [h] at hscan
    exact .inl ⟨f, rfl, .inl hscan⟩
  | none =>
    rw [h] at hscan
    simp only
    cases hfind : (List.range m.totalFrames).find? fun frame => !m.getBit frame with
    | none =>
      refine .inr ⟨rfl, fun g hg => ?_⟩
      have hset := List.find?_eq_none.mp hfind g (List.mem_range.mpr hg)
      rwa [Bool.not_eq_true', Bool.not_eq_false, getBit_of_lt hg] at hset
    | some f =>
      obtain ⟨hclear, hmem, hbefore⟩ := List.find?_range_eq_some.mp hfind
      have hlt := List.mem_range.mp hmem
      rw [Bool.not_eq_true', getBit_of_lt hlt] at hclear
      refine .inl ⟨f, rfl, .inr ⟨hscan, Nat.zero_le f, hlt, hclear, fun g _ hg => ?_⟩⟩
      have hset := hbefore g hg
      rwa [Bool.not_not, getBit_of_lt (hg.trans hlt)] at hset

/-- `alloc_frame` grants a frame or fails. -/
theorem allocFrame_spec (m : PhysicalMemoryManager) : m.GrantsOrFails 1 m.allocFrame := by
  rcases m.allocFrame_cases with ⟨f, hresult, hsearch⟩ | ⟨hresult, -⟩
  · rw [hresult]
    exact ⟨f, rfl, grants_takeFrame hsearch.clear.1 hsearch.clear.2⟩
  · rw [hresult]
    rfl

/-- Frames `s .. s + count - 1` exist and are clear. -/
def FreeRun (m : PhysicalMemoryManager) (s count : ℕ) : Prop :=
  ∀ f, s ≤ f → f < s + count → f < m.totalFrames ∧ m.bit f = false

lemma freeRun_iff {s count : ℕ} :
    m.FreeRun s count ↔
      ∀ f ∈ (⟨s, count⟩ : Extent).frames, f < m.totalFrames ∧ m.bit f = false := by
  simp only [FreeRun, Extent.mem_frames, and_imp]

/-- The frames that `alloc_frames_contiguous` tries, when they do not leave 64 bits. -/
lemma map_wrap_range {start count : ℕ} (h : start + count ≤ 2 ^ 64) :
    (List.range count).map (fun offset => wrap (start + offset)) = List.range' start count := by
  rw [List.range'_eq_map_range]
  refine List.map_congr_left fun offset hoffset => ?_
  have := List.mem_range.mp hoffset
  exact wrap_of_lt (by omega)

/-- The inner loop of `alloc_frames_contiguous`, on frames that exist. -/
lemma all_clear_iff {start count : ℕ} (hfits : start + count ≤ m.totalFrames) :
    (((List.range count).map fun offset => wrap (start + offset)).all
      fun frame => !m.getBit frame) = true ↔ m.FreeRun start count := by
  have htotal := m.total_lt
  rw [map_wrap_range (by omega), List.all_eq_true]
  simp only [List.mem_range'_1, Bool.not_eq_true', and_imp]
  refine forall_congr' fun f => forall_congr' fun _ => forall_congr' fun hlt => ?_
  rw [getBit_of_lt (by omega)]
  exact ⟨fun hclear => ⟨by omega, hclear⟩, fun hclear => hclear.2⟩

/-- A request for two frames or more, but not for more frames than there are: it is granted at the
lowest start, or there is no room for it and nothing changes. -/
theorem allocFramesContiguous_lowest (m : PhysicalMemoryManager) {count : ℕ} (htwo : 2 ≤ count)
    (hle : count ≤ m.totalFrames) :
    match m.allocFramesContiguous count with
    | (some addr, m') => ∃ s, addr = s * FRAME_SIZE ∧ Grants m m' ⟨s, count⟩ ∧
        ∀ s' < s, ¬ m.FreeRun s' count
    | (none, m') => m' = m ∧ ∀ s, ¬ m.FreeRun s count := by
  have htotal := m.total_lt
  have hbound : wrapSub m.totalFrames count = m.totalFrames - count :=
    wrapSub_of_le hle (by omega)
  rw [allocFramesContiguous, if_neg (by omega), if_neg (by omega), hbound]
  simp only
  cases hfind : (List.range (m.totalFrames - count + 1)).find? fun start =>
      ((List.range count).map fun offset => wrap (start + offset)).all
        fun frame => !m.getBit frame with
  | none =>
    refine ⟨rfl, fun s hrun => ?_⟩
    -- the last frame of the run exists, so the search has tried its start
    have hlast := (hrun (s + count - 1) (by omega) (by omega)).1
    exact List.find?_eq_none.mp hfind s (List.mem_range.mpr (by omega))
      ((all_clear_iff (by omega)).mpr hrun)
  | some start =>
    obtain ⟨hfree, hmem, hbefore⟩ := List.find?_range_eq_some.mp hfind
    have hstart := List.mem_range.mp hmem
    have hrun := (all_clear_iff (by omega)).mp hfree
    have hgrant := grants_charge (freeRun_iff.mp hrun)
    have hframes : (List.range count).map (fun offset => wrap (start + offset))
        = List.range' start count := map_wrap_range (by omega)
    simp only [hframes]
    refine ⟨start, ?_, ⟨hgrant.total, hgrant.clear, hgrant.bits, rfl, hgrant.reserved⟩,
      fun s' hs' hrun' => ?_⟩
    · rw [FRAME_SIZE, wrap_of_lt (by omega)]
    · have hfalse := hbefore s' hs'
      rw [Bool.not_eq_true', Bool.eq_false_iff] at hfalse
      exact hfalse ((all_clear_iff (by omega)).mpr hrun')

/-- So does `alloc_frames_contiguous`, up to the size of memory. -/
theorem allocFramesContiguous_spec (m : PhysicalMemoryManager) {count : ℕ}
    (hcount : count ≤ 1 ∨ count ≤ m.totalFrames) :
    m.GrantsOrFails count (m.allocFramesContiguous count) := by
  by_cases htwo : 2 ≤ count
  · have hlowest := m.allocFramesContiguous_lowest htwo (by omega)
    rw [GrantsOrFails]
    cases hresult : m.allocFramesContiguous count with
    | mk result m' =>
      rw [hresult] at hlowest
      cases result with
      | none => exact hlowest.1
      | some addr =>
        obtain ⟨s, haddr, hgrant, -⟩ := hlowest
        exact ⟨s, haddr, hgrant⟩
  · rw [allocFramesContiguous]
    split_ifs with h0 h1
    · exact rfl
    · rw [h1]
      exact m.allocFrame_spec
    · omega

/-- A run of frames that passes the check `frame >= total_frames || get_bit(frame)`. -/
lemma run_clear {start count : ℕ}
    (h : ∀ f ∈ List.range' start count, (decide (f ≥ m.totalFrames) || m.getBit f) = false) :
    ∀ f ∈ (⟨start, count⟩ : Extent).frames, f < m.totalFrames ∧ m.bit f = false := by
  intro f hf
  have := h f (List.mem_range'_1.mpr (Extent.mem_frames.mp hf))
  rw [Bool.or_eq_false_iff, decide_eq_false_iff_not, not_le] at this
  exact ⟨this.1, by rw [← getBit_of_lt this.1]; exact this.2⟩

/-- So does `alloc_aligned`. -/
theorem allocAligned_spec (m : PhysicalMemoryManager) (align size : ℕ) :
    m.GrantsOrFails (frameCeil size) (m.allocAligned align size) := by
  rw [allocAligned]
  cases hfind : (List.range' 0 ((m.totalFrames + max (align / FRAME_SIZE) 1 - 1)
      / max (align / FRAME_SIZE) 1) (max (align / FRAME_SIZE) 1)).find? fun start =>
        (List.range' start (frameCeil size)).all fun frame =>
          !(decide (frame ≥ m.totalFrames) || m.getBit frame) with
  | none => rfl
  | some start =>
    have hfree := List.find?_some hfind
    simp only [List.all_eq_true, Bool.not_eq_true'] at hfree
    exact ⟨start, rfl, grants_charge (e := ⟨start, frameCeil size⟩) (run_clear hfree)⟩

/-- So does `alloc_specific_frame`. -/
theorem allocSpecificFrame_spec (m : PhysicalMemoryManager) (frame : ℕ) :
    match (m.allocSpecificFrame frame).1 with
    | .error () => (m.allocSpecificFrame frame).2 = m
    | .ok () => Grants m (m.allocSpecificFrame frame).2 ⟨frame, 1⟩ := by
  rw [allocSpecificFrame]
  split_ifs with h
  · rfl
  · rw [not_or, Bool.not_eq_true, not_le] at h
    refine grants_charge (e := ⟨frame, 1⟩) (run_clear fun f hf => ?_)
    obtain rfl : f = frame := by
      have := List.mem_range'_1.mp hf
      omega
    rw [h.2, Bool.or_false, decide_eq_false_iff_not, not_le]
    exact h.1

/-- So does `alloc_at`. -/
theorem allocAt_spec (m : PhysicalMemoryManager) (addr : ℕ) :
    match (m.allocAt addr).1 with
    | .error () => (m.allocAt addr).2 = m
    | .ok () => Grants m (m.allocAt addr).2 ⟨addr / FRAME_SIZE, 1⟩ :=
  m.allocSpecificFrame_spec (addr / FRAME_SIZE)

lemma frameCeil_eq {n : ℕ} (h : n + 4095 < 2 ^ 64) : frameCeil n = (n + 4095) / 4096 := by
  rw [frameCeil, FRAME_SIZE, wrap_of_lt (by omega)]
  rfl

/-- The end of a region lies at or after its beginning. -/
lemma div_le_frameCeil {base size : ℕ} (h : base + size + 4095 < 2 ^ 64) :
    base / FRAME_SIZE ≤ frameCeil (base + size) := by
  rw [frameCeil_eq h, FRAME_SIZE]
  omega

lemma regionCount_eq {base size : ℕ} (h : base + size + 4095 < 2 ^ 64) :
    regionCount base size = BitVec.ofNat 64 (frameCeil (base + size) - base / FRAME_SIZE) := by
  refine BitVec.ofNat_sub_ofNat_of_le _ _ ?_ (div_le_frameCeil h)
  rw [FRAME_SIZE]
  omega

/-- So does `validate_and_alloc`, if the sum does not wrap. -/
theorem validateAndAlloc_spec (m : PhysicalMemoryManager) {addr size : ℕ}
    (h : addr + size + 4095 < 2 ^ 64) :
    match (m.validateAndAlloc addr size).1 with
    | false => (m.validateAndAlloc addr size).2 = m
    | true => Grants m (m.validateAndAlloc addr size).2
        ⟨addr / FRAME_SIZE, frameCeil (addr + size) - addr / FRAME_SIZE⟩ := by
  have hcount := regionCount_eq h
  rw [regionCount] at hcount
  rw [validateAndAlloc]
  split_ifs with hany
  · rfl
  · rw [Bool.not_eq_true, List.any_eq_false] at hany
    simp only [Bool.not_eq_true] at hany
    rw [hcount]
    exact grants_charge (e := ⟨addr / FRAME_SIZE, frameCeil (addr + size) - addr / FRAME_SIZE⟩)
      (run_clear hany)

/-! ## Releases and reservations -/

lemma drops_dropFrame (m : PhysicalMemoryManager) (f : ℕ) : Drops m (m.dropFrame f) {f} := by
  rw [dropFrame]
  split_ifs with h
  · have htaken : f ∈ m.taken := getBit_eq_true.mp h.2
    have hinter : m.taken ∩ {f} = {f} := Finset.inter_singleton_of_mem htaken
    refine ⟨by rw [clearBit]; split_ifs <;> rfl, fun g => ?_, by rw [hinter]; rfl,
      by rw [clearBit]; split_ifs <;> rfl⟩
    have hclear := bit_foldl_clearBit [f] m g
    rw [List.foldl_cons, List.foldl_nil] at hclear
    have hsame : ({ m.clearBit f with usedFrames := m.usedFrames - 1#64 } :
        PhysicalMemoryManager).bit g = (m.clearBit f).bit g := rfl
    rw [hsame, hclear]
    simp only [List.mem_singleton, Finset.mem_singleton]
  · have hnot : f ∉ m.taken := fun hf => h ⟨(mem_taken.mp hf).1, getBit_eq_true.mpr hf⟩
    have hinter : m.taken ∩ {f} = ∅ := Finset.inter_singleton_of_notMem hnot
    refine ⟨rfl, fun g => ?_, by rw [hinter]; simp, rfl⟩
    rw [mem_taken] at hnot
    by_cases hg : g = f
    · subst hg
      cases hb : m.bit g with
      | false => rfl
      | true =>
        have : ¬ g < m.totalFrames := fun hlt => hnot ⟨hlt, hb⟩
        simp [this]
    · simp [hg]

/-- Releases one after another. -/
lemma Drops.trans {m₁ m₂ m₃ : PhysicalMemoryManager} {S T : Finset ℕ} (h₁ : Drops m₁ m₂ S)
    (h₂ : Drops m₂ m₃ T) : Drops m₁ m₃ (S ∪ T) where
  total := h₂.total.trans h₁.total
  bits f := by
    rw [h₂.bits, h₁.bits, h₁.total, Bool.and_assoc, ← Bool.not_or, ← Bool.decide_or]
    congr 2
    rw [decide_eq_decide, Finset.mem_union]
    tauto
  used := by
    have hsplit : m₁.taken ∩ (S ∪ T) = (m₁.taken ∩ S) ∪ (m₂.taken ∩ T) := by
      rw [h₁.taken]
      ext f
      simp only [Finset.mem_inter, Finset.mem_union, Finset.mem_sdiff]
      tauto
    have hdisj : Disjoint (m₁.taken ∩ S) (m₂.taken ∩ T) := by
      rw [h₁.taken, Finset.disjoint_left]
      intro f hf hf'
      simp only [Finset.mem_inter, Finset.mem_sdiff] at hf hf'
      exact hf'.1.2 hf.2
    rw [h₂.used, h₁.used, hsplit, Finset.card_union_of_disjoint hdisj, BitVec.ofNat_add,
      BitVec.sub_sub]
  reserved := h₂.reserved.trans h₁.reserved

lemma drops_foldl_dropFrame (frames : List ℕ) (m : PhysicalMemoryManager) :
    Drops m (frames.foldl dropFrame m) frames.toFinset := by
  induction frames generalizing m with
  | nil => exact ⟨rfl, by simp, by simp, rfl⟩
  | cons f frames ih =>
    have hstep := (drops_dropFrame m f).trans (ih (m.dropFrame f))
    rwa [List.foldl_cons, List.toFinset_cons, Finset.insert_eq]

/-- `free_frame` drops a frame. -/
theorem freeFrame_spec (m : PhysicalMemoryManager) (addr : ℕ) :
    Drops m (m.freeFrame addr) {addr / FRAME_SIZE} := drops_dropFrame m _

/-- `free_frames_contiguous` drops all of them. -/
theorem freeFramesContiguous_spec (m : PhysicalMemoryManager) (addr count : ℕ) :
    Drops m (m.freeFramesContiguous addr count) (framesFreed addr count).toFinset :=
  drops_foldl_dropFrame _ m

/-- A frame that is taken or does not exist is not reserved; any other is. -/
theorem reserveFrame_spec (m : PhysicalMemoryManager) (addr : ℕ) :
    (m.reserveFrame addr = m ∧
        (addr / FRAME_SIZE < m.totalFrames → m.bit (addr / FRAME_SIZE) = true)) ∨
      Reserves m (m.reserveFrame addr) (addr / FRAME_SIZE) := by
  rw [reserveFrame]
  by_cases h : addr / FRAME_SIZE < m.totalFrames ∧ m.getBit (addr / FRAME_SIZE) = false
  · right
    rw [if_pos h]
    have hbits := bit_foldl_setBit [addr / FRAME_SIZE] m
    rw [List.foldl_cons, List.foldl_nil] at hbits
    refine ⟨by rw [setBit]; split_ifs <;> rfl, ⟨h.1, by rw [← getBit_of_lt h.1]; exact h.2⟩,
      fun g => ?_, by rw [setBit]; split_ifs <;> rfl, rfl⟩
    refine (hbits g).trans ?_
    congr 1
    rw [decide_eq_decide, List.mem_singleton]
    exact ⟨fun hg => hg.1, fun hg => ⟨hg, hg ▸ h.1⟩⟩
  · left
    rw [if_neg h]
    refine ⟨rfl, fun hlt => ?_⟩
    rw [not_and, Bool.not_eq_false, getBit_of_lt hlt] at h
    exact h hlt

end PhysicalMemoryManager

end Masika
