import Masika.Memory.Physical.Search

/-!
# Requests that are passed on

Most of the functions of `PhysicalMemoryManager` that allocate or release pass the request on, to
`alloc_frame` or `alloc_frames_contiguous` and to their counterparts.  Some round a size in bytes up
to frames, some add frames, some look at what they get and give it back.

* `release_restores`: what is given back in the way it was obtained leaves the bitmap and
  `used_frames` as they were.  This rests on one lemma, `Grants.undone`.
* `hugePage_sound_iff`: `alloc_huge_page` asks for 512 frames, but not for an alignment.
* `dma_findsLow_iff`: `alloc_dma_capable_frame` takes what `alloc_frame` returns and only then looks
  at the address.  As the search starts at the hint, a frame of low memory may be clear and not be
  found.
-/

namespace Masika

namespace PhysicalMemoryManager

/-! ## The code -/

/-- Frames for the heap. -/
def allocKernelHeapSpace (m : PhysicalMemoryManager) (size : ℕ) :
    Option ℕ × PhysicalMemoryManager :=
  m.allocFramesContiguous (frameCeil size)

/-- Frames for an identity map. -/
def allocIdentityMap (m : PhysicalMemoryManager) (size : ℕ) : Option ℕ × PhysicalMemoryManager :=
  m.allocFramesContiguous (frameCeil size)

/-- `vmm` is the caller's mapping function: whether it could map `size` bytes at an address. -/
def allocAndMap (m : PhysicalMemoryManager) (size : ℕ) (vmm : ℕ → ℕ → Bool) :
    Option ℕ × PhysicalMemoryManager :=
  let framesNeeded := frameCeil size
  match m.allocFramesContiguous framesNeeded with
  | (some paddr, m') =>
    if vmm paddr size then (some paddr, m')
    else (none, m'.freeFramesContiguous paddr framesNeeded)
  | (none, m') => (none, m')

/-- The usable part, its size and the guard before it. -/
def allocGuardedRegion (m : PhysicalMemoryManager) (size : ℕ) :
    Option (ℕ × ℕ × ℕ) × PhysicalMemoryManager :=
  let sizeFrames := frameCeil size
  match m.allocFramesContiguous (sizeFrames + 2) with
  | (some region, m') => (some (wrap (region + FRAME_SIZE), size, region), m')
  | (none, m') => (none, m')

/-- The address of the usable part is an argument that the function does not read. -/
def freeGuardedRegion (m : PhysicalMemoryManager) (_addr size guardBefore : ℕ) :
    PhysicalMemoryManager :=
  m.freeFramesContiguous guardBefore (frameCeil size + 2)

/-- 512 frames. -/
def allocHugePage (m : PhysicalMemoryManager) : Option ℕ × PhysicalMemoryManager :=
  m.allocFramesContiguous 512

/-- Give them back. -/
def freeHugePage (m : PhysicalMemoryManager) (addr : ℕ) : PhysicalMemoryManager :=
  m.freeFramesContiguous addr 512

/-- A frame below 1 MiB, if the next one is. -/
def allocDmaCapableFrame (m : PhysicalMemoryManager) : Option ℕ × PhysicalMemoryManager :=
  match m.allocFrame with
  | (some frame, m') =>
    if frame < 0x100000 then (some frame, m')
    else (none, m'.freeFrame frame)
  | (none, m') => (none, m')

variable {m m' m'' : PhysicalMemoryManager}

/-! ## Taking frames and giving them back -/

/-- The bitmap and both counters are as before; the hint need not be. -/
structure Restores (m m' : PhysicalMemoryManager) : Prop where
  bitmap : m'.bitmap = m.bitmap
  used : m'.usedFrames = m.usedFrames
  reserved : m'.reservedFrames = m.reservedFrames

/-- **Dropping the frames that were granted restores the manager.** -/
lemma Grants.undone {e : Extent} (h : Grants m m' e) (hdrop : Drops m' m'' e.frames) :
    Restores m m'' where
  bitmap := by
    refine words_ext fun f => ?_
    have hbit : m''.bit f = m.bit f := by
      rw [hdrop.bits, h.bits, h.total]
      by_cases hf : f ∈ e.frames
      · simp [hf, h.clear f hf]
      · simp [hf]
    exact hbit
  used := by
    have hsub : e.frames ⊆ m'.taken := by
      rw [h.sets.taken.1]
      exact Finset.subset_union_right
    rw [hdrop.used, h.used, Finset.inter_eq_right.mpr hsub, Extent.card_frames,
      BitVec.add_sub_cancel]
  reserved := hdrop.reserved.trans h.reserved

/-- `free_frames_contiguous` goes through the frames that were granted. -/
lemma Grants.drops {s count : ℕ} (h : Grants m m' ⟨s, count⟩) :
    Drops m' (m'.freeFramesContiguous (s * FRAME_SIZE) count) (⟨s, count⟩ : Extent).frames := by
  have hdrop := m'.freeFramesContiguous_spec (s * FRAME_SIZE) count
  have hfreed : (framesFreed (s * FRAME_SIZE) count).toFinset = (⟨s, count⟩ : Extent).frames := by
    rw [framesFreed, FRAME_SIZE, Nat.mul_div_cancel s (by decide)]
    ext f
    rw [List.mem_toFinset, Extent.mem_frames]
    rcases Nat.eq_zero_or_pos count with rfl | hpos
    · simp
    · have hlast := (freeRun_iff.mpr h.clear (s + count - 1) (by omega) (by omega)).1
      have htotal := m.total_lt
      rw [map_wrap_range (by omega), List.mem_range'_1]
  rwa [hfreed] at hdrop

/-- A contiguous request, in the form in which the functions above use it. -/
lemma allocFramesContiguous_cases {count : ℕ} (hcount : count ≤ 1 ∨ count ≤ m.totalFrames) :
    m.allocFramesContiguous count = (none, m) ∨
      ∃ s m', m.allocFramesContiguous count = (some (s * FRAME_SIZE), m') ∧
        Grants m m' ⟨s, count⟩ := by
  have hspec := m.allocFramesContiguous_spec hcount
  rw [GrantsOrFails] at hspec
  generalize m.allocFramesContiguous count = result at hspec
  obtain ⟨_ | addr, m'⟩ := result
  · exact .inl (by rw [← show m' = m from hspec])
  · obtain ⟨s, rfl, hgrant⟩ := hspec
    exact .inr ⟨s, m', rfl, hgrant⟩

lemma freeFramesContiguous_restores {count addr : ℕ} (hcount : count ≤ m.totalFrames)
    (h : (m.allocFramesContiguous count).1 = some addr) :
    Restores m ((m.allocFramesContiguous count).2.freeFramesContiguous addr count) := by
  rcases allocFramesContiguous_cases (.inr hcount) with hnone | ⟨s, m₁, hsome, hgrant⟩
  · rw [hnone] at h
    exact absurd h (by simp)
  · rw [hsome] at h ⊢
    obtain rfl := Option.some.inj h
    exact hgrant.undone hgrant.drops

/-- **A mapping that is refused gives every frame back.** -/
lemma allocAndMap_refused {size : ℕ} {vmm : ℕ → ℕ → Bool} (hsize : frameCeil size ≤ m.totalFrames)
    (hvmm : ∀ addr, (m.allocFramesContiguous (frameCeil size)).1 = some addr →
      vmm addr size = false) :
    (m.allocAndMap size vmm).1 = none ∧ Restores m (m.allocAndMap size vmm).2 := by
  rw [allocAndMap]
  rcases allocFramesContiguous_cases (.inr hsize) with hnone | ⟨s, m₁, hsome, hgrant⟩
  · rw [hnone]
    exact ⟨rfl, rfl, rfl, rfl⟩
  · have hfalse := hvmm (s * FRAME_SIZE) (by rw [hsome])
    rw [hsome]
    simp only [hfalse]
    exact ⟨rfl, hgrant.undone hgrant.drops⟩

/-- **A guarded region has a frame of its own before and after it**, all of them granted together.
-/
theorem allocGuardedRegion_spec (m : PhysicalMemoryManager) {size addr sz guard : ℕ}
    (hsize : frameCeil size + 2 ≤ m.totalFrames)
    (hsome : (m.allocGuardedRegion size).1 = some (addr, sz, guard)) :
    sz = size ∧ ∃ s, guard = s * FRAME_SIZE ∧ addr = (s + 1) * FRAME_SIZE ∧
      Grants m (m.allocGuardedRegion size).2 ⟨s, frameCeil size + 2⟩ := by
  have htotal := m.total_lt
  rw [allocGuardedRegion] at hsome ⊢
  rcases allocFramesContiguous_cases (.inr hsize) with hnone | ⟨s, m₁, hresult, hgrant⟩
  · rw [hnone] at hsome
    exact absurd hsome (by simp)
  · rw [hresult] at hsome ⊢
    simp only [Option.some.injEq, Prod.mk.injEq] at hsome
    obtain ⟨rfl, rfl, rfl⟩ := hsome
    have hfirst := (freeRun_iff.mpr hgrant.clear s le_rfl (by omega)).1
    refine ⟨rfl, s, rfl, ?_, hgrant⟩
    rw [FRAME_SIZE, wrap_of_lt (by omega), Nat.succ_mul]

/-- **Allocating and releasing restores the manager.**  For a request of `n` frames, at least one
and not more than there are: the bitmap and `used_frames` are as before when the frames are given
back by `free_frames_contiguous`, when `alloc_and_map` gives them back because they cannot be
mapped, and when a guarded region is given back.  The usable bytes of such a region lie between the
first and the last of its frames. -/
theorem release_restores (m : PhysicalMemoryManager) {n : ℕ} (hpos : 1 ≤ n)
    (hle : n ≤ m.totalFrames) :
    (∀ addr, (m.allocFramesContiguous n).1 = some addr →
      ((m.allocFramesContiguous n).2.freeFramesContiguous addr n).bitmap = m.bitmap ∧
        ((m.allocFramesContiguous n).2.freeFramesContiguous addr n).usedFrames = m.usedFrames) ∧
    (∀ size vmm, (size + 4095) / 4096 = n →
      (∀ addr, (m.allocFramesContiguous n).1 = some addr → vmm addr size = false) →
        (m.allocAndMap size vmm).1 = none ∧ (m.allocAndMap size vmm).2.bitmap = m.bitmap ∧
          (m.allocAndMap size vmm).2.usedFrames = m.usedFrames) ∧
    (∀ size p sz g, (size + 4095) / 4096 + 2 = n →
      (m.allocGuardedRegion size).1 = some (p, sz, g) →
        sz = size ∧ (∀ b, p ≤ b → b < p + size → g + 4096 ≤ b ∧ b < g + (n - 1) * 4096) ∧
          ((m.allocGuardedRegion size).2.freeGuardedRegion p size g).bitmap = m.bitmap ∧
          ((m.allocGuardedRegion size).2.freeGuardedRegion p size g).usedFrames
            = m.usedFrames) := by
  have htotal := m.total_lt
  refine ⟨?_, ?_, ?_⟩
  · intro addr h
    have hrestores := freeFramesContiguous_restores hle h
    exact ⟨hrestores.bitmap, hrestores.used⟩
  · rintro size vmm rfl hvmm
    have hceil := frameCeil_eq (n := size) (by omega)
    rw [← hceil] at hle hvmm
    obtain ⟨hnone, hrestores⟩ := allocAndMap_refused hle hvmm
    exact ⟨hnone, hrestores.bitmap, hrestores.used⟩
  · rintro size p sz g rfl h
    have hceil := frameCeil_eq (n := size) (by omega)
    rw [← hceil] at hle ⊢
    obtain ⟨rfl, s, rfl, rfl, hgrant⟩ := m.allocGuardedRegion_spec hle h
    have hrestores : Restores m ((m.allocGuardedRegion sz).2.freeGuardedRegion
        ((s + 1) * FRAME_SIZE) sz (s * FRAME_SIZE)) := hgrant.undone hgrant.drops
    refine ⟨rfl, fun b hp hb => ?_, hrestores.bitmap, hrestores.used⟩
    rw [FRAME_SIZE] at hp hb ⊢
    omega

/-- Three frames of eight. -/
theorem release_restores_three :
    (spottedMemory.allocFramesContiguous 3).1 = some 0x4000 ∧
      ((spottedMemory.allocFramesContiguous 3).2.freeFramesContiguous 0x4000 3).bitmap
        = spottedMemory.bitmap :=
  ⟨by decide,
    ((release_restores spottedMemory (show 1 ≤ 3 by decide) (by decide)).1 0x4000 (by decide)).1⟩

/-! ## Huge pages -/

/-- What `alloc_huge_page` returns is aligned and was clear, and `free_huge_page` gives back exactly
its 512 frames. -/
def HugePageSound (m : PhysicalMemoryManager) : Prop :=
  ∀ addr, m.allocHugePage.1 = some addr →
    512 * 4096 ∣ addr ∧ m.FreeRun (addr / 4096) 512 ∧
      (⟨addr / 4096, 512⟩ : Extent).frames ⊆ m.allocHugePage.2.taken ∧
      Drops m.allocHugePage.2 (m.allocHugePage.2.freeHugePage addr)
        (⟨addr / 4096, 512⟩ : Extent).frames

/-- `s` is where the first-fit search for `count` frames ends. -/
def FirstRun (m : PhysicalMemoryManager) (count s : ℕ) : Prop :=
  m.FreeRun s count ∧ ∀ s' < s, ¬ m.FreeRun s' count

/-- A request for two frames or more, but not for more than there are, is granted at the first run.
-/
lemma allocFramesContiguous_firstRun {count : ℕ} (htwo : 2 ≤ count) (hle : count ≤ m.totalFrames) :
    (∃ s m', m.allocFramesContiguous count = (some (s * FRAME_SIZE), m') ∧
        Grants m m' ⟨s, count⟩ ∧ m.FirstRun count s) ∨
      m.allocFramesContiguous count = (none, m) ∧ ∀ s, ¬ m.FreeRun s count := by
  have hlowest := m.allocFramesContiguous_lowest htwo hle
  generalize m.allocFramesContiguous count = result at hlowest
  obtain ⟨_ | addr, m'⟩ := result
  · exact .inr ⟨by rw [hlowest.1], hlowest.2⟩
  · obtain ⟨s, rfl, hgrant, hbefore⟩ := hlowest
    exact .inl ⟨s, m', rfl, hgrant, freeRun_iff.mpr hgrant.clear, hbefore⟩

lemma FirstRun.unique {count s s' : ℕ} (h : m.FirstRun count s) (h' : m.FirstRun count s') :
    s = s' := by
  rcases Nat.lt_trichotomy s s' with hlt | heq | hgt
  · exact absurd h.1 (h'.2 s hlt)
  · exact heq
  · exact absurd h'.1 (h.2 s' hgt)

/-- **When huge pages are naturally aligned.**  `alloc_huge_page` returns an aligned address of 512
clear frames, which `free_huge_page` gives back, if and only if there are 512 frames at all and the
first run of 512 clear frames, if there is one, happens to start at a multiple of 512. -/
theorem hugePage_sound_iff (m : PhysicalMemoryManager) :
    m.HugePageSound ↔ 512 ≤ m.totalFrames ∧ ∀ s, m.FirstRun 512 s → 512 ∣ s := by
  have htotal := m.total_lt
  constructor
  · intro hsound
    have h512 : 512 ≤ m.totalFrames := by
      by_contra hlt
      rw [not_le] at hlt
      -- a request that is larger than memory is granted, and not all of its frames exist
      obtain ⟨addr, haddr⟩ := Option.isSome_iff_exists.mp
        (m.allocFramesContiguous_oversized (by decide) hlt (by omega))
      exact not_freeRun_of_lt hlt (hsound addr haddr).2.1
    refine ⟨h512, fun s hfirst => ?_⟩
    rcases allocFramesContiguous_firstRun (by decide) h512 with
      ⟨s', m', hresult, -, hfirst'⟩ | ⟨-, hnone⟩
    · have hreturned : m.allocHugePage.1 = some (s' * FRAME_SIZE) := congrArg Prod.fst hresult
      rw [hfirst.unique hfirst']
      exact Nat.dvd_of_mul_dvd_mul_right (by decide) (hsound _ hreturned).1
    · exact absurd hfirst.1 (hnone s)
  · rintro ⟨h512, haligned⟩ addr haddr
    rw [allocHugePage] at haddr ⊢
    rcases allocFramesContiguous_firstRun (by decide) h512 with
      ⟨s, m₁, hsome, hgrant, hfirst⟩ | ⟨hnone, -⟩
    · rw [hsome] at haddr ⊢
      obtain rfl := Option.some.inj haddr
      have hstart : s * FRAME_SIZE / 4096 = s := Nat.mul_div_cancel s (by decide)
      rw [hstart]
      refine ⟨Nat.mul_dvd_mul_right (haligned s hfirst) 4096, hfirst.1, ?_, hgrant.drops⟩
      rw [hgrant.sets.taken.1]
      exact Finset.subset_union_right
    · rw [hnone] at haddr
      exact absurd haddr (by simp)

/-- Four megabytes, with the first frame reserved. -/
def firstReserved : PhysicalMemoryManager :=
  ((PhysicalMemoryManager.new 0x400000#64 fun _ => 0#64).resetAllBits).reserveFrame 0

/-- The huge page starts at the second frame. -/
theorem firstReserved_hugePage :
    firstReserved.allocHugePage.1 = some 0x1000 ∧ ¬ firstReserved.HugePageSound := by
  have hresult : firstReserved.allocHugePage.1 = some 0x1000 := by decide +kernel
  refine ⟨hresult, fun hsound => ?_⟩
  exact absurd (hsound 0x1000 hresult).1 (by decide)

/-! ## Low memory -/

/-- A clear frame below one megabyte. -/
def LowFrame (m : PhysicalMemoryManager) (f : ℕ) : Prop :=
  f < m.totalFrames ∧ f * 4096 < 0x100000 ∧ m.bit f = false

/-- `alloc_dma_capable_frame` finds a clear frame of low memory when there is one, and otherwise
changes neither the bitmap nor the counters. -/
def FindsLow (m : PhysicalMemoryManager) : Prop :=
  ((∃ addr, m.allocDmaCapableFrame.1 = some addr ∧ addr < 0x100000 ∧
        addr / 4096 < m.totalFrames ∧ m.bit (addr / 4096) = false) ↔ ∃ f, m.LowFrame f) ∧
    (m.allocDmaCapableFrame.1 = none → Restores m m.allocDmaCapableFrame.2)

/-- What the call makes of the frame that the search finds. -/
lemma allocDmaCapableFrame_cases (m : PhysicalMemoryManager) :
    (∃ f, m.PlainSearch f ∧ f * 4096 < 0x100000 ∧ m.allocDmaCapableFrame.1 = some (f * 4096)) ∨
      (∃ f, m.PlainSearch f ∧ 0x100000 ≤ f * 4096 ∧ m.allocDmaCapableFrame.1 = none ∧
        Restores m m.allocDmaCapableFrame.2) ∨
      (∀ g < m.totalFrames, m.bit g = true) ∧ m.allocDmaCapableFrame = (none, m) := by
  rw [allocDmaCapableFrame]
  rcases m.allocFrame_cases with ⟨f, hresult, hsearch⟩ | ⟨hresult, hfull⟩
  · rw [hresult, FRAME_SIZE]
    simp only
    split_ifs with hlow
    · exact .inl ⟨f, hsearch, hlow, rfl⟩
    · have hgrant := grants_takeFrame hsearch.clear.1 hsearch.clear.2
      have hdrop := (m.takeFrame f).freeFrame_spec (f * 4096)
      have hframe : ({f * 4096 / FRAME_SIZE} : Finset ℕ) = (⟨f, 1⟩ : Extent).frames := by
        rw [FRAME_SIZE, Nat.mul_div_cancel f (by decide)]
        simp [Extent.frames]
      rw [hframe] at hdrop
      exact .inr (.inl ⟨f, hsearch, by omega, rfl, hgrant.undone hdrop⟩)
  · rw [hresult]
    exact .inr (.inr ⟨hfull, rfl⟩)

/-- The search ends in low memory, unless there is a clear frame from the hint on and none of those
is low. -/
lemma PlainSearch.low_iff {f g : ℕ} (h : m.PlainSearch f) (hg : m.LowFrame g) :
    f * 4096 < 0x100000 ↔ (∃ f ≥ m.maxReservedFrame, m.LowFrame f) ∨
      ∀ f, m.maxReservedFrame ≤ f → f < m.totalFrames → m.bit f = true := by
  obtain ⟨hglt, hglow, hgclear⟩ := hg
  rcases h with ⟨hhint, hlt, hclear, hbefore⟩ | ⟨hfull, -, hlt, hclear, hbefore⟩
  · constructor
    · exact fun hlow => .inl ⟨f, hhint, hlt, hlow, hclear⟩
    · rintro (⟨f', hhint', -, hlow', hclear'⟩ | hfull)
      · by_contra hhigh
        -- the search would have come to the low frame first
        rw [hbefore f' hhint' (by omega)] at hclear'
        exact absurd hclear' (by simp)
      · rw [hfull f hhint hlt] at hclear
        exact absurd hclear (by simp)
  · refine ⟨fun _ => .inr hfull, fun _ => ?_⟩
    by_contra hhigh
    rw [hbefore g (Nat.zero_le g) (by omega)] at hgclear
    exact absurd hgclear (by simp)

/-- **When low memory is found.**  `alloc_dma_capable_frame` finds a clear frame below one megabyte
exactly when there is one, if and only if there is none at all, or one from the hint on, or no clear
frame from the hint on. -/
theorem dma_findsLow_iff (m : PhysicalMemoryManager) :
    m.FindsLow ↔ (∀ f, ¬ m.LowFrame f) ∨ (∃ f ≥ m.maxReservedFrame, m.LowFrame f) ∨
      ∀ f, m.maxReservedFrame ≤ f → f < m.totalFrames → m.bit f = true := by
  rw [FindsLow]
  rcases m.allocDmaCapableFrame_cases with ⟨f, hsearch, hlow, hresult⟩ |
      ⟨f, hsearch, hhigh, hresult, hrestores⟩ | ⟨hfull, hresult⟩
  · have hframe : m.LowFrame f := ⟨hsearch.clear.1, hlow, hsearch.clear.2⟩
    have hdiv : f * 4096 / 4096 = f := Nat.mul_div_cancel f (by decide)
    refine ⟨fun _ => .inr ((hsearch.low_iff hframe).mp hlow), fun _ => ⟨⟨fun _ => ⟨f, hframe⟩,
      fun _ => ⟨f * 4096, hresult, hlow, ?_⟩⟩, fun hnone => ?_⟩⟩
    · rw [hdiv]
      exact hsearch.clear
    · rw [hresult] at hnone
      exact absurd hnone (by simp)
  · constructor
    · rintro ⟨hiff, -⟩
      refine .inl fun g hg => ?_
      obtain ⟨addr, haddr, -⟩ := hiff.mpr ⟨g, hg⟩
      rw [hresult] at haddr
      exact absurd haddr (by simp)
    · intro hcondition
      have hnone : ∀ g, ¬ m.LowFrame g := by
        intro g hg
        rcases hcondition with hno | hcondition
        · exact hno g hg
        · have := (hsearch.low_iff hg).mpr hcondition
          omega
      refine ⟨⟨?_, fun ⟨g, hg⟩ => absurd hg (hnone g)⟩, fun _ => hrestores⟩
      rintro ⟨addr, haddr, -⟩
      rw [hresult] at haddr
      exact absurd haddr (by simp)
  · have hnone : ∀ g, ¬ m.LowFrame g := by
      rintro g ⟨hlt, -, hclear⟩
      rw [hfull g hlt] at hclear
      exact absurd hclear (by simp)
    rw [hresult]
    refine ⟨fun _ => .inl hnone, fun _ => ⟨⟨?_, fun ⟨g, hg⟩ => absurd hg (hnone g)⟩,
      fun _ => ⟨rfl, rfl, rfl⟩⟩⟩
    rintro ⟨addr, haddr, -⟩
    exact absurd haddr (by simp)

/-- Two megabytes, with the first frame above low memory reserved. -/
def megabyteReserved : PhysicalMemoryManager :=
  ((PhysicalMemoryManager.new 0x200000#64 fun _ => 0#64).resetAllBits).reserveFrame 0x100000

/-- All of low memory is clear, and the call fails. -/
theorem megabyteReserved_dma :
    megabyteReserved.allocDmaCapableFrame.1 = none ∧ megabyteReserved.LowFrame 0 ∧
      ¬ megabyteReserved.FindsLow := by
  have hresult : megabyteReserved.allocDmaCapableFrame.1 = none := by decide +kernel
  have hlow : megabyteReserved.LowFrame 0 := ⟨by decide, by decide, by decide⟩
  refine ⟨hresult, hlow, fun hfinds => ?_⟩
  obtain ⟨addr, haddr, -⟩ := hfinds.1.mpr ⟨0, hlow⟩
  rw [hresult] at haddr
  exact absurd haddr (by simp)

end PhysicalMemoryManager

end Masika
