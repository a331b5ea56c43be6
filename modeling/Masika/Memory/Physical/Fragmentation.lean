import Masika.Core.MaximalRuns
import Masika.Memory.Physical.Search

/-!
# The report on fragmentation

`get_fragmentation_info` counts the blocks of clear frames in one pass, with a flag that says
whether the last frame was clear; `find_largest_free_block` measures them in another pass.  Both are
about the maximal runs of clear frames below `total_frames` (`FreeBlock`): the first returns their
number, the second their greatest length.  Together they bound the number of clear frames.
-/

namespace Masika

namespace PhysicalMemoryManager

/-- The number of blocks of clear frames, and `get_free_frames()`. -/
def getFragmentationInfo (m : PhysicalMemoryManager) : ℕ × U64 :=
  (countRuns (fun i => !m.getBit i) m.totalFrames, m.getFreeFrames)

/-- The `len` frames from `s` on are clear, and they are not part of a longer row of clear frames
below `total_frames`. -/
structure FreeBlock (m : PhysicalMemoryManager) (s len : ℕ) : Prop where
  pos : 0 < len
  fits : s + len ≤ m.totalFrames
  clear : ∀ f, s ≤ f → f < s + len → m.getBit f = false
  left : ∀ f, f + 1 = s → m.getBit f = true
  right : s + len < m.totalFrames → m.getBit (s + len) = true

/-- The frames below `total_frames` whose bit is clear. -/
def clearFrames (m : PhysicalMemoryManager) : Finset ℕ :=
  (Finset.range m.totalFrames).filter fun f => m.getBit f = false

/-- **The report is right.**  `blocks` are the blocks of clear frames, as pairs of the first frame
and the length. -/
structure ReportsFragmentation (m : PhysicalMemoryManager) (blocks : Finset (ℕ × ℕ)) : Prop where
  count : m.getFragmentationInfo.1 = blocks.card
  longest : ∀ b ∈ blocks, b.2 ≤ m.findLargestFreeBlock
  attained : blocks.Nonempty → ∃ b ∈ blocks, b.2 = m.findLargestFreeBlock
  noBlock : blocks = ∅ → m.findLargestFreeBlock = 0
  atMost : m.clearFrames.card ≤ m.getFragmentationInfo.1 * m.findLargestFreeBlock
  atLeast : blocks.Nonempty →
    m.getFragmentationInfo.1 + m.findLargestFreeBlock - 1 ≤ m.clearFrames.card

variable (m : PhysicalMemoryManager)

lemma maximalRun_iff_freeBlock {s len : ℕ} :
    MaximalRun (fun i => !m.getBit i) m.totalFrames s len ↔ m.FreeBlock s len := by
  constructor
  · intro h
    refine ⟨h.pos, h.fits, fun f hs hlt => ?_, fun f hf => ?_, fun hlt => ?_⟩
    · simpa using h.all f hs hlt
    · simpa using h.left f hf
    · simpa using h.right hlt
  · intro h
    refine ⟨h.pos, h.fits, fun f hs hlt => ?_, fun f hf => ?_, fun hlt => ?_⟩
    · simpa using h.clear f hs hlt
    · simpa using h.left f hf
    · simpa using h.right hlt

lemma clearFrames_eq_holding : m.clearFrames = holding (fun i => !m.getBit i) m.totalFrames := by
  ext f
  simp [clearFrames, holding]

/-- **The fragmentation report counts free runs.**  There are finitely many blocks of clear frames,
and both functions are right about them. -/
theorem fragmentation_counts_runs :
    ∃ blocks : Finset (ℕ × ℕ), (∀ b, b ∈ blocks ↔ m.FreeBlock b.1 b.2) ∧
      m.ReportsFragmentation blocks := by
  refine ⟨maximalRuns (fun i => !m.getBit i) m.totalFrames, fun b => ?_, ?_⟩
  · rw [mem_maximalRuns, maximalRun_iff_freeBlock]
  have hcount : m.getFragmentationInfo.1 =
      (maximalRuns (fun i => !m.getBit i) m.totalFrames).card := countRuns_eq_card _ _
  refine ⟨hcount, fun b hb => ?_, fun hne => ?_, fun hempty => ?_, ?_, fun hne => ?_⟩
  · exact (mem_maximalRuns.mp hb).le_longestRun
  · obtain ⟨s, hrun⟩ := exists_maximalRun_longest (longestRun_pos_iff.mpr hne)
    exact ⟨(s, m.findLargestFreeBlock), mem_maximalRuns.mpr hrun, rfl⟩
  · rw [← Nat.le_zero, ← Nat.not_lt]
    intro hpos
    exact (longestRun_pos_iff.mp hpos).ne_empty hempty
  · rw [hcount, clearFrames_eq_holding]
    exact card_holding_le _ _
  · rw [hcount, clearFrames_eq_holding]
    exact Nat.sub_le_of_le_add (le_card_holding hne)

end PhysicalMemoryManager

end Masika
