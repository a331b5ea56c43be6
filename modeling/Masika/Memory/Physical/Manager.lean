import Masika.Core.BitPacked
import Masika.Core.Extents
import Masika.Core.Usize

/-!
# The physical memory manager

`PhysicalMemoryManager` of `memory/physical.rs`: one bit per frame, packed into words, and two
counters.  Frame numbers and addresses are natural numbers, with `wrap` where the arithmetic of the
source can leave 64 bits; the counters are words, since atomic additions wrap by definition.
`totalFrames` is a quotient by the frame size, hence below `2 ^ 52`, and the structure says so.

Six functions allocate, each with its own search.  What they have in common is `Grants`: the frames
of one extent, all of them below `totalFrames` and clear, become set, every other bit of the bitmap
stays, and `used_frames` grows by the size of the extent.  Every allocating function has one
specification lemma: it fails and changes nothing, or it grants what it says it has granted.
-/

namespace Masika

/-- The size of a frame. -/
def FRAME_SIZE : ℕ := 4096

/-- The allocator of frames. -/
structure PhysicalMemoryManager where
  /-- the words behind the pointer `bitmap` -/
  bitmap : ℕ → U64
  totalFrames : ℕ
  usedFrames : U64
  reservedFrames : U64
  maxReservedFrame : ℕ
  total_lt : totalFrames < 2 ^ 52

namespace PhysicalMemoryManager

/-- The number of frames that `n` bytes touch, when they start at a frame boundary. -/
def frameCeil (n : ℕ) : ℕ := wrap (n + FRAME_SIZE - 1) / FRAME_SIZE

/-- A manager for `memorySize` bytes; its bitmap is whatever memory holds. -/
def new (memorySize : U64) (bitmap : ℕ → U64) : PhysicalMemoryManager where
  bitmap := bitmap
  totalFrames := memorySize.toNat / FRAME_SIZE
  usedFrames := 0#64
  reservedFrames := 0#64
  maxReservedFrame := 0
  total_lt := by
    have := memorySize.isLt
    rw [FRAME_SIZE]
    omega

/-! ## Bits -/

/-- Frames beyond the end count as clear. -/
def getBit (m : PhysicalMemoryManager) (frame : ℕ) : Bool :=
  if frame ≥ m.totalFrames then false else Masika.getBit m.bitmap frame

/-- Set the bit of a frame that exists. -/
def setBit (m : PhysicalMemoryManager) (frame : ℕ) : PhysicalMemoryManager :=
  if frame ≥ m.totalFrames then m else { m with bitmap := Masika.setBit m.bitmap frame }

/-- Clear the bit of a frame that exists. -/
def clearBit (m : PhysicalMemoryManager) (frame : ℕ) : PhysicalMemoryManager :=
  if frame ≥ m.totalFrames then m else { m with bitmap := Masika.clearBit m.bitmap frame }

/-! ## Allocation -/

/-- The clear bits of word `wordIdx` that stand for frames from `start` on. -/
def maskedWord (m : PhysicalMemoryManager) (start wordIdx : ℕ) : U64 :=
  let mask := if wordIdx = start >>> 6 then ~~~((1#64 <<< (start &&& 63)) - 1#64)
    else BitVec.allOnes 64
  ~~~(m.bitmap wordIdx) &&& mask

/-- The first clear bit, word by word. -/
def findFirstFreeFrameFrom (m : PhysicalMemoryManager) (start : ℕ) : Option ℕ :=
  let startWord := start >>> 6
  (List.range' startWord (((m.totalFrames + 63) >>> 6) - startWord)).findSome? fun wordIdx =>
    let word := m.maskedWord start wordIdx
    if word ≠ 0#64 then
      let frame := (wordIdx <<< 6) + word.ctz.toNat
      if frame < m.totalFrames then some frame else none
    else none

/-- The block that both halves of `alloc_frame` end with. -/
def takeFrame (m : PhysicalMemoryManager) (frame : ℕ) : PhysicalMemoryManager :=
  { m.setBit frame with
    usedFrames := m.usedFrames + 1#64
    maxReservedFrame := if frame > m.maxReservedFrame then frame else m.maxReservedFrame }

/-- A frame from the hint on, or else any. -/
def allocFrame (m : PhysicalMemoryManager) : Option ℕ × PhysicalMemoryManager :=
  match m.findFirstFreeFrameFrom m.maxReservedFrame with
  | some frame => (some (frame * FRAME_SIZE), m.takeFrame frame)
  | none =>
    match (List.range m.totalFrames).find? fun frame => !m.getBit frame with
    | some frame => (some (frame * FRAME_SIZE), m.takeFrame frame)
    | none => (none, m)

/-- Set the bits of some frames, and add a number to `used_frames`. -/
def charge (m : PhysicalMemoryManager) (frames : List ℕ) (count : U64) : PhysicalMemoryManager :=
  { frames.foldl setBit m with usedFrames := m.usedFrames + count }

/-- The first run of `count` clear frames. -/
def allocFramesContiguous (m : PhysicalMemoryManager) (count : ℕ) :
    Option ℕ × PhysicalMemoryManager :=
  if count = 0 then (none, m)
  else if count = 1 then m.allocFrame
  else
    let starts := List.range (wrapSub m.totalFrames count + 1)
    let framesFrom := fun start => (List.range count).map fun offset => wrap (start + offset)
    match starts.find? fun start => (framesFrom start).all fun frame => !m.getBit frame with
    | none => (none, m)
    | some start =>
      (some (wrap (start * FRAME_SIZE)),
        { m.charge (framesFrom start) (BitVec.ofNat 64 count) with
          maxReservedFrame := if wrap (start + count) > m.maxReservedFrame then wrap (start + count)
            else m.maxReservedFrame })

/-- The first run at a multiple of `align`. -/
def allocAligned (m : PhysicalMemoryManager) (align size : ℕ) : Option ℕ × PhysicalMemoryManager :=
  let framesNeeded := frameCeil size
  let step := max (align / FRAME_SIZE) 1
  let starts := List.range' 0 ((m.totalFrames + step - 1) / step) step
  match starts.find? fun start => (List.range' start framesNeeded).all fun frame =>
      !(decide (frame ≥ m.totalFrames) || m.getBit frame) with
  | none => (none, m)
  | some start =>
    (some (start * FRAME_SIZE),
      m.charge (List.range' start framesNeeded) (BitVec.ofNat 64 framesNeeded))

/-- This frame. -/
def allocSpecificFrame (m : PhysicalMemoryManager) (frame : ℕ) :
    Except Unit Unit × PhysicalMemoryManager :=
  if frame ≥ m.totalFrames ∨ m.getBit frame = true then (.error (), m)
  else (.ok (), m.charge [frame] 1#64)

/-- The frame of this address. -/
def allocAt (m : PhysicalMemoryManager) (addr : ℕ) : Except Unit Unit × PhysicalMemoryManager :=
  let frame := addr / FRAME_SIZE
  if frame ≥ m.totalFrames ∨ m.getBit frame = true then (.error (), m)
  else (.ok (), m.charge [frame] 1#64)

/-- The frames of this range. -/
def validateAndAlloc (m : PhysicalMemoryManager) (addr size : ℕ) : Bool × PhysicalMemoryManager :=
  let startFrame := addr / FRAME_SIZE
  let endFrame := frameCeil (addr + size)
  let frames := List.range' startFrame (endFrame - startFrame)
  if frames.any fun i => decide (i ≥ m.totalFrames) || m.getBit i then (false, m)
  else (true, m.charge frames (BitVec.ofNat 64 endFrame - BitVec.ofNat 64 startFrame))

/-! ## Release and reservation -/

/-- The block shared by `free_frame` and `free_frames_contiguous`. -/
def dropFrame (m : PhysicalMemoryManager) (frame : ℕ) : PhysicalMemoryManager :=
  if frame < m.totalFrames ∧ m.getBit frame = true then
    { m.clearBit frame with usedFrames := m.usedFrames - 1#64 }
  else m

/-- Give back a frame. -/
def freeFrame (m : PhysicalMemoryManager) (addr : ℕ) : PhysicalMemoryManager :=
  m.dropFrame (addr / FRAME_SIZE)

/-- The frames that `free_frames_contiguous` goes through. -/
def framesFreed (addr count : ℕ) : List ℕ :=
  (List.range count).map fun i => wrap (addr / FRAME_SIZE + i)

/-- Give back several. -/
def freeFramesContiguous (m : PhysicalMemoryManager) (addr count : ℕ) : PhysicalMemoryManager :=
  (framesFreed addr count).foldl dropFrame m

/-- Reserve a frame that is clear. -/
def reserveFrame (m : PhysicalMemoryManager) (addr : ℕ) : PhysicalMemoryManager :=
  let frame := addr / FRAME_SIZE
  if frame < m.totalFrames ∧ m.getBit frame = false then
    { m.setBit frame with
      reservedFrames := m.reservedFrames + 1#64
      maxReservedFrame := if frame > m.maxReservedFrame then frame else m.maxReservedFrame }
  else m

/-- The same under another name. -/
def reclaimFrame (m : PhysicalMemoryManager) (addr : ℕ) : PhysicalMemoryManager :=
  m.reserveFrame addr

/-- `free_frame` under another name. -/
def releaseFrame (m : PhysicalMemoryManager) (addr : ℕ) : PhysicalMemoryManager :=
  m.freeFrame addr

/-! ## Set-up and queries -/

/-- The frames that the three functions for boot regions go through. -/
def regionFrames (m : PhysicalMemoryManager) (base size : ℕ) : List ℕ :=
  let startFrame := base / FRAME_SIZE
  List.range' startFrame (min (frameCeil (base + size)) m.totalFrames - startFrame)

/-- Clear the bits of a region. -/
def initRegion (m : PhysicalMemoryManager) (base size : ℕ) : PhysicalMemoryManager :=
  (m.regionFrames base size).foldl clearBit m

/-- `end_frame - start_frame`, which the two functions below add to a counter. -/
def regionCount (base size : ℕ) : U64 :=
  BitVec.ofNat 64 (frameCeil (base + size)) - BitVec.ofNat 64 (base / FRAME_SIZE)

/-- Set them, and count all as used. -/
def markAsUsed (m : PhysicalMemoryManager) (base size : ℕ) : PhysicalMemoryManager :=
  m.charge (m.regionFrames base size) (regionCount base size)

/-- Set them, and count all as reserved. -/
def reserveRegionForBoot (m : PhysicalMemoryManager) (base size : ℕ) : PhysicalMemoryManager :=
  { (m.regionFrames base size).foldl setBit m with
    reservedFrames := m.reservedFrames + regionCount base size }

/-- The bitmap and the counters are cleared; `max_reserved_frame` is not. -/
def resetAllBits (m : PhysicalMemoryManager) : PhysicalMemoryManager :=
  { m with
    bitmap := fun i => if i < (m.totalFrames + 63) / 64 then 0#64 else m.bitmap i
    usedFrames := 0#64
    reservedFrames := 0#64 }

/-- What the counters leave. -/
def getFreeFrames (m : PhysicalMemoryManager) : U64 :=
  BitVec.ofNat 64 m.totalFrames - m.usedFrames - m.reservedFrames

/-! ## Frames that are taken -/

/-- The bit of `frame`, without the bounds check of `get_bit`. -/
def bit (m : PhysicalMemoryManager) (frame : ℕ) : Bool := Masika.getBit m.bitmap frame

/-- The frames whose bit is set. -/
def taken (m : PhysicalMemoryManager) : Finset ℕ := setBits m.bitmap m.totalFrames

lemma mem_taken {m : PhysicalMemoryManager} {f : ℕ} :
    f ∈ m.taken ↔ f < m.totalFrames ∧ m.bit f = true := mem_setBits

lemma card_taken_le (m : PhysicalMemoryManager) : m.taken.card ≤ m.totalFrames :=
  card_setBits_le _ _

lemma getBit_of_lt {m : PhysicalMemoryManager} {f : ℕ} (h : f < m.totalFrames) :
    m.getBit f = m.bit f := by
  rw [getBit, if_neg (by omega)]
  rfl

lemma getBit_eq_true {m : PhysicalMemoryManager} {f : ℕ} : m.getBit f = true ↔ f ∈ m.taken := by
  rw [getBit, mem_taken]
  split_ifs with h
  · simp only [false_iff, not_and]
    omega
  · exact ⟨fun hb => ⟨by omega, hb⟩, fun hb => hb.2⟩

/-- A loop of `set_bit` sets the bits of the frames that exist, and changes nothing else. -/
lemma foldl_setBit_eq (frames : List ℕ) (m : PhysicalMemoryManager) :
    frames.foldl setBit m
      = { m with
          bitmap := (frames.filter (· < m.totalFrames)).foldl Masika.setBit m.bitmap } := by
  induction frames generalizing m with
  | nil => rfl
  | cons f frames ih =>
    rw [List.foldl_cons, ih, setBit]
    split_ifs with h
    · rw [List.filter_cons_of_neg (by simpa using h)]
    · rw [List.filter_cons_of_pos (by simpa using h), List.foldl_cons]

lemma foldl_clearBit_eq (frames : List ℕ) (m : PhysicalMemoryManager) :
    frames.foldl clearBit m
      = { m with
          bitmap := (frames.filter (· < m.totalFrames)).foldl Masika.clearBit m.bitmap } := by
  induction frames generalizing m with
  | nil => rfl
  | cons f frames ih =>
    rw [List.foldl_cons, ih, clearBit]
    split_ifs with h
    · rw [List.filter_cons_of_neg (by simpa using h)]
    · rw [List.filter_cons_of_pos (by simpa using h), List.foldl_cons]

/-! ## The word scan -/

/-- The low `b` bits. -/
lemma getLsbD_lowMask {b : ℕ} (hb : b < 64) (k : ℕ) :
    ((1#64 <<< b) - 1#64).getLsbD k = decide (k < b) := by
  have hpow : 2 ^ b < 2 ^ 64 := Nat.pow_lt_pow_right (by decide) hb
  have hpos : 0 < 2 ^ b := Nat.two_pow_pos b
  have hnat : ((1#64 <<< b) - 1#64).toNat = 2 ^ b - 1 := by
    rw [BitVec.toNat_sub, BitVec.toNat_shiftLeft]
    simp only [BitVec.toNat_ofNat, Nat.shiftLeft_eq]
    omega
  rw [BitVec.getLsbD, hnat, Nat.testBit_two_pow_sub_one]

/-- A bit of the masked word is a clear frame at or after `start`. -/
lemma getLsbD_maskedWord (m : PhysicalMemoryManager) {start wordIdx k : ℕ}
    (hw : start >>> 6 ≤ wordIdx) (hk : k < 64) :
    (m.maskedWord start wordIdx).getLsbD k
      = (!m.bit ((wordIdx <<< 6) + k) && decide (start ≤ (wordIdx <<< 6) + k)) := by
  have hbit : (m.bitmap wordIdx).getLsbD k = m.bit ((wordIdx <<< 6) + k) :=
    getLsbD_eq_getBit m.bitmap wordIdx hk
  have hshl : wordIdx <<< 6 = wordIdx * 64 := Nat.shiftLeft_eq wordIdx 6
  rw [shiftRight_six] at hw
  have hmask : (if wordIdx = start >>> 6 then ~~~((1#64 <<< (start &&& 63)) - 1#64)
      else BitVec.allOnes 64).getLsbD k = decide (start ≤ (wordIdx <<< 6) + k) := by
    rw [shiftRight_six, and_sixtyThree, hshl]
    split_ifs with h
    · rw [BitVec.getLsbD_not, getLsbD_lowMask (Nat.mod_lt _ (by decide)), decide_eq_true hk,
        Bool.true_and, ← decide_not, decide_eq_decide]
      omega
    · rw [BitVec.getLsbD_allOnes, decide_eq_decide]
      omega
  rw [maskedWord, BitVec.getLsbD_and, BitVec.getLsbD_not, hmask, hbit, decide_eq_true hk,
    Bool.true_and]

/-- `f` is the lowest clear frame from `start` on. -/
def FirstFree (m : PhysicalMemoryManager) (start f : ℕ) : Prop :=
  start ≤ f ∧ f < m.totalFrames ∧ m.bit f = false ∧ ∀ g, start ≤ g → g < f → m.bit g = true

/-- The lowest bit of the masked word, when there is one. -/
lemma maskedWord_lowest (m : PhysicalMemoryManager) {start wordIdx : ℕ}
    (hw : start >>> 6 ≤ wordIdx) (h : m.maskedWord start wordIdx ≠ 0#64) :
    (m.maskedWord start wordIdx).ctz.toNat < 64 ∧
      m.bit ((wordIdx <<< 6) + (m.maskedWord start wordIdx).ctz.toNat) = false ∧
      start ≤ (wordIdx <<< 6) + (m.maskedWord start wordIdx).ctz.toNat ∧
      ∀ k < (m.maskedWord start wordIdx).ctz.toNat, start ≤ (wordIdx <<< 6) + k →
        m.bit ((wordIdx <<< 6) + k) = true := by
  have hlt : (m.maskedWord start wordIdx).ctz.toNat < 64 := by
    have := BitVec.ctz_lt_iff_ne_zero.mpr h
    rw [BitVec.lt_def] at this
    exact this
  have htrue := BitVec.getLsbD_true_ctz_of_ne_zero h
  rw [getLsbD_maskedWord m hw hlt, Bool.and_eq_true, Bool.not_eq_true', decide_eq_true_eq] at htrue
  refine ⟨hlt, htrue.1, htrue.2, fun k hk hstart => ?_⟩
  have hfalse := BitVec.getLsbD_false_of_lt_ctz hk
  rw [getLsbD_maskedWord m hw (by omega), decide_eq_true hstart, Bool.and_true,
    Bool.not_eq_false'] at hfalse
  exact hfalse

end PhysicalMemoryManager

end Masika
