import Masika.Core.Runs
import Masika.Memory.Physical.Allocation

/-!
# No frame is allocated twice

The manager does not record who owns what; its callers do.  Here they are put beside it: `live` is
the list of allocations that have been granted and not been given back, and a caller gives back
exactly what it has got.  `frames_owned_once` says that along any such run the bitmap and the
counter `used_frames` are the account of that list: the allocations are apart, a bit is set if and
only if its frame belongs to one of them, the counter is their total size, and an operation touches
no bit outside the allocation it creates or frees.

All six ways to allocate reduce to one lemma about `Grants` (`Accounted.grant`), both ways to free
to one lemma about `Drops` (`Accounted.drop`).
-/

namespace Masika

open Extent PhysicalMemoryManager

/-! ## The manager and its callers -/

/-- The manager, and what is in use. -/
structure Ownership where
  manager : PhysicalMemoryManager
  live : List Extent

/-- The calls of an owner. -/
inductive FrameOp where
  | allocFrame
  | allocFramesContiguous (count : ℕ)
  | allocAligned (align size : ℕ)
  | allocAt (addr : ℕ)
  | allocSpecificFrame (frame : ℕ)
  | validateAndAlloc (addr size : ℕ)
  | freeFrame (addr : ℕ)
  | freeFramesContiguous (addr count : ℕ)

namespace Ownership

/-- An allocation of `count` frames at the address that is returned, if any. -/
def ownAt (s : Ownership) (count : ℕ) : Option ℕ × PhysicalMemoryManager → Ownership
  | (none, m) => ⟨m, s.live⟩
  | (some addr, m) => ⟨m, ⟨addr / FRAME_SIZE, count⟩ :: s.live⟩

/-- An allocation of the extent that was asked for, or none. -/
def ownResult (s : Ownership) (e : Extent) :
    Except Unit Unit × PhysicalMemoryManager → Ownership
  | (.error (), m) => ⟨m, s.live⟩
  | (.ok (), m) => ⟨m, e :: s.live⟩

/-- The caller owns what was granted. -/
def ownIf (s : Ownership) (e : Extent) : Bool × PhysicalMemoryManager → Ownership
  | (false, m) => ⟨m, s.live⟩
  | (true, m) => ⟨m, e :: s.live⟩

/-- One call.  `none` when the caller breaks the rules: it asks for more frames than there are or
for a size that does not survive rounding, or it frees what is not a live allocation. -/
def step (s : Ownership) : FrameOp → Option Ownership
  | .allocFrame => some (s.ownAt 1 s.manager.allocFrame)
  | .allocFramesContiguous count =>
    if count ≤ s.manager.totalFrames then
      some (s.ownAt count (s.manager.allocFramesContiguous count))
    else none
  | .allocAligned align size =>
    if size + 4095 < 2 ^ 64 then
      some (s.ownAt ((size + 4095) / 4096) (s.manager.allocAligned align size))
    else none
  | .allocAt addr => some (s.ownResult ⟨addr / FRAME_SIZE, 1⟩ (s.manager.allocAt addr))
  | .allocSpecificFrame frame => some (s.ownResult ⟨frame, 1⟩ (s.manager.allocSpecificFrame frame))
  | .validateAndAlloc addr size =>
    if addr + size + 4095 < 2 ^ 64 then
      some (s.ownIf ⟨addr / 4096, (addr + size + 4095) / 4096 - addr / 4096⟩
        (s.manager.validateAndAlloc addr size))
    else none
  | .freeFrame addr =>
    if ⟨addr / FRAME_SIZE, 1⟩ ∈ s.live then
      some ⟨s.manager.freeFrame addr, s.live.erase ⟨addr / FRAME_SIZE, 1⟩⟩
    else none
  | .freeFramesContiguous addr count =>
    if ⟨addr / FRAME_SIZE, count⟩ ∈ s.live then
      some ⟨s.manager.freeFramesContiguous addr count,
        s.live.erase ⟨addr / FRAME_SIZE, count⟩⟩
    else none

/-- Bitmap and counter are the account of the live allocations. -/
structure Exclusive (s : Ownership) : Prop where
  apart : Apart s.live
  bounded : ∀ e ∈ s.live, ∀ f ∈ e.frames, f < s.manager.totalFrames
  bits : ∀ f < s.manager.totalFrames, s.manager.bit f = true ↔ ∃ e ∈ s.live, f ∈ e.frames
  used : s.manager.usedFrames.toNat = totalCount s.live

/-- Every bit outside `e` is the same. -/
def SameOutside (s s' : Ownership) (e : Extent) : Prop :=
  ∀ f, f ∉ e.frames → s'.manager.bit f = s.manager.bit f

/-- The step changes nothing, or creates one allocation, or frees one, and touches no bit outside
it. -/
def OnlyTouches (s s' : Ownership) : Prop :=
  (s'.live = s.live ∧ ∀ f, s'.manager.bit f = s.manager.bit f) ∨
  (∃ e, s'.live = e :: s.live ∧ SameOutside s s' e) ∨
  (∃ e ∈ s.live, s'.live = s.live.erase e ∧ SameOutside s s' e)

/-! ## What is kept -/

/-- The same account in terms of sets. -/
structure Accounted (s : Ownership) : Prop where
  apart : Apart s.live
  taken : s.manager.taken = covered s.live
  used : s.manager.usedFrames.toNat = totalCount s.live

lemma Accounted.exclusive {s : Ownership} (hs : Accounted s) : Exclusive s := by
  refine ⟨hs.apart, ?_, ?_, hs.used⟩
  · intro e he f hf
    have hcov : f ∈ covered s.live := mem_covered.mpr ⟨e, he, hf⟩
    rw [← hs.taken] at hcov
    exact (mem_taken.mp hcov).1
  · intro f hf
    rw [← mem_covered, ← hs.taken, mem_taken]
    exact ⟨fun hb => ⟨hf, hb⟩, fun hb => hb.2⟩

lemma accounted_reset (m : PhysicalMemoryManager) : Accounted ⟨m.resetAllBits, []⟩ :=
  ⟨List.Pairwise.nil, m.taken_resetAllBits, rfl⟩

/-- The frames taken fit into memory, so their number does not leave the counter. -/
lemma Accounted.totalCount_le {s : Ownership} (hs : Accounted s) :
    totalCount s.live ≤ s.manager.totalFrames := by
  rw [← card_covered hs.apart, ← hs.taken]
  exact s.manager.card_taken_le

/-- **A granted extent joins the live allocations.** -/
lemma Accounted.grant {s : Ownership} (hs : Accounted s) {m : PhysicalMemoryManager} {e : Extent}
    (h : Grants s.manager m e) : Accounted ⟨m, e :: s.live⟩ ∧ SameOutside s ⟨m, e :: s.live⟩ e := by
  obtain ⟨htaken, hdisj⟩ := h.sets.taken
  rw [hs.taken] at htaken hdisj
  have hapart : Apart (e :: s.live) := apart_cons.mpr ⟨hdisj, hs.apart⟩
  have hcov : m.taken = covered (e :: s.live) := by rw [htaken, covered, Finset.union_comm]
  have hle : totalCount (e :: s.live) ≤ m.totalFrames := by
    rw [← card_covered hapart, ← hcov]
    exact m.card_taken_le
  have hsum : totalCount (e :: s.live) = e.count + totalCount s.live := rfl
  refine ⟨⟨hapart, hcov, ?_⟩, fun f hf => ?_⟩
  · have := m.total_lt
    rw [h.used, BitVec.toNat_add, BitVec.toNat_ofNat, hs.used, hsum]
    omega
  · rw [h.bits, decide_eq_false hf, Bool.or_false]

/-- **A live allocation that is dropped leaves the others as they are.** -/
lemma Accounted.drop {s : Ownership} (hs : Accounted s) {m : PhysicalMemoryManager} {e : Extent}
    (he : e ∈ s.live) (h : Drops s.manager m e.frames) :
    Accounted ⟨m, s.live.erase e⟩ ∧ SameOutside s ⟨m, s.live.erase e⟩ e := by
  obtain ⟨hapart, hcov, hsum⟩ := hs.apart.erase he
  have hsub : e.frames ⊆ s.manager.taken := by
    intro f hf
    rw [hs.taken]
    exact mem_covered.mpr ⟨e, he, hf⟩
  refine ⟨⟨hapart, by rw [h.taken, hs.taken, hcov], ?_⟩, fun f hf => ?_⟩
  · have hle := hs.totalCount_le
    have := s.manager.total_lt
    rw [h.used, Finset.inter_eq_right.mpr hsub, card_frames, BitVec.toNat_sub, BitVec.toNat_ofNat,
      hs.used]
    simp only
    omega
  · rw [h.bits]
    simp [hf]

/-! ## Steps -/

/-- What a step has to provide. -/
def Keeps (s s' : Ownership) : Prop := Accounted s' ∧ OnlyTouches s s'

lemma Accounted.keeps_grant {s : Ownership} (hs : Accounted s) {m : PhysicalMemoryManager}
    {e : Extent} (h : Grants s.manager m e) : Keeps s ⟨m, e :: s.live⟩ :=
  ⟨(hs.grant h).1, Or.inr (Or.inl ⟨e, rfl, (hs.grant h).2⟩)⟩

lemma Accounted.keeps_same {s : Ownership} (hs : Accounted s) {m : PhysicalMemoryManager}
    (h : m = s.manager) : Keeps s ⟨m, s.live⟩ := by
  subst h
  exact ⟨hs, Or.inl ⟨rfl, fun _ => rfl⟩⟩

lemma Accounted.keeps_drop {s : Ownership} (hs : Accounted s) {m : PhysicalMemoryManager}
    {e : Extent} (he : e ∈ s.live) (h : Drops s.manager m e.frames) :
    Keeps s ⟨m, s.live.erase e⟩ :=
  ⟨(hs.drop he h).1, Or.inr (Or.inr ⟨e, he, rfl, (hs.drop he h).2⟩)⟩

lemma Accounted.keeps_ownAt {s : Ownership} (hs : Accounted s) {count : ℕ}
    {result : Option ℕ × PhysicalMemoryManager} (h : s.manager.GrantsOrFails count result) :
    Keeps s (s.ownAt count result) := by
  obtain ⟨_ | addr, m⟩ := result
  · exact hs.keeps_same h
  · obtain ⟨start, rfl, hgrant⟩ := h
    have hstart : start * FRAME_SIZE / FRAME_SIZE = start := Nat.mul_div_cancel _ (by decide)
    rw [ownAt, hstart]
    exact hs.keeps_grant hgrant

lemma Accounted.keeps_ownResult {s : Ownership} (hs : Accounted s) {e : Extent}
    {result : Except Unit Unit × PhysicalMemoryManager} (h : match result.1 with
      | .error () => result.2 = s.manager
      | .ok () => Grants s.manager result.2 e) : Keeps s (s.ownResult e result) := by
  obtain ⟨_ | _, m⟩ := result
  · exact hs.keeps_same h
  · exact hs.keeps_grant h

lemma Accounted.keeps_ownIf {s : Ownership} (hs : Accounted s) {e : Extent}
    {result : Bool × PhysicalMemoryManager} (h : match result.1 with
      | false => result.2 = s.manager
      | true => Grants s.manager result.2 e) : Keeps s (s.ownIf e result) := by
  obtain ⟨_ | _, m⟩ := result
  · exact hs.keeps_same h
  · exact hs.keeps_grant h

/-- The frames that `free_frames_contiguous` goes through are those of the allocation. -/
lemma Accounted.framesFreed_eq {s : Ownership} (hs : Accounted s) {addr count : ℕ}
    (he : ⟨addr / FRAME_SIZE, count⟩ ∈ s.live) :
    (framesFreed addr count).toFinset = (⟨addr / FRAME_SIZE, count⟩ : Extent).frames := by
  cases count with
  | zero => simp [framesFreed, frames]
  | succ n =>
    have hlast := hs.exclusive.bounded _ he (addr / FRAME_SIZE + n)
      (mem_frames.mpr ⟨by simp, by simp⟩)
    have := s.manager.total_lt
    rw [framesFreed, map_wrap_range (by omega)]
    ext f
    rw [List.mem_toFinset, List.mem_range'_1, mem_frames]

/-- Every call keeps the account. -/
theorem Accounted.step {s s' : Ownership} (hs : Accounted s) {op : FrameOp}
    (h : s.step op = some s') : Keeps s s' := by
  cases op with
  | allocFrame =>
    rw [← Option.some.inj h]
    exact hs.keeps_ownAt s.manager.allocFrame_spec
  | allocFramesContiguous count =>
    simp only [Ownership.step, Option.ite_none_right_eq_some, Option.some.injEq] at h
    rw [← h.2]
    exact hs.keeps_ownAt (s.manager.allocFramesContiguous_spec (Or.inr h.1))
  | allocAligned align size =>
    simp only [Ownership.step, Option.ite_none_right_eq_some, Option.some.injEq] at h
    rw [← h.2, ← frameCeil_eq h.1]
    exact hs.keeps_ownAt (s.manager.allocAligned_spec align size)
  | allocAt addr =>
    rw [← Option.some.inj h]
    exact hs.keeps_ownResult (s.manager.allocAt_spec addr)
  | allocSpecificFrame frame =>
    rw [← Option.some.inj h]
    exact hs.keeps_ownResult (s.manager.allocSpecificFrame_spec frame)
  | validateAndAlloc addr size =>
    simp only [Ownership.step, Option.ite_none_right_eq_some, Option.some.injEq] at h
    have hspec := s.manager.validateAndAlloc_spec h.1
    rw [frameCeil_eq h.1] at hspec
    rw [← h.2]
    exact hs.keeps_ownIf hspec
  | freeFrame addr =>
    simp only [Ownership.step, Option.ite_none_right_eq_some, Option.some.injEq] at h
    have hframe : ({addr / FRAME_SIZE} : Finset ℕ)
        = (⟨addr / FRAME_SIZE, 1⟩ : Extent).frames := by simp [frames]
    have hspec := s.manager.freeFrame_spec addr
    rw [hframe] at hspec
    rw [← h.2]
    exact hs.keeps_drop h.1 hspec
  | freeFramesContiguous addr count =>
    simp only [Ownership.step, Option.ite_none_right_eq_some, Option.some.injEq] at h
    have hspec := s.manager.freeFramesContiguous_spec addr count
    rw [hs.framesFreed_eq h.1] at hspec
    rw [← h.2]
    exact hs.keeps_drop h.1 hspec

end Ownership

/-- **No double allocation.**  After any run from `reset_all_bits` the bitmap and `used_frames` are
the account of the live allocations, and whatever the next operation is, it touches no bit outside
the allocation it creates or frees. -/
theorem frames_owned_once (m : PhysicalMemoryManager) {ops : List FrameOp} {s : Ownership}
    (h : run Ownership.step ⟨m.resetAllBits, []⟩ ops = some s) :
    s.Exclusive ∧ ∀ op s', s.step op = some s' → s.OnlyTouches s' := by
  have hs : s.Accounted :=
    run_invariant (fun _ _ _ ha hstep => (Ownership.Accounted.step ha hstep).1)
      (Ownership.accounted_reset m) h
  exact ⟨hs.exclusive, fun _ _ hstep => (hs.step hstep).2⟩

/-- All ways to allocate on a machine with twenty frames, and both ways to free. -/
def sampleFrameOps : List FrameOp :=
  [.allocFrame, .allocFramesContiguous 3, .allocAligned 0x2000 5000, .allocAt 0x7abc,
    .allocSpecificFrame 12, .validateAndAlloc 0xdfff 2, .freeFramesContiguous 0x1000 3, .allocFrame,
    .freeFrame 0]

/-- Allocations of all kinds, and a release. -/
theorem frames_owned_once_sample :
    ∃ s, run Ownership.step ⟨(PhysicalMemoryManager.new 0x14000#64 fun _ => 0#64).resetAllBits, []⟩
        sampleFrameOps = some s ∧
      s.live = [⟨6, 1⟩, ⟨13, 2⟩, ⟨12, 1⟩, ⟨7, 1⟩, ⟨4, 2⟩] ∧ s.Exclusive := by
  have hcomp : (run Ownership.step
      ⟨(PhysicalMemoryManager.new 0x14000#64 fun _ => 0#64).resetAllBits, []⟩
        sampleFrameOps).map Ownership.live = some [⟨6, 1⟩, ⟨13, 2⟩, ⟨12, 1⟩, ⟨7, 1⟩, ⟨4, 2⟩] := by
    decide +kernel
  obtain ⟨s, hs, hlive⟩ := Option.map_eq_some_iff.mp hcomp
  exact ⟨s, hs, hlive, (frames_owned_once _ hs).1⟩

end Masika
