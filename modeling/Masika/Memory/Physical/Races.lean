import Masika.Core.Threads
import Masika.Memory.Physical.Manager

/-!
# `alloc_frame` on two processors

`PhysicalMemoryManager` is shared: its methods take `&self`, and its counters are atomic.  The
bitmap is not.  `set_bit` reads a word and writes it back, and between the search for a clear bit
and that write anything can happen.  Here every access to the bitmap and to the counters is a turn
of its own.

* Without interruption the accesses do what `allocFrame` says (`allocFrame_uninterrupted`).
* With an interruption at the wrong moment two processors are given the same frame, whatever the
  bitmap looks like, as long as there is a frame to give (`allocFrame_gives_frame_twice`).
-/

namespace Masika

open PhysicalMemoryManager

/-! ## The code -/

/-- Where `alloc_frame` is: at its next access to memory, with what it has read. -/
inductive FramePlace where
  /-- before the call; the first access is `max_reserved_frame.load(..)` -/
  | outside
  /-- word `wordIdx` of the loop in `find_first_free_frame_from(start)` -/
  | scan (start wordIdx : ℕ)
  /-- the round `frame` of the second loop, with `get_bit(frame)` -/
  | test (frame : ℕ)
  /-- the two accesses of `set_bit(frame)` -/
  | readWord (frame : ℕ)
  | writeWord (frame : ℕ) (value : U64)
  /-- `used_frames.fetch_add(1, ..)`, and the accesses to `max_reserved_frame` -/
  | addUsed (frame : ℕ)
  | loadMax (frame : ℕ)
  | storeMax (frame : ℕ)

/-- One access.  The result is the address of a frame. -/
def frameTurn (m : PhysicalMemoryManager) :
    FramePlace → Option (PhysicalMemoryManager × FramePlace × Option (Option ℕ))
  | .outside => some (m, .scan m.maxReservedFrame (m.maxReservedFrame >>> 6), none)
  | .scan start wordIdx =>
    if wordIdx < (m.totalFrames + 63) >>> 6 then
      let word := m.maskedWord start wordIdx
      let frame := (wordIdx <<< 6) + word.ctz.toNat
      if word ≠ 0#64 ∧ frame < m.totalFrames then some (m, .readWord frame, none)
      else some (m, .scan start (wordIdx + 1), none)
    else some (m, .test 0, none)
  | .test frame =>
    if frame < m.totalFrames then
      if !m.getBit frame then some (m, .readWord frame, none)
      else some (m, .test (frame + 1), none)
    else some (m, .outside, some none)
  | .readWord frame =>
    if frame ≥ m.totalFrames then some (m, .addUsed frame, none)
    else some (m, .writeWord frame (m.bitmap (frame >>> 6)), none)
  | .writeWord frame value =>
    let word := value ||| 1#64 <<< (frame &&& 63)
    some ({ m with bitmap := Function.update m.bitmap (frame >>> 6) word }, .addUsed frame, none)
  | .addUsed frame => some ({ m with usedFrames := m.usedFrames + 1#64 }, .loadMax frame, none)
  | .loadMax frame =>
    if frame > m.maxReservedFrame then some (m, .storeMax frame, none)
    else some (m, .outside, some (some (frame * FRAME_SIZE)))
  | .storeMax frame =>
    some ({ m with maxReservedFrame := frame }, .outside, some (some (frame * FRAME_SIZE)))

/-- `alloc_frame` as code of threads. -/
def frameCode : ThreadCode PhysicalMemoryManager FramePlace Unit (Option ℕ) :=
  ⟨fun m place _ => frameTurn m place, fun _ _ _ => []⟩

/-- Accesses that follow each other without interruption. -/
abbrev FrameSteps (x y : PhysicalMemoryManager × FramePlace × List (Option ℕ)) : Prop :=
  StepsTo (Threads.uninterrupted frameCode ()) x y

/-! ## Without interruption -/

section Uninterrupted

variable (m : PhysicalMemoryManager) (ds : List (Option ℕ))

/-- One access that returns nothing. -/
lemma frameSteps_one {m m' : PhysicalMemoryManager} {place place' : FramePlace}
    {ds : List (Option ℕ)} (h : frameTurn m place = some (m', place', none)) :
    FrameSteps (m, place, ds) (m', place', ds) := by
  refine StepsTo.cons ?_ .refl
  rw [Threads.uninterrupted]
  simp [frameCode, h]

/-- One access that returns a result. -/
lemma frameSteps_return {m m' : PhysicalMemoryManager} {place place' : FramePlace}
    {ds : List (Option ℕ)} {result : Option ℕ}
    (h : frameTurn m place = some (m', place', some result)) :
    FrameSteps (m, place, ds) (m', place', ds ++ [result]) := by
  refine StepsTo.cons ?_ .refl
  rw [Threads.uninterrupted]
  simp [frameCode, h]

/-- The body of the loop over the words, as `find_first_free_frame_from` has it. -/
def scanWord (m : PhysicalMemoryManager) (start wordIdx : ℕ) : Option ℕ :=
  if m.maskedWord start wordIdx ≠ 0#64 then
    if (wordIdx <<< 6) + (m.maskedWord start wordIdx).ctz.toNat < m.totalFrames then
      some ((wordIdx <<< 6) + (m.maskedWord start wordIdx).ctz.toNat)
    else none
  else none

/-- The loop over the words; by induction on the number of words that are left. -/
lemma frameSteps_scan (start : ℕ) (left : ℕ) : ∀ wordIdx,
    ((m.totalFrames + 63) >>> 6) - wordIdx = left →
      FrameSteps (m, .scan start wordIdx, ds)
        (m, ((List.range' wordIdx left).findSome? (scanWord m start)).elim (.test 0) .readWord,
          ds) := by
  induction left with
  | zero =>
    intro wordIdx hend
    refine frameSteps_one ?_
    rw [frameTurn, if_neg (by omega)]
    rfl
  | succ left ih =>
    intro wordIdx hend
    rw [List.range'_succ, List.findSome?_cons]
    by_cases hfound : m.maskedWord start wordIdx ≠ 0#64 ∧
        (wordIdx <<< 6) + (m.maskedWord start wordIdx).ctz.toNat < m.totalFrames
    · have hword : scanWord m start wordIdx
          = some ((wordIdx <<< 6) + (m.maskedWord start wordIdx).ctz.toNat) := by
        rw [scanWord, if_pos hfound.1, if_pos hfound.2]
      rw [hword]
      refine frameSteps_one ?_
      rw [frameTurn, if_pos (by omega)]
      exact if_pos hfound
    · have hword : scanWord m start wordIdx = none := by
        rw [scanWord]
        split_ifs with hne hlt
        · exact absurd ⟨hne, hlt⟩ hfound
        · rfl
        · rfl
      rw [hword]
      refine .trans (frameSteps_one ?_) (ih (wordIdx + 1) (by omega))
      rw [frameTurn, if_pos (by omega)]
      exact if_neg hfound

/-- What the search has come to: the frame that will be taken, or the end of the call. -/
def searched (m : PhysicalMemoryManager) (ds : List (Option ℕ)) :
    Option ℕ → PhysicalMemoryManager × FramePlace × List (Option ℕ)
  | some frame => (m, .readWord frame, ds)
  | none => (m, .outside, ds ++ [none])

/-- The second loop, in the same way. -/
lemma frameSteps_test (left : ℕ) : ∀ frame, m.totalFrames - frame = left →
    FrameSteps (m, .test frame, ds)
      (searched m ds ((List.range' frame left).find? fun f => !m.getBit f)) := by
  induction left with
  | zero =>
    intro frame hend
    refine frameSteps_return ?_
    rw [frameTurn, if_neg (by omega)]
  | succ left ih =>
    intro frame hend
    rw [List.range'_succ, List.find?_cons]
    cases hbit : m.getBit frame with
    | false =>
      refine frameSteps_one ?_
      rw [frameTurn, if_pos (by omega), hbit]
      rfl
    | true =>
      refine .trans (frameSteps_one ?_) (ih (frame + 1) (by omega))
      rw [frameTurn, if_pos (by omega), hbit]
      rfl

/-- The frame that `alloc_frame` takes. -/
def chosenFrame (m : PhysicalMemoryManager) : Option ℕ :=
  (m.findFirstFreeFrameFrom m.maxReservedFrame).or
    ((List.range m.totalFrames).find? fun frame => !m.getBit frame)

lemma allocFrame_eq :
    m.allocFrame = ((chosenFrame m).map (· * FRAME_SIZE), (chosenFrame m).elim m m.takeFrame) := by
  rw [allocFrame, chosenFrame]
  cases m.findFirstFreeFrameFrom m.maxReservedFrame with
  | some frame => rfl
  | none =>
    rw [Option.none_or]
    cases (List.range m.totalFrames).find? fun frame => !m.getBit frame <;> rfl

lemma chosenFrame_lt {m : PhysicalMemoryManager} {frame : ℕ} (h : chosenFrame m = some frame) :
    frame < m.totalFrames := by
  rcases Option.or_eq_some_iff.mp h with hscan | ⟨-, htest⟩
  · obtain ⟨_, wordIdx, _, -, hword, -⟩ := List.findSome?_eq_some_iff.mp hscan
    have hword' : scanWord m m.maxReservedFrame wordIdx = some frame := hword
    rw [scanWord] at hword'
    split_ifs at hword' with hne hlt
    exact Option.some.inj hword' ▸ hlt
  · exact List.mem_range.mp (List.mem_of_find?_eq_some htest)

/-- The search of `alloc_frame` changes nothing. -/
lemma frameSteps_search : FrameSteps (m, .outside, ds) (searched m ds (chosenFrame m)) := by
  have hhint : FrameSteps (m, .outside, ds)
      (m, .scan m.maxReservedFrame (m.maxReservedFrame >>> 6), ds) := frameSteps_one rfl
  have hscan := hhint.trans (frameSteps_scan m ds m.maxReservedFrame _ _ rfl)
  have hfind : (List.range' (m.maxReservedFrame >>> 6)
      (((m.totalFrames + 63) >>> 6) - (m.maxReservedFrame >>> 6))).findSome?
        (scanWord m m.maxReservedFrame) = m.findFirstFreeFrameFrom m.maxReservedFrame := rfl
  rw [hfind] at hscan
  rw [chosenFrame]
  cases hfirst : m.findFirstFreeFrameFrom m.maxReservedFrame with
  | some frame =>
    rw [hfirst] at hscan
    exact hscan
  | none =>
    rw [hfirst] at hscan
    have htest := frameSteps_test m ds m.totalFrames 0 rfl
    rw [← List.range_eq_range'] at htest
    exact hscan.trans htest

/-- The last accesses, after the word has been written. -/
lemma frameSteps_finish (frame : ℕ) :
    FrameSteps (m, .addUsed frame, ds)
      ({ m with
          usedFrames := m.usedFrames + 1#64
          maxReservedFrame := if frame > m.maxReservedFrame then frame else m.maxReservedFrame },
        .outside, ds ++ [some (frame * FRAME_SIZE)]) := by
  refine .trans (frameSteps_one rfl) ?_
  by_cases hmax : frame > m.maxReservedFrame
  · rw [if_pos hmax]
    have hload : FrameSteps ({ m with usedFrames := m.usedFrames + 1#64 }, .loadMax frame, ds)
        ({ m with usedFrames := m.usedFrames + 1#64 }, .storeMax frame, ds) :=
      frameSteps_one (if_pos hmax)
    exact hload.trans (frameSteps_return rfl)
  · rw [if_neg hmax]
    exact frameSteps_return (if_neg hmax)

lemma frameSteps_take {frame : ℕ} (hlt : frame < m.totalFrames) :
    FrameSteps (m, .readWord frame, ds)
      (m.takeFrame frame, .outside, ds ++ [some (frame * FRAME_SIZE)]) := by
  have hread : FrameSteps (m, .readWord frame, ds)
      (m, .writeWord frame (m.bitmap (frame >>> 6)), ds) :=
    frameSteps_one (if_neg (not_le.mpr hlt))
  have hwrite : FrameSteps (m, .writeWord frame (m.bitmap (frame >>> 6)), ds)
      (m.setBit frame, .addUsed frame, ds) := by
    refine frameSteps_one ?_
    rw [PhysicalMemoryManager.setBit, if_neg (not_le.mpr hlt)]
    rfl
  have hfinish := frameSteps_finish (m.setBit frame) ds frame
  have htake : m.takeFrame frame = { m.setBit frame with
      usedFrames := (m.setBit frame).usedFrames + 1#64
      maxReservedFrame := if frame > (m.setBit frame).maxReservedFrame then frame
        else (m.setBit frame).maxReservedFrame } := by
    rw [takeFrame, PhysicalMemoryManager.setBit, if_neg (not_le.mpr hlt)]
  rw [htake]
  exact (hread.trans hwrite).trans hfinish

end Uninterrupted

/-- Threads that have not begun. -/
def frameStart (ι : Type*) (m : PhysicalMemoryManager) :
    Threads ι PhysicalMemoryManager FramePlace (Option ℕ) :=
  Threads.start m .outside

section Runs

variable {ι : Type*} [DecidableEq ι]

/-- **`alloc_frame` without interruption.**  When all turns are those of one thread, its accesses
end, return the address that `allocFrame` returns and leave what it leaves. -/
theorem allocFrame_uninterrupted (m : PhysicalMemoryManager) (t : ι) :
    ∃ n x, run (Threads.step frameCode) (frameStart ι m) (List.replicate n (t, ())) = some x ∧
      x.shared = m.allocFrame.2 ∧ x.answers t = [m.allocFrame.1] ∧ x.place t = .outside := by
  have hsteps : FrameSteps (m, .outside, []) (m.allocFrame.2, .outside, [m.allocFrame.1]) := by
    have hsearch := frameSteps_search m []
    rw [allocFrame_eq]
    cases hchosen : chosenFrame m with
    | none =>
      rw [hchosen] at hsearch
      exact hsearch
    | some frame =>
      rw [hchosen] at hsearch
      exact hsearch.trans (frameSteps_take m [] (chosenFrame_lt hchosen))
  obtain ⟨n, x, hturns, hmoved⟩ :=
    Threads.run_uninterrupted (t := t) (x := frameStart ι m) rfl hsteps
  have hown := hmoved.own
  simp only [Prod.mk.injEq] at hown
  exact ⟨n, x, hturns, hown.1, hown.2.2, hown.2.1⟩

/-- Writing the word a second time changes nothing. -/
lemma setBit_write_again {m : PhysicalMemoryManager} {frame : ℕ} (hlt : frame < m.totalFrames) :
    Function.update (m.takeFrame frame).bitmap (frame >>> 6)
      (m.bitmap (frame >>> 6) ||| 1#64 <<< (frame &&& 63)) = (m.takeFrame frame).bitmap := by
  have hbitmap : (m.takeFrame frame).bitmap = Function.update m.bitmap (frame >>> 6)
      (m.bitmap (frame >>> 6) ||| 1#64 <<< (frame &&& 63)) := by
    rw [takeFrame, PhysicalMemoryManager.setBit, if_neg (not_le.mpr hlt)]
    rfl
  rw [hbitmap, Function.update_idem]

/-- What the first thread does after the second one has taken the frame. -/
lemma frameSteps_late {m : PhysicalMemoryManager} {frame : ℕ} (hlt : frame < m.totalFrames) :
    FrameSteps (m.takeFrame frame, .writeWord frame (m.bitmap (frame >>> 6)), [])
      ({ m.takeFrame frame with usedFrames := (m.takeFrame frame).usedFrames + 1#64 }, .outside,
        [some (frame * FRAME_SIZE)]) := by
  have hwrite : FrameSteps (m.takeFrame frame, .writeWord frame (m.bitmap (frame >>> 6)), [])
      (m.takeFrame frame, .addUsed frame, []) := by
    refine frameSteps_one ?_
    rw [frameTurn, setBit_write_again hlt]
  have hmax : ¬ frame > (m.takeFrame frame).maxReservedFrame := by
    simp only [takeFrame]
    split_ifs <;> omega
  have hfinish := frameSteps_finish (m.takeFrame frame) [] frame
  rw [if_neg hmax] at hfinish
  exact hwrite.trans hfinish

/-- **Two processors are given the same frame.**  Whenever `alloc_frame` can give a frame, it can
give it to two threads at once: if the second one runs between the read and the write of `set_bit`,
both get the same address.  One bit is set, and `used_frames` has grown by two. -/
theorem allocFrame_gives_frame_twice {m m' : PhysicalMemoryManager} {addr : ℕ} {a b : ι}
    (hab : a ≠ b) (h : m.allocFrame = (some addr, m')) :
    ∃ turns x, run (Threads.step frameCode) (frameStart ι m) turns = some x ∧
      x.answers a = [some addr] ∧ x.answers b = [some addr] ∧
      x.shared = { m' with usedFrames := m'.usedFrames + 1#64 } := by
  rw [allocFrame_eq, Prod.mk.injEq] at h
  obtain ⟨haddr, rfl⟩ := h
  obtain ⟨frame, hchosen, rfl⟩ := Option.map_eq_some_iff.mp haddr
  have hlt := chosenFrame_lt hchosen
  have hsearch := frameSteps_search m []
  rw [hchosen] at hsearch ⊢
  -- the first thread has read the word, and is interrupted
  have hread : FrameSteps (m, .outside, []) (m, .writeWord frame (m.bitmap (frame >>> 6)), []) :=
    hsearch.trans (frameSteps_one (if_neg (not_le.mpr hlt)))
  obtain ⟨n₁, x₁, h₁, hmoved₁⟩ :=
    Threads.run_uninterrupted (t := a) (x := frameStart ι m) rfl hread
  have hown₁ := hmoved₁.own
  simp only [Prod.mk.injEq] at hown₁
  obtain ⟨hplace₁, hanswers₁⟩ := hmoved₁.others b hab.symm
  -- the second thread runs to its end
  have htake := hsearch.trans (frameSteps_take m [] hlt)
  obtain ⟨n₂, x₂, h₂, hmoved₂⟩ :=
    Threads.run_uninterrupted (t := b) (x := x₁) (by rw [hown₁.1, hplace₁, hanswers₁]; rfl) htake
  have hown₂ := hmoved₂.own
  simp only [Prod.mk.injEq] at hown₂
  obtain ⟨hplace₂, hanswers₂⟩ := hmoved₂.others a hab
  -- the first one goes on
  obtain ⟨n₃, x₃, h₃, hmoved₃⟩ := Threads.run_uninterrupted (t := a) (x := x₂)
    (by rw [hown₂.1, hplace₂, hanswers₂, hown₁.2.1, hown₁.2.2]) (frameSteps_late hlt)
  have hown₃ := hmoved₃.own
  simp only [Prod.mk.injEq] at hown₃
  refine ⟨.replicate n₁ (a, ()) ++ (.replicate n₂ (b, ()) ++ .replicate n₃ (a, ())), x₃, ?_,
    hown₃.2.2, ?_, hown₃.1⟩
  · rw [run_append, h₁, Option.bind_some, run_append, h₂, Option.bind_some, h₃]
  · rw [(hmoved₃.others b hab.symm).2, hown₂.2.2]
    rfl

end Runs

/-- Four frames, the first of which is taken. -/
def fourFrames : PhysicalMemoryManager := .new 0x4000#64 fun _ => 1#64

/-- Two threads and four frames. -/
theorem allocFrame_gives_frame_twice_of_four :
    ∃ turns x, run (Threads.step frameCode) (frameStart Bool fourFrames) turns = some x ∧
      x.answers true = [some 0x1000] ∧ x.answers false = [some 0x1000] := by
  have hfirst : fourFrames.allocFrame.1 = some 0x1000 := by decide +kernel
  have halloc : fourFrames.allocFrame = (some 0x1000, fourFrames.allocFrame.2) := by
    rw [← hfirst]
  obtain ⟨turns, x, hrun, htrue, hfalse, -⟩ :=
    allocFrame_gives_frame_twice (a := true) (b := false) (by decide) halloc
  exact ⟨turns, x, hrun, htrue, hfalse⟩

end Masika
