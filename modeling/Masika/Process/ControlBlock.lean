import Masika.Core.BitPacked
import Masika.Core.Overflow
import Masika.Core.Runs

/-!
# Process control blocks

`ProcessControlBlock` of `scheduler/pcb.rs`, with the fields that its methods on signals, times and
names use.  The time-stamp counter is read once by each function that reads it, and the reading is
an argument here.

The second half is about `update_cpu_time`, which adds the time since the last call.  A new block
records the time of its creation in `start_time` but not in `last_switch_time`, so that the first
call adds the time since the processor was reset.  `cpuTimeBounded_iff` says what follows: only a
process that was created at time 0 has a `cpu_time` within its lifetime.
-/

namespace Masika

/-- `[u8; 16]`. -/
abbrev Comm := { bytes : List UInt8 // bytes.length = 16 }

/-- The fields of `ProcessControlBlock` that the functions here use. -/
structure ControlBlock where
  signalMask : U64
  pendingSignals : U64
  startTime : U64
  cpuTime : U64
  lastSwitchTime : U64
  inKernel : Bool
  comm : Comm

namespace ControlBlock

/-- `ProcessControlBlock::new`, at time `now`. -/
def new (now : U64) : ControlBlock where
  signalMask := 0#64
  pendingSignals := 0#64
  startTime := now
  cpuTime := 0#64
  lastSwitchTime := 0#64
  inKernel := false
  comm := ⟨List.replicate 16 0, rfl⟩

/-- Charge the time since the last switch. -/
def updateCpuTime (checks : Bool) (b : ControlBlock) (now : U64) : Option ControlBlock := do
  let ran ← subWith checks now b.lastSwitchTime
  let cpuTime ← addWith checks b.cpuTime ran
  some { b with cpuTime := cpuTime, lastSwitchTime := now }

/-! ## Times -/

/-- What is expected of one call of `update_cpu_time` at time `now`. -/
structure CpuTimeUpdated (checks : Bool) (b : ControlBlock) (now : U64) (b' : ControlBlock) :
    Prop where
  no_underflow : b.lastSwitchTime ≤ now
  updated : updateCpuTime checks b now = some b'
  increasing : b.cpuTime ≤ b'.cpuTime
  bounded : b'.cpuTime.toNat ≤ now.toNat - b'.startTime.toNat

/-- Every call with one of the `readings` is as expected. -/
def CpuTimeBounded (checks : Bool) (start : U64) (readings : List U64) : Prop :=
  ∀ before now, before ++ [now] <+: readings →
    ∃ b b', run (updateCpuTime checks) (new start) before = some b ∧
      CpuTimeUpdated checks b now b'

/-- All the time before `now` has been counted, and none after it. -/
structure CaughtUp (start now : U64) (b : ControlBlock) : Prop where
  startTime : b.startTime = start
  cpuTime : b.cpuTime = now
  lastSwitchTime : b.lastSwitchTime = now

lemma counted_new (start : U64) : CaughtUp start 0#64 (new start) := ⟨rfl, rfl, rfl⟩

section Updates

variable (checks : Bool) {start last now : U64} {b : ControlBlock}

/-- **One call** counts the time up to `now`. -/
lemma CaughtUp.update (h : CaughtUp start last b) (hle : last ≤ now) :
    ∃ b', updateCpuTime checks b now = some b' ∧ CaughtUp start now b' := by
  have hsub : (now - last).toNat = now.toNat - last.toNat := BitVec.toNat_sub_of_le hle
  have hlast : last.toNat ≤ now.toNat := hle
  have hadd : last + (now - last) = now := by rw [BitVec.add_comm, BitVec.sub_add_cancel]
  refine ⟨{ b with cpuTime := now, lastSwitchTime := now }, ?_, h.startTime, rfl, rfl⟩
  rw [updateCpuTime, h.lastSwitchTime, subWith_of_le hle, h.cpuTime]
  simp only [Option.bind_eq_bind, Option.bind_some]
  rw [addWith_of_fits (by have := now.isLt; omega), hadd, Option.bind_some]

/-- **All calls**, by induction on the readings: the next one finds a block that is up to date. -/
lemma CaughtUp.run : ∀ {before : List U64} {last : U64} {b : ControlBlock},
    CaughtUp start last b → (last :: (before ++ [now])).Pairwise (· ≤ ·) →
      ∃ b' last', run (updateCpuTime checks) b before = some b' ∧ CaughtUp start last' b' ∧
        last' ≤ now := by
  intro before
  induction before with
  | nil =>
    intro last b h hsorted
    exact ⟨b, last, rfl, h, (List.pairwise_cons.mp hsorted).1 now List.mem_cons_self⟩
  | cons t before ih =>
    intro last b h hsorted
    obtain ⟨hlast, hrest⟩ := List.pairwise_cons.mp hsorted
    obtain ⟨b₁, hstep, hb₁⟩ := h.update checks (hlast t List.mem_cons_self)
    obtain ⟨b', last', hrun, hb'⟩ := ih hb₁ hrest
    exact ⟨b', last', run_cons_eq_some.mpr ⟨b₁, hstep, hrun⟩, hb'⟩

end Updates

/-- **When the CPU time is within the lifetime**, for a process that was created at time `start`:
the time-stamp counter was 0 then, or no time is ever counted. -/
theorem cpuTimeBounded_iff (checks : Bool) {start : U64} {readings : List U64}
    (hlater : (start :: readings).Pairwise (· ≤ ·)) :
    CpuTimeBounded checks start readings ↔ start = 0#64 ∨ readings = [] := by
  obtain ⟨hstart, hsorted⟩ := List.pairwise_cons.mp hlater
  constructor
  · intro h
    cases readings with
    | nil => exact .inr rfl
    | cons now readings =>
      -- the first call adds all of `now`
      obtain ⟨b, b', hrun, hcall⟩ := h [] now ⟨readings, rfl⟩
      obtain rfl : new start = b := Option.some.inj hrun
      obtain ⟨b'', hupdate, hcounted⟩ :=
        (counted_new start).update checks (show 0#64 ≤ now from Nat.zero_le _)
      obtain rfl : b'' = b' := Option.some.inj (hupdate.symm.trans hcall.updated)
      have hbound := hcall.bounded
      rw [hcounted.cpuTime, hcounted.startTime] at hbound
      have hle : start.toNat ≤ now.toNat := hstart now List.mem_cons_self
      refine .inl (BitVec.eq_of_toNat_eq ?_)
      rw [BitVec.toNat_ofNat, Nat.zero_mod]
      omega
  · rintro (rfl | rfl) before now hbegins
    · have hpast : (0#64 :: (before ++ [now])).Pairwise (· ≤ ·) :=
        List.pairwise_cons.mpr ⟨fun t _ => Nat.zero_le t.toNat, hsorted.sublist hbegins.sublist⟩
      obtain ⟨b, last, hrun, hb, hle⟩ := (counted_new 0#64).run checks hpast
      obtain ⟨b', hupdate, hb'⟩ := hb.update checks hle
      refine ⟨b, b', hrun, ?_, hupdate, ?_, ?_⟩
      · rw [hb.lastSwitchTime]
        exact hle
      · rw [hb.cpuTime, hb'.cpuTime]
        exact hle
      · rw [hb'.cpuTime, hb'.startTime]
        exact Nat.le_refl _
    · exact absurd (List.prefix_nil.mp hbegins) (by simp)

/-- A process that was created at time 0, and three calls. -/
theorem cpuTimeBounded_from_zero : CpuTimeBounded true 0#64 [5#64, 5#64, 9#64] :=
  (cpuTimeBounded_iff true (by decide)).mpr (.inl rfl)

/-- **A process that was created at time 1000**, and one call at time 1010: ten cycles later its
`cpu_time` is 1010. -/
theorem first_update_counts_boot :
    (updateCpuTime true (new 1000#64) 1010#64).map cpuTime = some 1010#64 ∧
      ¬ CpuTimeBounded true 1000#64 [1010#64] := by
  refine ⟨rfl, fun h => ?_⟩
  obtain ⟨b, b', hrun, hcall⟩ := h [] 1010#64 ⟨[], rfl⟩
  obtain rfl : new 1000#64 = b := Option.some.inj hrun
  obtain rfl : _ = b' := Option.some.inj hcall.updated
  exact absurd hcall.bounded (by decide)

end ControlBlock

end Masika
