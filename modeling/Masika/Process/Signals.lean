import Masika.Process.ControlBlock
import Masika.Syscall.Extra

/-!
# Pending signals

`add_signal` and `clear_signal` of `scheduler/pcb.rs` keep the pending signals of a process in a
word, one bit for each.  Two things go wrong.

* Signal 64, which `syscall_sigaction` accepts, asks for a shift by all of the word.  A build with
  overflow checks stops; in one without, the bit is bit 0, which no other signal has.
* A signal that is masked when it is added is not recorded at all, and so it is not pending when it
  is no longer masked.

What the two functions do to a block apart from stopping is `effect`.  Over a run, a signal is
pending if and only if it was added while it was not masked and has not been cleared since
(`pending_run`); `signalsKept_iff` compares that with what should be pending.
-/

namespace Masika

/-! ## The code -/

namespace ControlBlock

/-- Whether a signal waits, outside of the kernel. -/
def hasPendingSignals (b : ControlBlock) : Bool := b.pendingSignals != 0#64 && !b.inKernel

/-- Clear the bit of a signal. -/
def clearSignal (checks : Bool) (b : ControlBlock) (sig : U8) : Option ControlBlock := do
  let bit ← shlWith checks 1#64 sig
  some { b with pendingSignals := b.pendingSignals &&& ~~~bit }

/-- Set the bit of a signal, unless it is masked. -/
def addSignal (checks : Bool) (b : ControlBlock) (sig : U8) : Option ControlBlock := do
  let bit ← shlWith checks 1#64 sig
  if b.signalMask &&& bit = 0#64 then
    let bit ← shlWith checks 1#64 sig
    some { b with pendingSignals := b.pendingSignals ||| bit }
  else some b

end ControlBlock

/-- A number that `syscall_sigaction` accepts. -/
abbrev Signal := { sig : U8 // syscallSigaction (sig.setWidth 32) = .ok 0#64 }

/-- The calls, and a store to `signal_mask`. -/
inductive SignalOp where
  | add (s : Signal)
  | clear (s : Signal)
  | setMask (mask : U64)

/-- One call. -/
def signalStep (checks : Bool) (b : ControlBlock) : SignalOp → Option ControlBlock
  | .add s => b.addSignal checks s.val
  | .clear s => b.clearSignal checks s.val
  | .setMask mask => some { b with signalMask := mask }

/-! ## The bit of a signal -/

/-- The numbers of signals are 1 to 64. -/
lemma syscallSigaction_eq_ok {sig : U8} :
    syscallSigaction (sig.setWidth 32) = .ok 0#64 ↔ 1 ≤ sig.toNat ∧ sig.toNat ≤ 64 := by
  have hlt := sig.isLt
  have hwide : (sig.setWidth 32).toNat = sig.toNat := by
    rw [BitVec.toNat_setWidth, Nat.mod_eq_of_lt (by omega)]
  have hsmall : (sig.setWidth 32).toInt = sig.toNat := by
    rw [BitVec.toInt_eq_toNat_of_lt (by omega), hwide]
  rw [syscallSigaction, hsmall]
  split_ifs with hout
  · exact iff_of_false (by simp) (by omega)
  · exact iff_of_true rfl (by omega)

namespace Signal

lemma range (s : Signal) : 1 ≤ s.val.toNat ∧ s.val.toNat ≤ 64 :=
  syscallSigaction_eq_ok.mp s.property

/-- Where a signal is in the words: the place that the shift leads to. -/
def place (s : Signal) : ℕ := s.val.toNat % 64

lemma place_lt (s : Signal) : s.place < 64 := Nat.mod_lt _ (by decide)

/-- No two signals have the same bit. -/
lemma place_inj {s t : Signal} : s.place = t.place ↔ s = t := by
  refine ⟨fun h => Subtype.ext (BitVec.eq_of_toNat_eq ?_), fun h => by rw [h]⟩
  have hs := s.range
  have ht := t.range
  simp only [place] at h
  omega

/-- The shift for a signal. -/
lemma shlWith_one (checks : Bool) (s : Signal) :
    shlWith checks 1#64 s.val = orStop checks (decide (64 ≤ s.val.toNat)) (1#64 <<< s.place) := rfl

end Signal

namespace ControlBlock

/-- The pending bit of `s`. -/
def pending (b : ControlBlock) (s : Signal) : Bool := b.pendingSignals.getLsbD s.place

/-- The mask bit of `s`. -/
def masked (b : ControlBlock) (s : Signal) : Bool := b.signalMask.getLsbD s.place

end ControlBlock

/-! ## One operation -/

namespace SignalOp

/-- The number that an operation is about. -/
def signal : SignalOp → Option Signal
  | .add s => some s
  | .clear s => some s
  | .setMask _ => none

/-- The operation shifts by more than the word has. -/
def overflows (op : SignalOp) : Bool := op.signal.any fun s => decide (64 ≤ s.val.toNat)

/-- What becomes of the pending signals. -/
def pendingAfter (b : ControlBlock) : SignalOp → U64
  | .add s => if b.masked s then b.pendingSignals else b.pendingSignals ||| (1#64 <<< s.place)
  | .clear s => b.pendingSignals &&& ~~~(1#64 <<< s.place)
  | .setMask _ => b.pendingSignals

/-- What becomes of the mask. -/
def maskAfter (mask : U64) : SignalOp → U64
  | .setMask mask' => mask'
  | _ => mask

/-- What a call does to a block. -/
def effect (b : ControlBlock) (op : SignalOp) : ControlBlock :=
  { b with pendingSignals := op.pendingAfter b, signalMask := op.maskAfter b.signalMask }

end SignalOp

section Step

variable {checks : Bool} {b b' : ControlBlock} {op op' : SignalOp} {s t : Signal}

lemma signalMask_and_eq_zero (b : ControlBlock) (s : Signal) :
    b.signalMask &&& (1#64 <<< s.place) = 0#64 ↔ b.masked s = false := by
  rw [ControlBlock.masked, ← and_one_shl_ne_zero _ s.place_lt, bne_eq_false_iff_eq]

/-- **One operation**: it stops at a shift that is too long, and otherwise it has its effect. -/
lemma signalStep_eq (checks : Bool) (b : ControlBlock) (op : SignalOp) :
    signalStep checks b op = orStop checks op.overflows (op.effect b) := by
  cases op with
  | add s =>
    have hmask := signalMask_and_eq_zero b s
    simp only [signalStep, ControlBlock.addSignal, s.shlWith_one, SignalOp.overflows,
      SignalOp.signal, Option.any_some, SignalOp.effect, SignalOp.pendingAfter,
      SignalOp.maskAfter]
    cases hstop : checks && decide (64 ≤ s.val.toNat) with
    | true => simp [orStop, hstop]
    | false =>
      cases hm : b.masked s with
      | true => simp [orStop, hstop, hmask, hm]
      | false => simp [orStop, hstop, hmask, hm]
  | clear s =>
    simp only [signalStep, ControlBlock.clearSignal, s.shlWith_one, SignalOp.overflows,
      SignalOp.signal, Option.any_some, SignalOp.effect, SignalOp.pendingAfter,
      SignalOp.maskAfter]
    cases hstop : checks && decide (64 ≤ s.val.toNat) with
    | true => simp [orStop, hstop]
    | false => simp [orStop, hstop]
  | setMask mask => rw [SignalOp.overflows, SignalOp.signal, Option.any_none, orStop_false]; rfl

lemma effect_of_signalStep (h : signalStep checks b op = some b') : b' = op.effect b := by
  rw [signalStep_eq, orStop_eq_some] at h
  exact h.2.symm

/-- The bit of a signal, after an operation on that signal. -/
lemma pending_effect_self (b : ControlBlock) (s : Signal) :
    ((SignalOp.add s).effect b).pending s = (b.pending s || !b.masked s) ∧
      ((SignalOp.clear s).effect b).pending s = false := by
  constructor
  · simp only [ControlBlock.pending, SignalOp.effect, SignalOp.pendingAfter]
    cases b.masked s with
    | true => simp
    | false => simp [getLsbD_one_shl s.place_lt]
  · simp [ControlBlock.pending, SignalOp.effect, SignalOp.pendingAfter,
      getLsbD_one_shl s.place_lt]

/-- The bit of a signal, after an operation that is not on that signal. -/
lemma pending_effect_other (b : ControlBlock) (hne : op.signal ≠ some s) :
    (op.effect b).pending s = b.pending s := by
  cases op with
  | add t =>
    have hplace : s.place ≠ t.place := fun h => hne (by rw [Signal.place_inj.mp h]; rfl)
    simp only [ControlBlock.pending, SignalOp.effect, SignalOp.pendingAfter]
    cases b.masked t with
    | true => simp
    | false => simp [getLsbD_one_shl t.place_lt, hplace]
  | clear t =>
    have hplace : s.place ≠ t.place := fun h => hne (by rw [Signal.place_inj.mp h]; rfl)
    simp only [ControlBlock.pending, SignalOp.effect, SignalOp.pendingAfter,
      BitVec.getLsbD_and, BitVec.getLsbD_not, getLsbD_one_shl t.place_lt, hplace]
    simp [s.place_lt]
  | setMask mask => rfl

/-- Whether a signal is pending afterwards. -/
lemma pending_effect_iff (b : ControlBlock) (op : SignalOp) (s : Signal) :
    (op.effect b).pending s = true ↔
      (op = .add s ∧ b.masked s = false) ∨ (op ≠ .clear s ∧ b.pending s = true) := by
  by_cases hsignal : op.signal = some s
  · cases op with
    | add t =>
      obtain rfl : t = s := Option.some.inj hsignal
      rw [(pending_effect_self b t).1]
      simp [or_comm]
    | clear t =>
      obtain rfl : t = s := Option.some.inj hsignal
      simp [(pending_effect_self b t).2]
    | setMask mask => cases hsignal
  · have hadd : op ≠ .add s := fun h => hsignal (h ▸ rfl)
    have hclear : op ≠ .clear s := fun h => hsignal (h ▸ rfl)
    rw [pending_effect_other b hsignal]
    simp [hadd, hclear]

/-- Every bit belongs to a signal: bit 0 to signal 64. -/
lemma exists_place {j : ℕ} (hj : j < 64) : ∃ s : Signal, s.place = j := by
  have hnat : (BitVec.ofNat 8 (if j = 0 then 64 else j)).toNat = if j = 0 then 64 else j := by
    rw [BitVec.toNat_ofNat, Nat.mod_eq_of_lt]
    split_ifs <;> omega
  refine ⟨⟨BitVec.ofNat 8 (if j = 0 then 64 else j), syscallSigaction_eq_ok.mpr ?_⟩, ?_⟩
  · rw [hnat]
    split_ifs <;> omega
  · rw [Signal.place, hnat]
    split_ifs <;> omega

/-- The operations on one signal look only at the bits of that signal. -/
lemma pending_effect_congr {c : ControlBlock} (hmask : b.signalMask = c.signalMask)
    (hpending : b.pending s = c.pending s) (op : SignalOp) :
    (op.effect b).pending s = (op.effect c).pending s := by
  have hmasked : b.masked s = c.masked s := by rw [ControlBlock.masked, hmask]; rfl
  rw [Bool.eq_iff_iff, pending_effect_iff, pending_effect_iff, hmasked, hpending]

lemma effect_signalMask (h : op.signal = some s) (b : ControlBlock) :
    (op.effect b).signalMask = b.signalMask := by
  cases op with
  | add t => rfl
  | clear t => rfl
  | setMask mask => cases h

/-- **Operations on different signals commute.** -/
lemma effect_comm (hs : op.signal = some s) (ht : op'.signal = some t) (hne : s ≠ t)
    (b : ControlBlock) : op'.effect (op.effect b) = op.effect (op'.effect b) := by
  have hbits : ∀ u : Signal,
      (op'.effect (op.effect b)).pending u = (op.effect (op'.effect b)).pending u := by
    intro u
    by_cases hu : op'.signal = some u
    · have hu' : op.signal ≠ some u := by
        rw [hs, ← hu, ht]
        simpa using hne
      rw [pending_effect_other (op'.effect b) hu']
      exact pending_effect_congr (effect_signalMask hs b) (pending_effect_other b hu') op'
    · rw [pending_effect_other (op.effect b) hu]
      exact pending_effect_congr (effect_signalMask ht b).symm (pending_effect_other b hu).symm op
  have hword : (op'.effect (op.effect b)).pendingSignals =
      (op.effect (op'.effect b)).pendingSignals := by
    refine BitVec.eq_of_getLsbD_eq fun j hj => ?_
    obtain ⟨u, rfl⟩ := exists_place hj
    exact hbits u
  have hmask : (op'.effect (op.effect b)).signalMask = (op.effect (op'.effect b)).signalMask := by
    rw [effect_signalMask ht, effect_signalMask hs, effect_signalMask hs, effect_signalMask ht]
  rw [SignalOp.effect, ControlBlock.mk.injEq]
  exact ⟨hmask, hword, rfl, rfl, rfl, rfl, rfl⟩

end Step

/-! ## Runs -/

/-- The mask after the operations in `hist` on a new block. -/
def maskOf (hist : List SignalOp) : U64 := hist.foldl SignalOp.maskAfter 0#64

/-- A signal was added, and it has not been cleared since. -/
def Sent (s : Signal) (hist : List SignalOp) : Prop :=
  Since (fun _ op => op = .add s) (· = .clear s) hist

/-- A signal was added while it was not masked, and it has not been cleared since. -/
def SentUnmasked (s : Signal) (hist : List SignalOp) : Prop :=
  Since (fun before op => op = .add s ∧ (maskOf before).getLsbD s.place = false) (· = .clear s) hist

lemma maskOf_concat (hist : List SignalOp) (op : SignalOp) :
    maskOf (hist ++ [op]) = op.maskAfter (maskOf hist) := by
  rw [maskOf, List.foldl_append]
  rfl

/-- **What is pending**, after any operations on a new block. -/
lemma pending_run {checks : Bool} {now : U64} {hist : List SignalOp} {b : ControlBlock}
    (h : run (signalStep checks) (.new now) hist = some b) :
    b.signalMask = maskOf hist ∧ ∀ s, b.pending s = true ↔ SentUnmasked s hist := by
  have hstart : (ControlBlock.new now).signalMask = maskOf [] ∧
      ∀ s, (ControlBlock.new now).pending s = true ↔ SentUnmasked s [] := by
    refine ⟨rfl, fun s => iff_of_false ?_ not_since_nil⟩
    simp [ControlBlock.pending, ControlBlock.new]
  refine run_history (P := fun hist b => b.signalMask = maskOf hist ∧
    ∀ s, b.pending s = true ↔ SentUnmasked s hist) ?_ hstart h
  rintro hist op b b' ⟨hmask, hpending⟩ hstep
  obtain rfl := effect_of_signalStep hstep
  refine ⟨by rw [maskOf_concat, ← hmask]; rfl, fun s => ?_⟩
  rw [pending_effect_iff, SentUnmasked, since_concat, hpending, ControlBlock.masked, hmask]
  rfl

/-- The operations come back, unless one is about signal 64. -/
lemma run_signalStep {checks : Bool} {ops : List SignalOp} (b : ControlBlock)
    (h : ∀ op ∈ ops, op.overflows = false) : ∃ b', run (signalStep checks) b ops = some b' := by
  have hmeets : Meets (fun _ op => op.overflows = false) (signalStep checks) b ops :=
    meets_of_forall_mem (fun op hop _ => h op hop) b
  obtain ⟨b', hb', -⟩ := run_total_of_meets (P := fun _ => True) (fun b op _ hop =>
    ⟨op.effect b, by rw [signalStep_eq, hop, orStop_false], trivial⟩) trivial hmeets
  exact ⟨b', hb'⟩

/-- **Signals are neither lost nor confused**, for a process that was created at time `now`. -/
structure SignalsKept (checks : Bool) (now : U64) (ops : List SignalOp) : Prop where
  shifts : ∀ op ∈ ops, op.overflows = false
  commute : ∀ op ∈ ops, ∀ op' ∈ ops, ∀ s t, op.signal = some s → op'.signal = some t → s ≠ t →
    ∀ b, (signalStep checks b op).bind (signalStep checks · op') =
      (signalStep checks b op').bind (signalStep checks · op)
  apart : ∀ op ∈ ops, ∀ s t, op.signal = some s → s ≠ t →
    ∀ b b', signalStep checks b op = some b' → b'.pending t = b.pending t
  kept : ∀ hist, hist <+: ops → ∀ b, run (signalStep checks) (.new now) hist = some b →
    ∀ s, Sent s hist → b.masked s = false →
      b.pending s = true ∧ (b.inKernel = false → b.hasPendingSignals = true)

/-- A pending signal is noticed. -/
lemma hasPendingSignals_of_pending {b : ControlBlock} {s : Signal} (h : b.pending s = true)
    (hk : b.inKernel = false) : b.hasPendingSignals = true := by
  have hne : b.pendingSignals ≠ 0#64 := by
    intro hzero
    rw [ControlBlock.pending, hzero, BitVec.getLsbD_zero] at h
    cases h
  simp [ControlBlock.hasPendingSignals, hne, hk]

/-- Only signal 64 asks for a shift that is too long. -/
lemma overflows_eq_false {op : SignalOp} :
    op.overflows = false ↔ ∀ s, op.signal = some s → s.val ≠ 64#8 := by
  rw [SignalOp.overflows]
  cases op.signal with
  | none => simp
  | some s =>
    have hrange := s.range
    have hval : s.val = 64#8 ↔ s.val.toNat = 64 := by rw [← BitVec.toNat_inj]; rfl
    simp only [Option.any_some, decide_eq_false_iff_not, Option.some.injEq, forall_eq', ne_eq,
      hval]
    omega

/-- **When signals are neither lost nor confused.**  No operation is about signal 64; and at no time
there is a signal that is not masked, and that has been added since it was cleared last, but only
ever while it was masked. -/
theorem signalsKept_iff (checks : Bool) (now : U64) (ops : List SignalOp) :
    SignalsKept checks now ops ↔
      (∀ op ∈ ops, ∀ s, op.signal = some s → s.val ≠ 64#8) ∧
        ∀ hist, hist <+: ops → ∀ s, Sent s hist → (maskOf hist).getLsbD s.place = false →
          SentUnmasked s hist := by
  constructor
  · intro h
    refine ⟨fun op hop => overflows_eq_false.mp (h.shifts op hop), ?_⟩
    intro hist hpast s hsent hmask
    obtain ⟨b, hrun⟩ := run_signalStep (.new now) fun op hop => h.shifts op (hpast.subset hop)
    obtain ⟨hmaskOf, hpending⟩ := pending_run hrun
    refine (hpending s).mp (h.kept hist hpast b hrun s hsent ?_).1
    rw [ControlBlock.masked, hmaskOf]
    exact hmask
  · rintro ⟨hshifts, hunmasked⟩
    have hstep : ∀ op ∈ ops, ∀ b, signalStep checks b op = some (op.effect b) := by
      intro op hop b
      rw [signalStep_eq, overflows_eq_false.mpr (hshifts op hop), orStop_false]
    refine ⟨fun op hop => overflows_eq_false.mpr (hshifts op hop), ?_, ?_, ?_⟩
    · intro op hop op' hop' s t hs ht hne b
      rw [hstep op hop, hstep op' hop', Option.bind_some, Option.bind_some, hstep op hop,
        hstep op' hop', effect_comm hs ht hne]
    · intro op _ s t hs hne b b' hb'
      obtain rfl := effect_of_signalStep hb'
      exact pending_effect_other b (by rw [hs]; simpa using hne)
    · intro hist hpast b hrun s hsent hmask
      obtain ⟨hmaskOf, hpending⟩ := pending_run hrun
      rw [ControlBlock.masked, hmaskOf] at hmask
      have hset : b.pending s = true := (hpending s).mpr (hunmasked hist hpast s hsent hmask)
      exact ⟨hset, hasPendingSignals_of_pending hset⟩

/-- Signal number 5. -/
def sigTrap : Signal := ⟨5#8, rfl⟩

/-- **Signal 5 is masked, added and no longer masked**: it is not pending.  And adding signal 64
stops a build with overflow checks. -/
theorem masked_signal_lost :
    (∃ b, run (signalStep false) (.new 0#64)
        [.setMask (1#64 <<< 5), .add sigTrap, .setMask 0#64] = some b ∧
      b.signalMask = 0#64 ∧ b.hasPendingSignals = false) ∧
    ¬ SignalsKept false 0#64 [.setMask (1#64 <<< 5), .add sigTrap, .setMask 0#64] ∧
    (ControlBlock.new 0#64).addSignal true 64#8 = none := by
  refine ⟨⟨_, rfl, rfl, rfl⟩, fun h => ?_, rfl⟩
  have hsent : Sent sigTrap [.setMask (1#64 <<< 5), .add sigTrap, .setMask 0#64] :=
    ⟨[.setMask (1#64 <<< 5)], .add sigTrap, [.setMask 0#64], rfl, rfl, by simp⟩
  have hpending := (h.kept _ List.prefix_rfl _ rfl sigTrap hsent rfl).1
  exact absurd hpending (by decide)

end Masika
