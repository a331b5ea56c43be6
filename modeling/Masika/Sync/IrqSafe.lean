import Masika.Sync.Spinlock

/-!
# The interrupt-safe spinlock

`IrqSafeSpinlock::lock` disables interrupts and calls `Spinlock::lock`; the drop of its guard
unlocks and enables them.  This file follows one CPU with any number of such locks.  What other CPUs
do shows in the exchange: it may fail any number of times.

* After 64 failures in a row `Spinlock::lock` disables interrupts, halts, and **enables** them, so
  the caller goes on with interrupts on.  The `hlt` is taken to return, as it does after a
  non-maskable interrupt.
* The drop enables interrupts whatever the flag was before, and whatever other guards are live.

`KeptOff` is what the lock promises.  `irqSafe_keptOff_iff` lists what breaks the promise: 64
failures, nested guards, and a caller that had interrupts off already.
-/

namespace Masika

/-- One CPU.  Guards are dropped in the reverse order of their acquisition. -/
structure IrqRun (ι : Type*) where
  /-- the interrupt flag -/
  interrupts : Bool
  /-- the lock that is being acquired, and the step of `Spinlock::lock` -/
  acquiring : Option (ι × SpinPc)
  /-- the locks of the live guards, the latest first -/
  guards : List ι
  /-- the interrupt flag before the first of the live guards was asked for -/
  before : Bool
  /-- how often the exchange has failed in this acquisition -/
  failures : ℕ

/-- What a processor does. -/
inductive IrqOp (ι : Type*) where
  /-- `IrqSafeSpinlock::lock` is called -/
  | lock (l : ι)
  /-- the next step of `Spinlock::lock`; an exchange fails if `fails` -/
  | step (fails : Bool)
  /-- the latest guard is dropped -/
  | drop

namespace IrqRun

variable {ι : Type*}

/-- Nothing is locked. -/
def start (interrupts : Bool) : IrqRun ι := ⟨interrupts, none, [], interrupts, 0⟩

/-- Interrupts are disabled, and `Spinlock::lock` begins. -/
def lock (x : IrqRun ι) (l : ι) : Option (IrqRun ι) :=
  match x.acquiring with
  | some _ => none
  | none =>
    some { x with
      interrupts := false
      acquiring := some (l, .lock 0)
      before := if x.guards.isEmpty then x.interrupts else x.before
      failures := 0 }

/-- The exchange.  It always fails on a lock that this CPU holds itself. -/
def exchange [DecidableEq ι] (x : IrqRun ι) (l : ι) (spinCount : ℕ) (fails : Bool) : IrqRun ι :=
  if fails || x.guards.contains l then
    { x with
      acquiring := some (l, SpinRun.lockFailed spinCount)
      failures := x.failures + 1 }
  else { x with acquiring := none, guards := l :: x.guards }

/-- One step of `lock`. -/
def step [DecidableEq ι] (x : IrqRun ι) (fails : Bool) : Option (IrqRun ι) :=
  match x.acquiring with
  | some (l, .lock spinCount) => some (x.exchange l spinCount fails)
  | some (l, .spin spinCount) => some { x with acquiring := some (l, .lock spinCount) }
  -- `disable`, `hlt`, `enable`
  | some (l, .halt) => some { x with interrupts := true, acquiring := some (l, .lock 0) }
  | _ => none

/-- The lock is released, and interrupts are enabled. -/
def drop (x : IrqRun ι) : Option (IrqRun ι) :=
  match x.acquiring, x.guards with
  | none, _ :: guards => some { x with interrupts := true, guards := guards }
  | _, _ => none

end IrqRun

variable {ι : Type*} [DecidableEq ι] {x x' : IrqRun ι}

/-- One event. -/
def irqStep (x : IrqRun ι) : IrqOp ι → Option (IrqRun ι)
  | .lock l => x.lock l
  | .step fails => x.step fails
  | .drop => x.drop

/-- Interrupts are off while a guard is live, and as they were before when none is. -/
structure KeptOff (x : IrqRun ι) : Prop where
  off : x.guards ≠ [] → x.interrupts = false
  restored : x.acquiring = none → x.guards = [] → x.interrupts = x.before

/-- The exchange of an acquisition succeeds. -/
def Succeeds (x : IrqRun ι) (fails : Bool) : Prop :=
  ∃ l spinCount, x.acquiring = some (l, .lock spinCount) ∧ (fails || x.guards.contains l) = false

/-- Which steps keep the promise.
* An exchange succeeds after fewer than 64 failures.
* The halt, which comes after 64 failures, is only reached when no other guard is live.
* The guard that is dropped is the only one, and interrupts were on before it. -/
def KeepsOff (x : IrqRun ι) : IrqOp ι → Prop
  | .lock _ => True
  | .step fails =>
    (Succeeds x fails → x.failures < 64) ∧ (∀ l, x.acquiring = some (l, .halt) → x.guards = [])
  | .drop => x.acquiring = none → x.guards ≠ [] → x.guards.length = 1 ∧ x.before = true

/-! ## Failures and the flag -/

/-- The flag at a step of an acquisition: it is off, and `spin_count` counts the failures, until
there have been 64 of them. -/
def FailuresAt (interrupts : Bool) (failures : ℕ) : SpinPc → Prop
  | .lock spinCount | .spin spinCount =>
    if interrupts then 64 ≤ failures else failures = spinCount ∧ spinCount < 64
  | .halt => 64 ≤ failures
  | _ => False

/-- The same in any state. -/
def FailuresCounted (x : IrqRun ι) : Prop :=
  ∀ l pc, x.acquiring = some (l, pc) → FailuresAt x.interrupts x.failures pc

/-- A failure is counted, and after 64 of them comes the halt. -/
lemma FailuresAt.failed {interrupts : Bool} {failures spinCount : ℕ}
    (h : FailuresAt interrupts failures (.lock spinCount)) :
    FailuresAt interrupts (failures + 1) (SpinRun.lockFailed spinCount) := by
  rw [SpinRun.lockFailed]
  cases interrupts with
  | true =>
    simp only [FailuresAt, if_true] at h
    split_ifs <;> simp only [FailuresAt, if_true] <;> omega
  | false =>
    simp only [FailuresAt, Bool.false_eq_true, if_false] at h
    split_ifs <;> simp only [FailuresAt, Bool.false_eq_true, if_false] <;> omega

/-- At the exchange, interrupts are off exactly until 64 failures have come before. -/
lemma FailuresAt.interrupts_iff {interrupts : Bool} {failures spinCount : ℕ}
    (h : FailuresAt interrupts failures (.lock spinCount)) :
    interrupts = false ↔ failures < 64 := by
  cases interrupts with
  | true =>
    simp only [FailuresAt, if_true] at h
    simp only [Bool.true_eq_false, false_iff]
    omega
  | false =>
    simp only [FailuresAt, Bool.false_eq_true, if_false] at h
    simp only [true_iff]
    omega

/-- What a step of `Spinlock::lock` does. -/
lemma irqRun_step_cases {fails : Bool} (h : x.step fails = some x') :
    (∃ l spinCount, x.acquiring = some (l, .lock spinCount) ∧
        (fails || x.guards.contains l) = false ∧
        x' = { x with acquiring := none, guards := l :: x.guards }) ∨
      (∃ l spinCount, x.acquiring = some (l, .lock spinCount) ∧
        (fails || x.guards.contains l) = true ∧
        x' = { x with
          acquiring := some (l, SpinRun.lockFailed spinCount)
          failures := x.failures + 1 }) ∨
      (∃ l spinCount, x.acquiring = some (l, .spin spinCount) ∧
        x' = { x with acquiring := some (l, .lock spinCount) }) ∨
      (∃ l, x.acquiring = some (l, .halt) ∧
        x' = { x with interrupts := true, acquiring := some (l, .lock 0) }) := by
  rw [IrqRun.step] at h
  split at h
  next l spinCount hacq =>
    rw [← Option.some.inj h, IrqRun.exchange]
    cases hfails : fails || x.guards.contains l with
    | false => exact .inl ⟨l, spinCount, hacq, hfails, if_neg (by simp)⟩
    | true => exact .inr (.inl ⟨l, spinCount, hacq, hfails, if_pos rfl⟩)
  next l spinCount hacq =>
    exact .inr (.inr (.inl ⟨l, spinCount, hacq, (Option.some.inj h).symm⟩))
  next l hacq => exact .inr (.inr (.inr ⟨l, hacq, (Option.some.inj h).symm⟩))
  · cases h

omit [DecidableEq ι] in
lemma irqRun_lock_eq {l : ι} (h : x.lock l = some x') :
    x.acquiring = none ∧ x'.interrupts = false ∧ x'.acquiring = some (l, .lock 0) ∧
      x'.guards = x.guards ∧ x'.failures = 0 := by
  rw [IrqRun.lock] at h
  cases hacq : x.acquiring with
  | some p =>
    rw [hacq] at h
    cases h
  | none =>
    rw [hacq] at h
    rw [← Option.some.inj h]
    exact ⟨rfl, rfl, rfl, rfl, rfl⟩

omit [DecidableEq ι] in
lemma irqRun_drop_eq (h : x.drop = some x') :
    x.acquiring = none ∧ ∃ l guards, x.guards = l :: guards ∧
      x' = { x with interrupts := true, guards := guards } := by
  rw [IrqRun.drop] at h
  split at h
  next l guards hacq hguards => exact ⟨hacq, l, guards, hguards, (Option.some.inj h).symm⟩
  · cases h

lemma FailuresCounted.irqStep {op : IrqOp ι} (h : FailuresCounted x)
    (hstep : irqStep x op = some x') : FailuresCounted x' := by
  cases op with
  | lock l =>
    obtain ⟨-, hoff, hacq, -, hfail⟩ := irqRun_lock_eq hstep
    intro l' pc hacq'
    rw [hacq] at hacq'
    cases hacq'
    simp [FailuresAt, hoff, hfail]
  | step fails =>
    rcases irqRun_step_cases hstep with ⟨l, c, hacq, -, rfl⟩ | ⟨l, c, hacq, -, rfl⟩ |
      ⟨l, c, hacq, rfl⟩ | ⟨l, hacq, rfl⟩
    · rintro l' pc ⟨⟩
    · rintro l' pc ⟨⟩
      exact (h l (.lock c) hacq).failed
    · rintro l' pc ⟨⟩
      exact h l (.spin c) hacq
    · rintro l' pc ⟨⟩
      exact h l .halt hacq
  | drop =>
    obtain ⟨-, l, guards, -, rfl⟩ := irqRun_drop_eq hstep
    intro l' pc hacq'
    rw [(irqRun_drop_eq hstep).1] at hacq'
    cases hacq'

/-! ## Which steps keep the promise -/

omit [DecidableEq ι] in
lemma keptOff_lock {l : ι} (hstep : x.lock l = some x') : KeptOff x' := by
  obtain ⟨-, hoff, hacq, -⟩ := irqRun_lock_eq hstep
  refine ⟨fun _ => hoff, fun hnone => ?_⟩
  rw [hacq] at hnone
  cases hnone

lemma keptOff_step_iff (hcount : FailuresCounted x) (h : KeptOff x) (fails : Bool) :
    KeepsOff x (.step fails) ↔ ∀ x', x.step fails = some x' → KeptOff x' := by
  constructor
  · rintro ⟨hsucceeds, hhalt⟩ x' hstep
    rcases irqRun_step_cases hstep with ⟨l, c, hacq, hfree, rfl⟩ | ⟨l, c, hacq, -, rfl⟩ |
      ⟨l, c, hacq, rfl⟩ | ⟨l, hacq, rfl⟩
    · have hoff := (hcount l _ hacq).interrupts_iff.mpr (hsucceeds ⟨l, c, hacq, hfree⟩)
      refine ⟨fun _ => hoff, ?_⟩
      rintro - ⟨⟩
    · refine ⟨h.off, ?_⟩
      rintro ⟨⟩
    · refine ⟨h.off, ?_⟩
      rintro ⟨⟩
    · refine ⟨fun hlive => absurd (hhalt l hacq) hlive, ?_⟩
      rintro ⟨⟩
  · intro hkept
    constructor
    · rintro ⟨l, c, hacq, hfree⟩
      have hstep : x.step fails = some { x with acquiring := none, guards := l :: x.guards } := by
        simp only [IrqRun.step, hacq, IrqRun.exchange, hfree, Bool.false_eq_true, if_false]
      exact (hcount l _ hacq).interrupts_iff.mp ((hkept _ hstep).off (List.cons_ne_nil _ _))
    · intro l hacq
      have hstep : x.step fails
          = some { x with interrupts := true, acquiring := some (l, .lock 0) } := by
        simp only [IrqRun.step, hacq]
      by_contra hlive
      have hoff := (hkept _ hstep).off hlive
      cases hoff

lemma keptOff_drop_iff : KeepsOff x .drop ↔ ∀ x', x.drop = some x' → KeptOff x' := by
  constructor
  · intro hok x' hstep
    obtain ⟨hacq, l, guards, hguards, rfl⟩ := irqRun_drop_eq hstep
    obtain ⟨hone, hbefore⟩ := hok hacq (by simp [hguards])
    have hnil : guards = [] := by
      rw [hguards, List.length_cons] at hone
      exact List.length_eq_zero_iff.mp (by omega)
    exact ⟨fun hlive => absurd hnil hlive, fun _ _ => hbefore.symm⟩
  · intro hkept hacq hlive
    obtain ⟨l, guards, hguards⟩ := List.exists_cons_of_ne_nil hlive
    have hstep : x.drop = some { x with interrupts := true, guards := guards } := by
      simp only [IrqRun.drop, hacq, hguards]
    have hend := hkept _ hstep
    have hnil : guards = [] := by
      by_contra hrest
      have hoff := hend.off hrest
      cases hoff
    exact ⟨by rw [hguards, hnil]; rfl, (hend.restored hacq hnil).symm⟩

/-- **When the interrupt-safe lock keeps interrupts off.**  For every run of one CPU, with any
amount of contention and whatever the flag was at first, interrupts are off while a guard is live
and have their former value when the last one has been dropped, exactly when no exchange succeeds
after 64 failures, no acquisition under a live guard fails 64 times, and every guard is dropped as
the only one and was asked for with interrupts on. -/
theorem irqSafe_keptOff_iff (interrupts : Bool) (ops : List (IrqOp ι)) :
    Always KeptOff irqStep (.start interrupts) ops ↔
      Meets KeepsOff irqStep (.start interrupts) ops := by
  refine always_iff_meets (I := FailuresCounted) (fun _ _ _ h hstep => h.irqStep hstep) ?_ ?_ ?_
  · intro x op hcount h
    cases op with
    | lock l => exact ⟨fun _ x' hstep => keptOff_lock hstep, fun _ => trivial⟩
    | step fails => exact keptOff_step_iff hcount h fails
    | drop => exact keptOff_drop_iff
  · rintro l pc ⟨⟩
  · exact ⟨fun hlive => absurd rfl hlive, fun _ _ => rfl⟩

/-- Two nested guards, and the inner one is dropped: interrupts are on while the outer one is live.
And a caller with interrupts off gets them back on. -/
theorem irqSafe_nested :
    (∃ x : IrqRun Bool, run irqStep (.start true)
        [.lock false, .step false, .lock true, .step false, .drop] = some x ∧
      x.guards = [false] ∧ x.interrupts = true) ∧
    (∃ x : IrqRun Bool, run irqStep (.start false) [.lock false, .step false, .drop] = some x ∧
      x.guards = [] ∧ x.interrupts = true) :=
  ⟨⟨_, rfl, rfl, rfl⟩, ⟨_, rfl, rfl, rfl⟩⟩

end Masika
