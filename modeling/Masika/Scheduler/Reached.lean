import Masika.Scheduler.Queue

/-!
# What holds in every run of the scheduler

* `taskCount_eq_occupied` — the count is the number of occupied slots, and `create_task` is right
  about whether there is room.
* `current_queued_iff` — the current task is in the queue.  There are two ways to lose it: an
  `init_scheduler` that finds the queue full, and a `cleanup_zombie_tasks` when the current task
  itself is a zombie.  Both leave `CURRENT_TASK` pointing to a block that the queue does not hold.
* `no_panic_iff` — `schedule` panics when there is no current task.  Two bits of the state decide
  whether it does, and the calls change them in a way that does not depend on anything else
  (`Flags`); so the sequence of calls tells whether the run panics.
-/

namespace Masika

open Scheduler

/-! ## One call -/

/-- The calls that bring tasks or take them away. -/
def SchedOp.changesQueue : SchedOp → Bool
  | .initScheduler _ | .addTask _ | .createTask | .removeCurrentTask | .cleanupZombieTasks
  | .resetScheduler => true
  | _ => false

/-- What decides whether `schedule` panics. -/
structure Flags where
  /-- there is a current task -/
  current : Bool
  locked : Bool

/-- How a call changes the flags. -/
def Flags.after (f : Flags) : SchedOp → Flags
  | .initScheduler _ => { f with current := true }
  | .removeCurrentTask => { f with current := false }
  | .resetScheduler => ⟨false, false⟩
  | .forceSchedule | .preemptEnable => { f with locked := false }
  | .preemptDisable => { f with locked := true }
  | _ => f

/-- The flags of a state. -/
def Scheduler.flags (s : Scheduler) : Flags := ⟨s.currentTask.isSome, s.schedLock⟩

section Step

variable {N : NewPcb} {s s' : Scheduler} {op : SchedOp}

/-- **The other calls** leave the queue alone, and change the lock as `Flags.after` says. -/
lemma schedStep_moves (hop : op.changesQueue = false) (h : schedStep N s op = some s') :
    Moves s s' ∧ s'.schedLock = (s.flags.after op).locked := by
  have hedit : ∀ {s₁ : Scheduler}, some s₁ = some s' → Edits s s₁ →
      Moves s s' ∧ s'.schedLock = s.schedLock := by
    intro s₁ heq hedits
    rw [← Option.some.inj heq]
    exact ⟨hedits.moves, hedits.schedLock⟩
  cases op with
  | initScheduler | addTask | createTask | removeCurrentTask | cleanupZombieTasks
  | resetScheduler => cases hop
  | setTaskReady taskId => exact hedit h (editById_edits s taskId fun _ => rfl)
  | setTaskBlocked taskId => exact hedit h (editById_edits s taskId fun _ => rfl)
  | setTaskQuantum taskId quantum => exact hedit h (editById_edits s taskId fun _ => rfl)
  | markTaskAsZombie taskId => exact hedit h (editById_edits s taskId fun _ => rfl)
  | setGlobalTimeSlice timeSlice =>
    exact hedit h (eachTask_edits s fun s r => modify_edits s r fun _ => rfl)
  | setCurrentTaskState state => exact hedit h (editCurrent_edits s fun _ => rfl)
  | updateCurrentTaskPriority priority => exact hedit h (editCurrent_edits s fun _ => rfl)
  | incrementCurrentTaskTime => exact hedit h (editCurrent_edits s fun _ => rfl)
  | wakeUpTasks => exact hedit h (wakeUpTasks_edits s)
  | sleepCurrentTask duration => exact sleepCurrentTask_moves h
  | schedule => exact schedule_moves h
  | yieldCpu => exact schedule_moves h
  | tick => exact tick_moves h
  | forceSchedule => exact forceSchedule_moves h
  | forceContextSwitch => exact forceContextSwitch_moves h
  | rescheduleIfNeeded => exact rescheduleIfNeeded_moves h
  | scheduleWithPolicy =>
    rw [← Option.some.inj h]
    exact scheduleWithPolicy_moves s
  | preemptDisable =>
    rw [← Option.some.inj h]
    exact ⟨⟨⟨rfl, rfl, rfl, rfl, rfl, fun _ => rfl⟩, .inl rfl⟩, rfl⟩
  | preemptEnable =>
    rw [← Option.some.inj h]
    exact ⟨⟨⟨rfl, rfl, rfl, rfl, rfl, fun _ => rfl⟩, .inl rfl⟩, rfl⟩

/-- The book-keeping is kept by every call. -/
lemma schedStep_tracked (hs : Tracked s) (h : schedStep N s op = some s') : Tracked s' := by
  cases hop : op.changesQueue with
  | false => exact hs.moves (schedStep_moves hop h).1
  | true =>
    cases op with
    | initScheduler firstTask =>
      rw [← Option.some.inj h]
      exact (hs.hold firstTask).initScheduler (Nat.lt_succ_self _) hs.not_queued
    | addTask task =>
      rw [← Option.some.inj h]
      exact (hs.hold task).addTask (Nat.lt_succ_self _) hs.not_queued
    | createTask =>
      rw [← Option.some.inj h]
      exact hs.createTask N
    | removeCurrentTask =>
      obtain ⟨s₁, hs₁, htracked, -⟩ := hs.removeCurrentTask
      rw [← Option.some.inj (hs₁.symm.trans h)]
      exact htracked
    | cleanupZombieTasks =>
      obtain ⟨s₁, hs₁, htracked, -⟩ := hs.cleanupZombieTasks
      rw [← Option.some.inj (hs₁.symm.trans h)]
      exact htracked
    | resetScheduler =>
      rw [← Option.some.inj h]
      exact resetScheduler_tracked s
    | _ => cases hop

end Step

/-! ## The count -/

/-- **The count is right**, and `create_task` puts a new block into the lowest free slot. -/
theorem taskCount_eq_occupied (N : NewPcb) {ops : List SchedOp} {s : Scheduler}
    (hrun : run (schedStep N) boot ops = some s) :
    s.taskCount = s.occupied.card ∧ s.taskCount ≤ 1024 ∧
      ((s.createTask N).1.isSome = true ↔ ∃ i, s.runqueue i = none) ∧
      ((∀ i, s.runqueue i ≠ none) → (s.createTask N).2 = s) ∧
      ∀ i, s.runqueue i = none → (∀ j < i, s.runqueue j ≠ none) →
        (s.createTask N).2.runqueue = Function.update s.runqueue i (some s.made) ∧
        (s.createTask N).2.blocks s.made = N.make s.nextTaskId s.pidCounter ∧
        ∀ j r, s.runqueue j = some r → (s.createTask N).2.blocks r = s.blocks r := by
  have hs : Tracked s := run_invariant (fun _ _ _ => schedStep_tracked) boot_tracked hrun
  refine ⟨hs.count, hs.count.trans_le (card_occupied_le s), ?_⟩
  rcases hs.createTask_eq N with ⟨hfull, heq⟩ | ⟨k, hfree, heq⟩
  · rw [heq]
    refine ⟨by simpa using hfull, fun _ => rfl, fun i hi => absurd hi (hfull i)⟩
  · obtain ⟨hk, hbelow⟩ := freeSlot_eq_some.mp hfree
    rw [heq]
    refine ⟨by simpa using ⟨k, hk⟩, fun hfull => absurd hk (hfull k), fun i hi hlow => ?_⟩
    obtain rfl : i = k := by
      rcases lt_trichotomy i k with hlt | heq | hlt
      · exact absurd hi (hbelow i hlt)
      · exact heq
      · exact absurd hk (hlow k hlt)
    refine ⟨rfl, Function.update_self .., fun j r hj => Function.update_of_ne ?_ _ _⟩
    exact (hs.queued_lt j r hj).ne

/-- Two tasks, and then a third. -/
theorem taskCount_eq_occupied_twoTasks :
    ∃ s, run (schedStep pidBlock) boot [.createTask, .createTask] = some s ∧
      s.taskCount = s.occupied.card ∧ (s.createTask pidBlock).1.isSome = true := by
  obtain ⟨s, hs⟩ : ∃ s, run (schedStep pidBlock) boot [.createTask, .createTask] = some s :=
    ⟨_, rfl⟩
  have h := taskCount_eq_occupied pidBlock hs
  refine ⟨s, hs, h.1, h.2.2.1.mpr ⟨2, ?_⟩⟩
  rw [← Option.some.inj hs]
  decide +kernel

/-! ## The current task -/

/-- The current task is in exactly one slot. -/
def CurrentQueued (s : Scheduler) : Prop :=
  ∀ t, s.currentTask = some t → ∃! i, s.runqueue i = some t

/-- The call does not lose the current task: the first task finds a free slot, and zombies are
removed while the current task is none. -/
def KeepsCurrent (s : Scheduler) : SchedOp → Prop
  | .initScheduler _ => ∃ i, s.runqueue i = none
  | .cleanupZombieTasks => ∀ t, s.currentTask = some t → (s.blocks t).state ≠ .zombie
  | _ => True

section Current

variable {N : NewPcb} {s s' : Scheduler} {op : SchedOp}

lemma CurrentQueued.moves (h : CurrentQueued s) (hs : Tracked s) (hmoves : Moves s s') :
    CurrentQueued s' := by
  intro t ht
  rw [hmoves.runqueue]
  rcases hmoves.current with heq | ⟨-, -, i, hi⟩
  · exact h t (heq ▸ ht)
  · rw [ht] at hi
    exact ⟨i, hi, fun j hj => hs.inj j i t hj hi⟩

/-- A new task in a free slot does not change where the current one is. -/
lemma CurrentQueued.enqueue (h : CurrentQueued s) {i : Slot} (hi : s.runqueue i = none) {r : ℕ}
    (hr : s.currentTask ≠ some r) : CurrentQueued (s.enqueue i r) := by
  intro t ht
  obtain ⟨j, hj, huniq⟩ := h t ht
  have hji : j ≠ i := by
    rintro rfl
    rw [hi] at hj
    cases hj
  refine ⟨j, (Function.update_of_ne hji _ _).trans hj, fun k hk => ?_⟩
  simp only [Scheduler.enqueue, Function.update_apply] at hk
  split_ifs at hk with hki
  · exact absurd (ht.trans hk.symm) hr
  · exact huniq k hk

lemma initScheduler_queued_iff (hs : Tracked s) (firstTask : ProcessControlBlock) :
    CurrentQueued ((s.hold firstTask).initScheduler s.made) ↔ ∃ i, s.runqueue i = none := by
  have hstart := (hs.hold firstTask).promote (Nat.lt_succ_self s.made)
  rw [initScheduler]
  rcases hstart.addTask_eq s.made with ⟨hfull, heq⟩ | ⟨i, hfree, heq⟩
  · rw [heq]
    refine iff_of_false (fun h => ?_) fun ⟨i, hi⟩ => hfull i hi
    obtain ⟨i, hi, -⟩ := h s.made rfl
    exact hs.not_queued i hi
  · rw [heq]
    have hi : s.runqueue i = none := (freeSlot_eq_some.mp hfree).1
    refine iff_of_true (fun t ht => ?_) ⟨i, hi⟩
    obtain rfl : s.made = t := Option.some.inj ht
    refine ⟨i, Function.update_self .., fun j hj => ?_⟩
    by_contra hji
    exact hs.not_queued j ((Function.update_of_ne hji _ _).symm.trans hj)

lemma cleanup_queued_iff (hs : Tracked s) (h : CurrentQueued s)
    (hstep : s.cleanupZombieTasks = some s') :
    CurrentQueued s' ↔ ∀ t, s.currentTask = some t → (s.blocks t).state ≠ .zombie := by
  obtain ⟨s₁, hs₁, -, -, hcur, hqueue⟩ := hs.cleanupZombieTasks
  obtain rfl : s₁ = s' := Option.some.inj (hs₁.symm.trans hstep)
  have hkept : ∀ j t, s₁.runqueue j = some t ↔
      s.runqueue j = some t ∧ (s.blocks t).state ≠ .zombie := by
    intro j t
    rw [hqueue j, Option.filter_eq_some_iff]
    simp [zombie]
  constructor
  · intro h' t ht
    obtain ⟨i, hi, -⟩ := h' t (hcur.trans ht)
    exact ((hkept i t).mp hi).2
  · intro hlives t ht
    have ht : s.currentTask = some t := hcur.symm.trans ht
    obtain ⟨i, hi, huniq⟩ := h t ht
    exact ⟨i, (hkept i t).mpr ⟨hi, hlives t ht⟩, fun j hj => huniq j ((hkept j t).mp hj).1⟩

/-- The condition is exact. -/
lemma keepsCurrent_iff (N : NewPcb) (hs : Tracked s) (h : CurrentQueued s) (op : SchedOp) :
    KeepsCurrent s op ↔ ∀ s', schedStep N s op = some s' → CurrentQueued s' := by
  cases hop : op.changesQueue with
  | false =>
    have hok : KeepsCurrent s op := by
      cases op <;> trivial
    exact iff_of_true hok fun s' hs' => h.moves hs (schedStep_moves hop hs').1
  | true =>
    cases op with
    | initScheduler firstTask =>
      rw [KeepsCurrent, ← initScheduler_queued_iff hs firstTask]
      exact ⟨fun hq s' hs' => Option.some.inj hs' ▸ hq, fun hq => hq _ rfl⟩
    | addTask task =>
      refine iff_of_true trivial fun s' hs' => ?_
      rw [← Option.some.inj hs']
      rcases (hs.hold task).addTask_eq s.made with ⟨-, heq⟩ | ⟨i, hfree, heq⟩
      · rw [heq]
        exact h
      · rw [heq]
        refine CurrentQueued.enqueue (s := s.hold task) h (freeSlot_eq_some.mp hfree).1 ?_
        exact fun hcur => lt_irrefl _ (hs.current_lt _ hcur)
    | createTask =>
      refine iff_of_true trivial fun s' hs' => ?_
      rw [← Option.some.inj hs']
      rcases hs.createTask_eq N with ⟨-, heq⟩ | ⟨i, hfree, heq⟩
      · rw [heq]
        exact h
      · rw [heq]
        refine CurrentQueued.enqueue (s := { s.hold (N.make s.nextTaskId s.pidCounter) with
          nextTaskId := s.nextTaskId + 1#64, pidCounter := s.pidCounter + 4#64 }) h
          (freeSlot_eq_some.mp hfree).1 ?_
        exact fun hcur => lt_irrefl _ (hs.current_lt _ hcur)
    | removeCurrentTask =>
      refine iff_of_true trivial fun s' hs' => ?_
      obtain ⟨s₁, hs₁, -, -, hcur⟩ := hs.removeCurrentTask
      obtain rfl : s₁ = s' := Option.some.inj (hs₁.symm.trans hs')
      intro t ht
      rw [hcur] at ht
      cases ht
    | cleanupZombieTasks =>
      obtain ⟨s₁, hs₁, -⟩ := hs.cleanupZombieTasks
      rw [KeepsCurrent, ← cleanup_queued_iff hs h hs₁]
      refine ⟨fun hq s' hs' => ?_, fun hq => hq s₁ hs₁⟩
      rwa [← Option.some.inj (hs₁.symm.trans hs')]
    | resetScheduler =>
      refine iff_of_true trivial fun s' hs' t ht => ?_
      rw [← Option.some.inj hs'] at ht
      cases ht
    | _ => cases hop

end Current

/-- **The current task is queued** in every state of a run if and only if no step of the run loses
it. -/
theorem current_queued_iff (N : NewPcb) (ops : List SchedOp) :
    Always CurrentQueued (schedStep N) boot ops ↔ Meets KeepsCurrent (schedStep N) boot ops :=
  always_iff_meets (I := Tracked) (fun _ _ _ => schedStep_tracked)
    (fun _ op hs h => keepsCurrent_iff N hs h op) boot_tracked fun _ ht => nomatch ht

/-- The current task becomes a zombie and is cleaned up.  It is still the current one. -/
theorem cleanup_loses_current : ∃ s,
    run (schedStep pidBlock) boot
        [.initScheduler (readyBlock 1#64), .markTaskAsZombie 1#64, .cleanupZombieTasks] = some s ∧
      ¬ CurrentQueued s := by
  have hrun : (run (schedStep pidBlock) boot
      [.initScheduler (readyBlock 1#64), .markTaskAsZombie 1#64, .cleanupZombieTasks]).any
        (fun s => s.currentTask == some 0 &&
          (List.finRange 1024).all fun i => s.runqueue i == none) = true := by decide +kernel
  rw [Option.any_eq_true] at hrun
  obtain ⟨s, hs, hstate⟩ := hrun
  rw [Bool.and_eq_true, List.all_eq_true] at hstate
  refine ⟨s, hs, fun h => ?_⟩
  obtain ⟨i, hi, -⟩ := h 0 (by simpa using hstate.1)
  have hnone := hstate.2 i (List.mem_finRange i)
  rw [hi] at hnone
  cases hnone

/-! ## Panics -/

/-- The call does not look for a current task where there is none. -/
def Flags.Permit (f : Flags) : SchedOp → Prop
  | .schedule | .yieldCpu | .tick | .forceContextSwitch => f.locked = true ∨ f.current = true
  | .forceSchedule => f.current = true
  | _ => True

/-- All calls of a sequence are of this kind. -/
def Flags.PermitAll : Flags → List SchedOp → Prop
  | _, [] => True
  | f, op :: ops => f.Permit op ∧ (f.after op).PermitAll ops

section Panics

variable {N : NewPcb} {s s' : Scheduler} {op : SchedOp}

lemma schedule_eq_none_of_edits {s₀ : Scheduler} (hedits : Edits s s₀) :
    s₀.schedule = none ↔ s.schedLock = false ∧ s.currentTask = none := by
  rw [schedule_eq_none, hedits.schedLock, hedits.currentTask]

lemma tick_eq_none : s.tick = none ↔ s.schedLock = false ∧ s.currentTask = none := by
  unfold tick
  split
  next => exact schedule_eq_none
  next current hcur =>
      have hcount := modify_edits s current
        (f := fun t => { t with tickCount := t.tickCount + 1#32 }) fun _ => rfl
      simp only
      split_ifs
      · refine schedule_eq_none_of_edits (hcount.trans ?_)
        exact modify_edits _ current fun _ => rfl
      · simp [hcur]

lemma forceContextSwitch_eq_none :
    s.forceContextSwitch = none ↔ s.schedLock = false ∧ s.currentTask = none := by
  rw [forceContextSwitch]
  refine schedule_eq_none_of_edits ?_
  cases s.currentTask with
  | none => exact Edits.refl s
  | some current => exact demote_edits s current

lemma sleepCurrentTask_ne_none (duration : U64) : s.sleepCurrentTask duration ≠ none := by
  rw [sleepCurrentTask]
  cases hcur : s.currentTask with
  | none => simp
  | some current =>
    have hedits := modify_edits s current (f := fun t => { t with
      wakeTime := s.getCurrentExecutionTime + duration
      state := .sleeping }) fun _ => rfl
    intro h
    have hnone := ((schedule_eq_none_of_edits hedits).mp h).2
    rw [hcur] at hnone
    cases hnone

lemma rescheduleIfNeeded_ne_none : s.rescheduleIfNeeded ≠ none := by
  rw [rescheduleIfNeeded]
  split_ifs
  · simp
  · cases hcur : s.currentTask with
    | none => simp
    | some current =>
      simp only
      split_ifs
      · rw [Ne, schedule_eq_none, hcur]
        simp
      · simp

/-- **When a call panics.** -/
lemma schedStep_eq_none (hs : Tracked s) : schedStep N s op = none ↔ ¬ s.flags.Permit op := by
  have hbare : s.schedLock = false ∧ s.currentTask = none ↔
      ¬ (s.flags.locked = true ∨ s.flags.current = true) := by
    simp [flags]
  cases op with
  | schedule => exact schedule_eq_none.trans hbare
  | yieldCpu => exact schedule_eq_none.trans hbare
  | tick => exact tick_eq_none.trans hbare
  | forceContextSwitch => exact forceContextSwitch_eq_none.trans hbare
  | forceSchedule =>
    refine (schedule_eq_none (s := { s with schedLock := false })).trans ?_
    simp [Flags.Permit, flags]
  | removeCurrentTask =>
    obtain ⟨s', hs', -⟩ := hs.removeCurrentTask
    simp [schedStep, hs', Flags.Permit]
  | cleanupZombieTasks =>
    obtain ⟨s', hs', -⟩ := hs.cleanupZombieTasks
    simp [schedStep, hs', Flags.Permit]
  | sleepCurrentTask duration =>
    exact iff_of_false (sleepCurrentTask_ne_none duration) fun h => h trivial
  | rescheduleIfNeeded => exact iff_of_false rescheduleIfNeeded_ne_none fun h => h trivial
  | _ => exact iff_of_false (Option.some_ne_none _) fun h => h trivial

lemma addTask_flags (s : Scheduler) (r : ℕ) : (s.addTask r).flags = s.flags := by
  rw [addTask]
  split_ifs
  · rfl
  · cases s.freeSlot <;> rfl

lemma createTask_flags (N : NewPcb) (s : Scheduler) : (s.createTask N).2.flags = s.flags := by
  rw [createTask]
  split_ifs
  · rfl
  · simp only
    split <;> rfl

/-- **How a call changes the flags.** -/
lemma schedStep_flags (hs : Tracked s) (h : schedStep N s op = some s') :
    s'.flags = s.flags.after op := by
  cases hop : op.changesQueue with
  | false =>
    obtain ⟨hmoves, hlock⟩ := schedStep_moves hop h
    have hcurrent : s.flags.current = (s.flags.after op).current := by
      cases op <;> first | rfl | cases hop
    rw [flags, hmoves.isSome, hlock]
    exact congrArg (Flags.mk · _) hcurrent
  | true =>
    cases op with
    | initScheduler firstTask =>
      rw [← Option.some.inj h, initScheduler, addTask_flags]
      rfl
    | addTask task =>
      rw [← Option.some.inj h, addTask_flags]
      rfl
    | createTask =>
      rw [← Option.some.inj h, createTask_flags]
      rfl
    | removeCurrentTask =>
      obtain ⟨s₁, hs₁, -, hdrops, hcur⟩ := hs.removeCurrentTask
      rw [← Option.some.inj (hs₁.symm.trans h), flags, hcur, hdrops.schedLock]
      rfl
    | cleanupZombieTasks =>
      obtain ⟨s₁, hs₁, -, hdrops, hcur, -⟩ := hs.cleanupZombieTasks
      rw [← Option.some.inj (hs₁.symm.trans h), flags, hcur, hdrops.schedLock]
      rfl
    | resetScheduler =>
      rw [← Option.some.inj h]
      rfl
    | _ => cases hop

/-- A run comes back if and only if all its calls are permitted. -/
lemma run_isSome_iff (N : NewPcb) (ops : List SchedOp) (hs : Tracked s) :
    (run (schedStep N) s ops).isSome = true ↔ s.flags.PermitAll ops := by
  induction ops generalizing s with
  | nil => exact iff_of_true rfl trivial
  | cons op ops ih =>
    rw [run, Flags.PermitAll]
    cases hstep : schedStep N s op with
    | none =>
      have hnot := (schedStep_eq_none hs).mp hstep
      simp [hnot]
    | some s' =>
      have hpermit : s.flags.Permit op := by
        by_contra hnot
        rw [(schedStep_eq_none hs).mpr hnot] at hstep
        cases hstep
      rw [Option.bind_some, ih (schedStep_tracked hs hstep), schedStep_flags hs hstep]
      simp [hpermit]

end Panics

/-- **A run panics or not** according to its calls: from an `init_scheduler` on, it does not if and
only if none of the forms of `schedule` comes while there is no current task and the scheduler is
not locked. -/
theorem no_panic_iff (N : NewPcb) (firstTask : ProcessControlBlock) (ops : List SchedOp) :
    (run (schedStep N) boot (.initScheduler firstTask :: ops)).isSome = true ↔
      Flags.PermitAll ⟨true, false⟩ ops := by
  rw [run_isSome_iff N _ boot_tracked, Flags.PermitAll]
  exact and_iff_right trivial

/-- The current task is removed and the timer ticks. -/
theorem tick_panics :
    run (schedStep pidBlock) boot
      [.initScheduler (readyBlock 1#64), .removeCurrentTask, .tick] = none := by
  rw [← Option.not_isSome_iff_eq_none, run_isSome_iff pidBlock _ boot_tracked]
  simp [Flags.PermitAll, Flags.Permit, Flags.after, flags, boot]

end Masika
