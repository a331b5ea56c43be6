import Masika.Scheduler.Dispatch

/-!
# Sleeping tasks

Time is counted per task: `increment_current_task_time` charges the current task, and
`sleep_current_task` computes the time of waking from the execution time of the task that goes to
sleep.  `wake_up_tasks` compares it with the execution time of the task that is current *then*.  If
this is a task that has run for longer, the sleeper is woken at once.

The state is extended by what the property speaks about (`SleepRun`): how often time was
incremented, and for each task when it last went to sleep and for how long.  If nobody in the queue
has run for longer than the task that goes to sleep, and its time of waking does not overflow
(`SleepsFairly`), it is not woken early: the execution time of any task that can become the current
one grows by at most 1 with each increment (`Awaited`).
-/

namespace Masika

open Scheduler

/-! ## Runs -/

/-- The scheduler and its clock. -/
structure SleepRun where
  sched : Scheduler
  /-- the number of increments -/
  clock : ℕ
  /-- the clock when the task went to sleep, and the duration -/
  slept : ℕ → Option (ℕ × ℕ)

/-- The calls in which time passes or is compared. -/
inductive SleepOp where
  | incrementCurrentTaskTime
  | sleepCurrentTask (duration : U64)
  | schedule
  | wakeUpTasks

/-- One call. -/
def sleepStep (x : SleepRun) : SleepOp → Option SleepRun
  | .incrementCurrentTaskTime => some { x with
      sched := x.sched.incrementCurrentTaskTime
      clock := if x.sched.currentTask.isSome then x.clock + 1 else x.clock }
  | .sleepCurrentTask duration => (x.sched.sleepCurrentTask duration).map fun s => { x with
      sched := s
      slept := x.sched.currentTask.elim x.slept fun r =>
        Function.update x.slept r (some (x.clock, duration.toNat)) }
  | .schedule => x.sched.schedule.map fun s => { x with sched := s }
  | .wakeUpTasks => some { x with sched := x.sched.wakeUpTasks }

/-- No task in the queue has run for longer than the one that goes to sleep, and its time of waking
is a number of 64 bits. -/
def SleepsFairly (x : SleepRun) : SleepOp → Prop
  | .sleepCurrentTask duration => ∀ c, x.sched.currentTask = some c →
      (x.sched.blocks c).executionTime.toNat + duration.toNat < 2 ^ 64 ∧
        ∀ i r, x.sched.runqueue i = some r →
          (x.sched.blocks r).executionTime ≤ (x.sched.blocks c).executionTime
  | _ => True

/-- No time has passed and nobody has gone to sleep. -/
def SleepRun.start (s : Scheduler) : SleepRun := ⟨s, 0, fun _ => none⟩

/-! ## Times -/

/-- The times in the blocks have not changed. -/
structure SameTimes (s s' : Scheduler) : Prop where
  executionTime : ∀ r, (s'.blocks r).executionTime = (s.blocks r).executionTime
  wakeTime : ∀ r, (s'.blocks r).wakeTime = (s.blocks r).wakeTime

/-- The task is current or can become it. -/
def Active (s : Scheduler) (r : ℕ) : Prop := s.currentTask = some r ∨ ∃ i, s.runqueue i = some r

section Times

variable {s s' s'' : Scheduler}

lemma SameTimes.refl (s : Scheduler) : SameTimes s s := ⟨fun _ => rfl, fun _ => rfl⟩

lemma SameTimes.trans (h : SameTimes s s') (h' : SameTimes s' s'') : SameTimes s s'' :=
  ⟨fun r => (h'.executionTime r).trans (h.executionTime r),
    fun r => (h'.wakeTime r).trans (h.wakeTime r)⟩

lemma modify_sameTimes (s : Scheduler) (r : ℕ) {f : ProcessControlBlock → ProcessControlBlock}
    (hexec : ∀ t, (f t).executionTime = t.executionTime)
    (hwake : ∀ t, (f t).wakeTime = t.wakeTime) : SameTimes s (s.modify r f) :=
  ⟨modify_field (·.executionTime) s r hexec, modify_field (·.wakeTime) s r hwake⟩

lemma setState_sameTimes (s : Scheduler) (r : ℕ) (state : TaskState) :
    SameTimes s (s.setState r state) := modify_sameTimes s r (fun _ => rfl) fun _ => rfl

lemma demote_sameTimes (s : Scheduler) (r : ℕ) : SameTimes s (s.demote r) := by
  rw [demote]
  split_ifs
  · exact setState_sameTimes s r .ready
  · exact SameTimes.refl s

lemma schedule_sameTimes (h : s.schedule = some s') : SameTimes s s' := by
  rcases schedule_cases h with rfl | ⟨current, -, rfl | ⟨i, next, -, rfl⟩⟩
  · exact SameTimes.refl s'
  · exact demote_sameTimes s current
  · have hset := setState_sameTimes (s.demote current) next .running
    exact (demote_sameTimes s current).trans ⟨hset.executionTime, hset.wakeTime⟩

lemma Scheduler.Moves.active (h : Moves s s') {r : ℕ} (hr : Active s' r) : Active s r := by
  rcases hr with hcur | ⟨i, hi⟩
  · rcases h.current with heq | ⟨-, -, i, hi⟩
    · exact .inl (heq ▸ hcur)
    · exact .inr ⟨i, hi.trans hcur⟩
  · exact .inr ⟨i, h.runqueue ▸ hi⟩

/-- **`wake_up_tasks`** wakes a task only if its time has come. -/
lemma wakeUpTasks_spec (s : Scheduler) :
    SameTimes s s.wakeUpTasks ∧ s.wakeUpTasks.currentTask = s.currentTask ∧
      ∀ r, (s.wakeUpTasks.blocks r).state = (s.blocks r).state ∨
        (s.blocks r).wakeTime ≤ s.getCurrentExecutionTime := by
  unfold wakeUpTasks
  refine eachTask_invariant (P := fun s' => SameTimes s s' ∧ s'.currentTask = s.currentTask ∧
    ∀ r, (s'.blocks r).state = (s.blocks r).state ∨
      (s.blocks r).wakeTime ≤ s.getCurrentExecutionTime) ?_ ?_
  · rintro s' r ⟨htimes, hcur, hstate⟩
    have hnow : s'.getCurrentExecutionTime = s.getCurrentExecutionTime := by
      rw [getCurrentExecutionTime, getCurrentExecutionTime, hcur]
      simp only [htimes.executionTime]
    split_ifs with hdue
    · refine ⟨htimes.trans (setState_sameTimes s' r .ready), hcur, fun r' => ?_⟩
      rw [state_setState]
      split_ifs with hr
      · rw [htimes.wakeTime, hnow] at hdue
        exact .inr (hr ▸ hdue.2)
      · exact hstate r'
    · exact ⟨htimes, hcur, hstate⟩
  · exact ⟨SameTimes.refl s, rfl, fun _ => .inl rfl⟩

end Times

/-! ## The invariant -/

/-- The time of waking lies ahead of every task that can become the current one by what is left of
the duration. -/
structure Awaited (x : SleepRun) : Prop where
  current : ∀ r p, x.slept r = some p → x.sched.currentTask.isSome = true
  bound : ∀ r since duration, x.slept r = some (since, duration) → ∀ r', Active x.sched r' →
    (x.sched.blocks r').executionTime.toNat + since + duration ≤
      (x.sched.blocks r).wakeTime.toNat + x.clock

section Awaited

variable {x x' : SleepRun}

lemma start_awaited (s : Scheduler) : Awaited (.start s) :=
  ⟨fun _ _ h => (nomatch h), fun _ _ _ h => (nomatch h)⟩

/-- Calls that leave the times alone. -/
lemma Awaited.moves (h : Awaited x) {s' : Scheduler} (hmoves : Moves x.sched s')
    (htimes : SameTimes x.sched s') : Awaited { x with sched := s' } := by
  refine ⟨fun r p hr => hmoves.isSome.trans (h.current r p hr), ?_⟩
  intro r since duration hr r' hr'
  simp only [htimes.executionTime, htimes.wakeTime]
  exact h.bound r since duration hr r' (hmoves.active hr')

lemma Awaited.increment (h : Awaited x) (hstep : sleepStep x .incrementCurrentTaskTime = some x') :
    Awaited x' := by
  rw [← Option.some.inj hstep]
  cases hcur : x.sched.currentTask with
  | none =>
    simp only [incrementCurrentTaskTime, editCurrent, hcur, Option.elim_none,
      Option.isSome_none, Bool.false_eq_true, if_false]
    exact h
  | some c =>
    simp only [incrementCurrentTaskTime, editCurrent, hcur, Option.elim_some,
      Option.isSome_some, if_true]
    refine ⟨fun r p hr => by rw [modify_currentTask, hcur]; rfl, ?_⟩
    intro r since duration hr r' hr'
    have hbound := h.bound r since duration hr r' hr'
    have hwake := modify_field (·.wakeTime) x.sched c
      (f := fun t => { t with executionTime := t.executionTime + 1#64 }) (fun _ => rfl) r
    -- the charge may wrap, which makes the time smaller
    have hcharge : ((x.sched.modify c fun t =>
        { t with executionTime := t.executionTime + 1#64 }).blocks r').executionTime.toNat ≤
          (x.sched.blocks r').executionTime.toNat + 1 := by
      by_cases hrc : r' = c
      · simp only [Scheduler.modify, hrc, Function.update_self, BitVec.toNat_add]
        exact Nat.mod_le _ _
      · simp only [Scheduler.modify, Function.update_of_ne hrc]
        exact Nat.le_succ _
    simp only [hwake]
    omega

lemma Awaited.sleep (h : Awaited x) {duration : U64}
    (hok : SleepsFairly x (.sleepCurrentTask duration))
    (hstep : sleepStep x (.sleepCurrentTask duration) = some x') : Awaited x' := by
  obtain ⟨s', hs', rfl⟩ := Option.map_eq_some_iff.mp hstep
  have hmoves := (sleepCurrentTask_moves hs').1
  rw [sleepCurrentTask] at hs'
  cases hcur : x.sched.currentTask with
  | none =>
    simp only [hcur, Option.some.injEq] at hs'
    rw [← hs']
    exact h
  | some c =>
    simp only [hcur, getCurrentExecutionTime, Option.elim_some] at hs' ⊢
    obtain ⟨hroom, hleast⟩ := hok c hcur
    have htimes := schedule_sameTimes hs'
    have hexec : ∀ r, (s'.blocks r).executionTime = (x.sched.blocks r).executionTime := by
      intro r
      rw [htimes.executionTime]
      refine modify_field (·.executionTime) x.sched c ?_ r
      exact fun _ => rfl
    have hactive : ∀ r, Active x.sched r →
        (x.sched.blocks r).executionTime ≤ (x.sched.blocks c).executionTime := by
      rintro r (hr | ⟨i, hi⟩)
      · rw [Option.some.inj (hr.symm.trans hcur)]
        exact BitVec.le_refl _
      · exact hleast i r hi
    refine ⟨fun _ _ _ => hmoves.isSome.trans (by rw [hcur]; rfl), ?_⟩
    intro r since d hr r' hr'
    have hfrom := hmoves.active hr'
    by_cases hrc : r = c
    · -- the task that goes to sleep now
      subst hrc
      simp only [Function.update_self, Option.some.injEq, Prod.mk.injEq] at hr
      obtain ⟨rfl, rfl⟩ := hr
      have hle := hactive r' hfrom
      simp only [hexec, htimes.wakeTime, Scheduler.modify, Function.update_self,
        BitVec.toNat_add, Nat.mod_eq_of_lt hroom]
      rw [BitVec.le_def] at hle
      omega
    · simp only [Function.update_of_ne hrc] at hr
      simp only [hexec, htimes.wakeTime, Scheduler.modify, Function.update_of_ne hrc]
      exact h.bound r since d hr r' hfrom

lemma Awaited.step {op : SleepOp} (h : Awaited x) (hok : SleepsFairly x op)
    (hstep : sleepStep x op = some x') : Awaited x' := by
  cases op with
  | incrementCurrentTaskTime => exact h.increment hstep
  | sleepCurrentTask duration => exact h.sleep hok hstep
  | schedule =>
    obtain ⟨s', hs', rfl⟩ := Option.map_eq_some_iff.mp hstep
    exact h.moves (schedule_moves hs').1 (schedule_sameTimes hs')
  | wakeUpTasks =>
    rw [← Option.some.inj hstep]
    exact h.moves (wakeUpTasks_edits x.sched).moves (wakeUpTasks_spec x.sched).1

end Awaited

/-- **No task is woken early** in a run in which every task that goes to sleep has run for at least
as long as the tasks in the queue, and has a time of waking below `2 ^ 64`. -/
theorem not_woken_early (s : Scheduler) {ops : List SleepOp} {x : SleepRun}
    (hmeets : Meets SleepsFairly sleepStep (.start s) ops)
    (hrun : run sleepStep (.start s) ops = some x) {r since duration : ℕ}
    (hslept : x.slept r = some (since, duration)) (hsleeping : (x.sched.blocks r).state = .sleeping)
    (hwoken : (x.sched.wakeUpTasks.blocks r).state = .ready) : since + duration ≤ x.clock := by
  have h : Awaited x :=
    run_invariant_of_meets (fun _ _ _ h hok => h.step hok) (start_awaited s) hmeets hrun
  rcases (wakeUpTasks_spec x.sched).2.2 r with hsame | hdue
  · rw [hsame, hsleeping] at hwoken
    cases hwoken
  · obtain ⟨c, hcur⟩ := Option.isSome_iff_exists.mp (h.current r _ hslept)
    have hbound := h.bound r since duration hslept c (.inl hcur)
    rw [getCurrentExecutionTime, hcur, Option.elim_some, BitVec.le_def] at hdue
    omega

/-- The first of two tasks sleeps until the second one has run for one unit of time. -/
theorem not_woken_early_twoTasks : ∃ x,
    run sleepStep (.start (twoTasks 1024#64 2#64))
        [.sleepCurrentTask 1#64, .incrementCurrentTaskTime] = some x ∧
      (x.sched.wakeUpTasks.blocks 0).state = .ready ∧ 0 + 1 ≤ x.clock := by
  have hend : (run sleepStep (.start (twoTasks 1024#64 2#64))
      [.sleepCurrentTask 1#64, .incrementCurrentTaskTime]).any
        (fun x => x.slept 0 == some (0, 1) && (x.sched.blocks 0).state == .sleeping &&
          (x.sched.wakeUpTasks.blocks 0).state == .ready) = true := by decide +kernel
  rw [Option.any_eq_true] at hend
  obtain ⟨x, hx, hstate⟩ := hend
  simp only [Bool.and_eq_true, beq_iff_eq] at hstate
  have hmeets : Meets SleepsFairly sleepStep (.start (twoTasks 1024#64 2#64))
      [.sleepCurrentTask 1#64, .incrementCurrentTaskTime] := by
    refine ⟨fun c hc => ?_, fun _ _ => ⟨trivial, fun _ _ => trivial⟩⟩
    obtain rfl : 0 = c := Option.some.inj hc
    refine ⟨by decide, fun i r _ => ?_⟩
    by_cases hr : r = 0 <;> simp [SleepRun.start, twoTasks, readyBlock, hr]
  exact ⟨x, hx, hstate.2,
    not_woken_early _ hmeets hx hstate.1.1 hstate.1.2 hstate.2⟩

/-- The first task runs for one unit of time; the second one goes to sleep for one unit and is woken
at once. -/
theorem wakeUpTasks_early : ∃ x,
    run sleepStep (.start (twoTasks 1024#64 2#64))
        [.incrementCurrentTaskTime, .schedule, .sleepCurrentTask 1#64] = some x ∧
      x.slept 1 = some (1, 1) ∧ (x.sched.blocks 1).state = .sleeping ∧
      (x.sched.wakeUpTasks.blocks 1).state = .ready ∧ x.clock = 1 := by
  have hend : (run sleepStep (.start (twoTasks 1024#64 2#64))
      [.incrementCurrentTaskTime, .schedule, .sleepCurrentTask 1#64]).any
        (fun x => x.slept 1 == some (1, 1) && (x.sched.blocks 1).state == .sleeping &&
          (x.sched.wakeUpTasks.blocks 1).state == .ready && x.clock == 1) = true := by
    decide +kernel
  rw [Option.any_eq_true] at hend
  obtain ⟨x, hx, hstate⟩ := hend
  simp only [Bool.and_eq_true, beq_iff_eq] at hstate
  exact ⟨x, hx, hstate.1.1.1, hstate.1.1.2, hstate.1.2, hstate.2⟩

end Masika
