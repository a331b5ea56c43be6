import Mathlib.Data.Fintype.Card
import Masika.Core.Loops
import Masika.Scheduler.Tasks

/-!
# The run queue

What the calls of the scheduler do to the queue, the count and the current task.

Most calls leave the queue alone: they change fields of control blocks, and `schedule` in its
several forms makes a queued task the current one (`Moves`).  Tasks come with `init_scheduler`,
`add_task` and `create_task` and go with `remove_current_task`, `cleanup_zombie_tasks` and
`reset_scheduler`.

The two kinds of calls are described once each, by what they leave alone: `Edits` and `Moves` for
the first, `Tracked`, the book-keeping that all of them maintain, for the second.
-/

namespace Masika

namespace Scheduler

/-! ## Calls that leave the queue alone -/

/-- Only fields of blocks, and no ids, have changed. -/
structure SameQueue (s s' : Scheduler) : Prop where
  runqueue : s'.runqueue = s.runqueue
  taskCount : s'.taskCount = s.taskCount
  made : s'.made = s.made
  nextTaskId : s'.nextTaskId = s.nextTaskId
  pidCounter : s'.pidCounter = s.pidCounter
  id : ∀ r, (s'.blocks r).id = (s.blocks r).id

/-- The current task may also have changed, to one in the queue. -/
structure Moves (s s' : Scheduler) : Prop extends SameQueue s s' where
  current : s'.currentTask = s.currentTask ∨
    (s.currentTask.isSome = true ∧ s'.currentTask.isSome = true ∧
      ∃ i, s.runqueue i = s'.currentTask)

section Moves

variable {s s' s'' : Scheduler}

lemma SameQueue.refl (s : Scheduler) : SameQueue s s := ⟨rfl, rfl, rfl, rfl, rfl, fun _ => rfl⟩

lemma SameQueue.trans (h : SameQueue s s') (h' : SameQueue s' s'') : SameQueue s s'' :=
  ⟨h'.runqueue.trans h.runqueue, h'.taskCount.trans h.taskCount, h'.made.trans h.made,
    h'.nextTaskId.trans h.nextTaskId, h'.pidCounter.trans h.pidCounter,
    fun r => (h'.id r).trans (h.id r)⟩

lemma Moves.isSome (h : Moves s s') : s'.currentTask.isSome = s.currentTask.isSome := by
  rcases h.current with heq | ⟨hs, hs', -⟩
  · rw [heq]
  · rw [hs, hs']

lemma Moves.trans_keeps (h : SameQueue s s') (hcur : s'.currentTask = s.currentTask)
    (h' : Moves s' s'') : Moves s s'' := by
  refine ⟨h.trans h'.toSameQueue, ?_⟩
  have hcurrent := h'.current
  rwa [hcur, h.runqueue] at hcurrent

/-- A field that a write does not change, in any block. -/
lemma modify_field {β : Type*} (field : ProcessControlBlock → β) (s : Scheduler) (r : ℕ)
    {f : ProcessControlBlock → ProcessControlBlock} (hf : ∀ t, field (f t) = field t) (r' : ℕ) :
    field ((s.modify r f).blocks r') = field (s.blocks r') := by
  by_cases hr : r' = r
  · simp only [modify, hr, Function.update_self, hf]
  · simp only [modify, Function.update_of_ne hr]

/-- A write to a block. -/
lemma modify_keeps (s : Scheduler) (r : ℕ) {f : ProcessControlBlock → ProcessControlBlock}
    (hf : ∀ t, (f t).id = t.id) : SameQueue s (s.modify r f) :=
  ⟨rfl, rfl, rfl, rfl, rfl, modify_field (·.id) s r hf⟩

@[simp] lemma modify_currentTask (s : Scheduler) (r : ℕ)
    (f : ProcessControlBlock → ProcessControlBlock) :
    (s.modify r f).currentTask = s.currentTask := rfl

@[simp] lemma setState_runqueue (s : Scheduler) (r : ℕ) (state : TaskState) :
    (s.setState r state).runqueue = s.runqueue := rfl

@[simp] lemma setState_currentTask (s : Scheduler) (r : ℕ) (state : TaskState) :
    (s.setState r state).currentTask = s.currentTask := rfl

lemma setState_keeps (s : Scheduler) (r : ℕ) (state : TaskState) :
    SameQueue s (s.setState r state) :=
  modify_keeps s r fun _ => rfl

/-- The state that a task has after a write of one. -/
lemma state_setState (s : Scheduler) (r r' : ℕ) (state : TaskState) :
    ((s.setState r state).blocks r').state = if r' = r then state else (s.blocks r').state := by
  by_cases hr : r' = r
  · simp [setState, modify, hr]
  · simp [setState, modify, hr]

lemma demote_keeps (s : Scheduler) (r : ℕ) : SameQueue s (s.demote r) := by
  rw [demote]
  split_ifs
  · exact setState_keeps s r _
  · exact SameQueue.refl s

@[simp] lemma demote_currentTask (s : Scheduler) (r : ℕ) :
    (s.demote r).currentTask = s.currentTask := by
  rw [demote]
  split_ifs <;> rfl

@[simp] lemma demote_schedLock (s : Scheduler) (r : ℕ) : (s.demote r).schedLock = s.schedLock := by
  rw [demote]
  split_ifs <;> rfl

/-- What the edits of a block have in common. -/
structure Edits (s s' : Scheduler) : Prop extends SameQueue s s' where
  currentTask : s'.currentTask = s.currentTask
  schedLock : s'.schedLock = s.schedLock

lemma Edits.refl (s : Scheduler) : Edits s s := ⟨SameQueue.refl s, rfl, rfl⟩

lemma Edits.trans (h : Edits s s') (h' : Edits s' s'') : Edits s s'' :=
  ⟨h.toSameQueue.trans h'.toSameQueue, h'.currentTask.trans h.currentTask,
    h'.schedLock.trans h.schedLock⟩

lemma Edits.moves (h : Edits s s') : Moves s s' := ⟨h.toSameQueue, .inl h.currentTask⟩

lemma modify_edits (s : Scheduler) (r : ℕ) {f : ProcessControlBlock → ProcessControlBlock}
    (hf : ∀ t, (f t).id = t.id) : Edits s (s.modify r f) :=
  ⟨modify_keeps s r hf, rfl, rfl⟩

lemma editCurrent_edits (s : Scheduler) {f : ProcessControlBlock → ProcessControlBlock}
    (hf : ∀ t, (f t).id = t.id) : Edits s (s.editCurrent f) := by
  rw [editCurrent]
  cases s.currentTask with
  | none => exact Edits.refl s
  | some r => exact modify_edits s r hf

lemma editById_edits (s : Scheduler) (taskId : U64)
    {f : ProcessControlBlock → ProcessControlBlock} (hf : ∀ t, (f t).id = t.id) :
    Edits s (s.editById taskId f) := by
  rw [editById]
  cases s.findTask (·.id == taskId) with
  | none => exact Edits.refl s
  | some r => exact modify_edits s r hf

/-- What the body of a loop over all tasks preserves, the loop does. -/
lemma eachTask_invariant {P : Scheduler → Prop} {body : Scheduler → ℕ → Scheduler}
    (hbody : ∀ s r, P s → P (body s r)) (h : P s) : P (s.eachTask body) := by
  rw [eachTask]
  generalize List.finRange 1024 = slots
  induction slots generalizing s with
  | nil => exact h
  | cons i slots ih =>
    rw [List.foldl_cons]
    refine ih ?_
    cases s.runqueue i with
    | none => exact h
    | some r => exact hbody s r h

/-- The loop over all tasks: each round is an edit. -/
lemma eachTask_edits (s : Scheduler) {body : Scheduler → ℕ → Scheduler}
    (hbody : ∀ s r, Edits s (body s r)) : Edits s (s.eachTask body) :=
  eachTask_invariant (fun s₁ r h => h.trans (hbody s₁ r)) (Edits.refl s)

lemma wakeUpTasks_edits (s : Scheduler) : Edits s s.wakeUpTasks := by
  refine eachTask_edits s fun s r => ?_
  split_ifs
  · exact modify_edits s r fun _ => rfl
  · exact Edits.refl s

end Moves

/-! ## `schedule` -/

section Schedule

variable {s s' : Scheduler}

/-- The slot that is found holds a ready task. -/
lemma findNextTask_ready {current : U64} {i : Slot} (h : s.findNextTask current = some i) :
    ∃ r, s.runqueue i = some r ∧ (s.blocks r).state = .ready := by
  have hready := List.find?_some h
  rw [readyAt, Option.any_eq_true] at hready
  obtain ⟨r, hr, hstate⟩ := hready
  exact ⟨r, hr, by simpa using hstate⟩

/-- **`schedule`** panics exactly when it is not locked and there is no current task. -/
lemma schedule_eq_none : s.schedule = none ↔ s.schedLock = false ∧ s.currentTask = none := by
  rw [schedule]
  cases hlock : s.schedLock with
  | true => simp
  | false =>
    cases hcur : s.currentTask with
    | none => simp
    | some current =>
      simp only [Bool.false_eq_true, if_false, reduceCtorEq, and_false, iff_false]
      cases hnext : (s.demote current).findNextTask ((s.demote current).blocks current).id with
      | none => simp
      | some i =>
        obtain ⟨r, hr, -⟩ := findNextTask_ready hnext
        simp only [hr]
        split_ifs <;> simp

lemma demote_edits (s : Scheduler) (r : ℕ) : Edits s (s.demote r) :=
  ⟨demote_keeps s r, demote_currentTask s r, demote_schedLock s r⟩

/-- **What `schedule` can do**: nothing, make the current task ready, or switch to a ready task. -/
lemma schedule_cases (h : s.schedule = some s') :
    s' = s ∨ ∃ current, s.currentTask = some current ∧ (s' = s.demote current ∨
      ∃ i next, s.runqueue i = some next ∧
        s' = { (s.demote current).setState next .running with currentTask := some next }) := by
  rw [schedule] at h
  split_ifs at h with hlock
  · exact .inl (Option.some.inj h).symm
  · cases hcur : s.currentTask with
    | none => simp [hcur] at h
    | some current =>
      simp only [hcur] at h
      refine .inr ⟨current, rfl, ?_⟩
      cases hnext : (s.demote current).findNextTask ((s.demote current).blocks current).id with
      | none =>
        simp only [hnext, Option.some.injEq] at h
        exact .inl h.symm
      | some i =>
        obtain ⟨next, hi, -⟩ := findNextTask_ready hnext
        simp only [hnext, hi] at h
        split_ifs at h
        · refine .inr ⟨i, next, ?_, (Option.some.inj h).symm⟩
          rw [← (demote_keeps s current).runqueue, hi]
        · exact .inl (Option.some.inj h).symm

/-- What `schedule` leaves alone. -/
lemma schedule_moves (h : s.schedule = some s') : Moves s s' ∧ s'.schedLock = s.schedLock := by
  rcases schedule_cases h with rfl | ⟨current, hcur, rfl | ⟨i, next, hi, rfl⟩⟩
  · exact ⟨(Edits.refl s').moves, rfl⟩
  · exact ⟨(demote_edits s current).moves, (demote_edits s current).schedLock⟩
  · have hdemote := demote_edits s current
    refine ⟨⟨hdemote.toSameQueue.trans ?_, .inr ⟨by rw [hcur]; rfl, rfl, i, hi⟩⟩, hdemote.schedLock⟩
    exact ⟨rfl, rfl, rfl, rfl, rfl, (setState_keeps _ next .running).id⟩

/-- The calls that edit blocks and then schedule. -/
lemma schedule_moves_of_edits {s₀ : Scheduler} (hedits : Edits s s₀) (h : s₀.schedule = some s') :
    Moves s s' ∧ s'.schedLock = s.schedLock := by
  obtain ⟨hmoves, hlock⟩ := schedule_moves h
  exact ⟨.trans_keeps hedits.toSameQueue hedits.currentTask hmoves, hlock.trans hedits.schedLock⟩

lemma tick_moves (h : s.tick = some s') : Moves s s' ∧ s'.schedLock = s.schedLock := by
  rw [tick] at h
  cases hcur : s.currentTask with
  | none =>
    simp only [hcur] at h
    exact schedule_moves h
  | some current =>
    simp only [hcur] at h
    have hcount := modify_edits s current
      (f := fun t => { t with tickCount := t.tickCount + 1#32 }) fun _ => rfl
    split_ifs at h
    · refine schedule_moves_of_edits (hcount.trans ?_) h
      exact modify_edits _ current fun _ => rfl
    · cases h
      exact ⟨hcount.moves, hcount.schedLock⟩

lemma sleepCurrentTask_moves {duration : U64} (h : s.sleepCurrentTask duration = some s') :
    Moves s s' ∧ s'.schedLock = s.schedLock := by
  rw [sleepCurrentTask] at h
  cases hcur : s.currentTask with
  | none =>
    simp only [hcur, Option.some.injEq] at h
    subst h
    exact ⟨(Edits.refl s).moves, rfl⟩
  | some current =>
    simp only [hcur] at h
    refine schedule_moves_of_edits ?_ h
    exact modify_edits s current fun _ => rfl

lemma forceContextSwitch_moves (h : s.forceContextSwitch = some s') :
    Moves s s' ∧ s'.schedLock = s.schedLock := by
  rw [forceContextSwitch] at h
  refine schedule_moves_of_edits ?_ h
  cases s.currentTask with
  | none => exact Edits.refl s
  | some current => exact demote_edits s current

lemma forceSchedule_moves (h : s.forceSchedule = some s') : Moves s s' ∧ s'.schedLock = false := by
  obtain ⟨hmoves, hlock⟩ := schedule_moves (s := { s with schedLock := false }) h
  exact ⟨⟨⟨hmoves.runqueue, hmoves.taskCount, hmoves.made, hmoves.nextTaskId, hmoves.pidCounter,
    hmoves.id⟩, hmoves.current⟩, hlock⟩

lemma rescheduleIfNeeded_moves (h : s.rescheduleIfNeeded = some s') :
    Moves s s' ∧ s'.schedLock = s.schedLock := by
  rw [rescheduleIfNeeded] at h
  have hsame : s = s' → Moves s s' ∧ s'.schedLock = s.schedLock := by
    rintro rfl
    exact ⟨(Edits.refl s).moves, rfl⟩
  split_ifs at h with hlock
  · exact hsame (Option.some.inj h)
  · cases hcur : s.currentTask with
    | none =>
      simp only [hcur, Option.some.injEq] at h
      exact hsame h
    | some current =>
      simp only [hcur] at h
      split_ifs at h
      · exact schedule_moves h
      · exact hsame (Option.some.inj h)

/-- The first task with a property is in the queue. -/
lemma findTask_queued {p : ProcessControlBlock → Bool} {r : ℕ} (h : s.findTask p = some r) :
    ∃ i, s.runqueue i = some r ∧ p (s.blocks r) = true := by
  rw [findTask, Option.bind_eq_some_iff] at h
  obtain ⟨i, hi, hr⟩ := h
  have hp := List.find?_some hi
  rw [hr] at hp
  exact ⟨i, hr, by simpa using hp⟩

lemma scheduleWithPolicy_moves (s : Scheduler) :
    Moves s s.scheduleWithPolicy ∧ s.scheduleWithPolicy.schedLock = s.schedLock := by
  have hsame : Moves s s ∧ s.schedLock = s.schedLock := ⟨(Edits.refl s).moves, rfl⟩
  unfold scheduleWithPolicy
  split
  next nextId current _ hcur =>
    split_ifs
    · cases htask : s.findTask (·.id == nextId) with
      | none => exact hsame
      | some task =>
        obtain ⟨i, hi, -⟩ := findTask_queued htask
        refine ⟨⟨⟨rfl, rfl, rfl, rfl, rfl, (setState_keeps s task .running).id⟩, ?_⟩, rfl⟩
        exact .inr ⟨by rw [hcur]; rfl, rfl, i, hi⟩
    · exact hsame
  · exact hsame

end Schedule

/-! ## Slots -/

section Slots

variable {s s' : Scheduler} {i : Slot}

lemma freeSlot_eq_some :
    s.freeSlot = some i ↔ s.runqueue i = none ∧ ∀ j < i, s.runqueue j ≠ none := by
  rw [freeSlot, find?_finRange_eq_some]
  simp [Option.isNone_iff_eq_none, Option.isSome_iff_ne_none]

lemma freeSlot_eq_none : s.freeSlot = none ↔ ∀ i, s.runqueue i ≠ none := by
  rw [freeSlot, List.find?_eq_none]
  simp [Option.isNone_iff_eq_none]

/-- The slots that hold a task. -/
def occupied (s : Scheduler) : Finset Slot := Finset.univ.filter fun i => (s.runqueue i).isSome

lemma mem_occupied : i ∈ s.occupied ↔ s.runqueue i ≠ none := by
  simp [occupied, Option.isSome_iff_ne_none]

lemma card_occupied_le (s : Scheduler) : s.occupied.card ≤ 1024 := by
  have hle := Finset.card_le_univ s.occupied
  rwa [Fintype.card_fin] at hle

lemma card_occupied_eq : s.occupied.card = 1024 ↔ ∀ i, s.runqueue i ≠ none := by
  have hcard : s.occupied.card = 1024 ↔ s.occupied = Finset.univ := by
    rw [← Finset.card_eq_iff_eq_univ, Fintype.card_fin]
  rw [hcard, Finset.eq_univ_iff_forall]
  exact forall_congr' fun i => mem_occupied

/-- **The book-keeping.**  The count is right, references are those of blocks that exist, and no
block is in two slots. -/
structure Tracked (s : Scheduler) : Prop where
  count : s.taskCount = s.occupied.card
  queued_lt : ∀ i r, s.runqueue i = some r → r < s.made
  current_lt : ∀ r, s.currentTask = some r → r < s.made
  inj : ∀ i j r, s.runqueue i = some r → s.runqueue j = some r → i = j

/-- There is room exactly when the count says so. -/
lemma Tracked.full_iff (h : Tracked s) : s.taskCount ≥ 1024 ↔ ∀ i, s.runqueue i ≠ none := by
  have hle := card_occupied_le s
  rw [h.count, ← card_occupied_eq]
  omega

lemma boot_tracked : Tracked boot where
  count := by simp [boot, occupied]
  queued_lt i r h := nomatch h
  current_lt r h := nomatch h
  inj i j r h := nomatch h

lemma Tracked.moves (h : Tracked s) (hmoves : Moves s s') : Tracked s' where
  count := by
    rw [hmoves.taskCount, h.count, occupied, occupied, hmoves.runqueue]
  queued_lt i r hr := by
    rw [hmoves.runqueue] at hr
    rw [hmoves.made]
    exact h.queued_lt i r hr
  current_lt r hr := by
    rw [hmoves.made]
    rcases hmoves.current with heq | ⟨-, -, i, hi⟩
    · rw [heq] at hr
      exact h.current_lt r hr
    · rw [hr] at hi
      exact h.queued_lt i r hi
  inj := by
    rw [hmoves.runqueue]
    exact h.inj

lemma Tracked.hold (h : Tracked s) (block : ProcessControlBlock) : Tracked (s.hold block) where
  count := h.count
  queued_lt i r hr := (h.queued_lt i r hr).trans (Nat.lt_succ_self _)
  current_lt r hr := (h.current_lt r hr).trans (Nat.lt_succ_self _)
  inj := h.inj

/-- A task gets a slot. -/
lemma Tracked.enqueue (h : Tracked s) (hi : s.runqueue i = none) {r : ℕ} (hr : r < s.made)
    (hnew : ∀ j, s.runqueue j ≠ some r) : Tracked (s.enqueue i r) where
  count := by
    have hocc : (s.enqueue i r).occupied = insert i s.occupied := by
      ext j
      by_cases hj : j = i
      · simp [mem_occupied, Scheduler.enqueue, hj]
      · simp [mem_occupied, Scheduler.enqueue, hj]
    have hout : i ∉ s.occupied := fun hmem => mem_occupied.mp hmem hi
    rw [hocc, Finset.card_insert_of_notMem hout, ← h.count]
    rfl
  queued_lt j r' hj := by
    by_cases hji : j = i
    · simp only [Scheduler.enqueue, hji, Function.update_self, Option.some.injEq] at hj
      exact hj ▸ hr
    · simp only [Scheduler.enqueue, Function.update_of_ne hji] at hj
      exact h.queued_lt j r' hj
  current_lt := h.current_lt
  inj j k r' hj hk := by
    simp only [Scheduler.enqueue, Function.update_apply] at hj hk
    split_ifs at hj hk with hji hki hki
    · rw [hji, hki]
    · rw [Option.some.injEq] at hj
      exact absurd hk (hj ▸ hnew k)
    · rw [Option.some.injEq] at hk
      exact absurd hj (hk ▸ hnew j)
    · exact h.inj j k r' hj hk

/-- What a call that takes tasks out of the queue leaves alone. -/
structure Removes (s s' : Scheduler) : Prop where
  blocks : s'.blocks = s.blocks
  made : s'.made = s.made
  schedLock : s'.schedLock = s.schedLock
  nextTaskId : s'.nextTaskId = s.nextTaskId
  pidCounter : s'.pidCounter = s.pidCounter
  runqueue : ∀ j, s'.runqueue j = s.runqueue j ∨ s'.runqueue j = none

lemma Removes.trans {s₁ : Scheduler} (h : Removes s s₁) (h' : Removes s₁ s') : Removes s s' where
  blocks := h'.blocks.trans h.blocks
  made := h'.made.trans h.made
  schedLock := h'.schedLock.trans h.schedLock
  nextTaskId := h'.nextTaskId.trans h.nextTaskId
  pidCounter := h'.pidCounter.trans h.pidCounter
  runqueue j := by
    rcases h'.runqueue j with heq | hnone
    · rw [heq]
      exact h.runqueue j
    · exact .inr hnone

/-- **A slot is emptied**: the count cannot underflow. -/
lemma Tracked.release (h : Tracked s) (hi : s.runqueue i ≠ none) :
    ∃ s', s.release i = some s' ∧ Tracked s' ∧ Removes s s' ∧ s'.currentTask = s.currentTask ∧
      s'.runqueue = Function.update s.runqueue i none := by
  have hmem : i ∈ s.occupied := mem_occupied.mpr hi
  have hpos : 0 < s.occupied.card := Finset.card_pos.mpr ⟨i, hmem⟩
  have hcount := h.count
  refine ⟨_, if_neg (by omega), ⟨?_, ?_, h.current_lt, ?_⟩, ⟨rfl, rfl, rfl, rfl, rfl, ?_⟩, rfl, rfl⟩
  · have hocc : ({ s with
        runqueue := Function.update s.runqueue i none, taskCount := s.taskCount - 1 } :
          Scheduler).occupied = s.occupied.erase i := by
      ext j
      by_cases hj : j = i
      · simp [mem_occupied, hj]
      · simp [mem_occupied, hj]
    rw [hocc, Finset.card_erase_of_mem hmem, ← hcount]
  · intro j r hj
    simp only [Function.update_apply] at hj
    split_ifs at hj
    exact h.queued_lt j r hj
  · intro j k r hj hk
    simp only [Function.update_apply] at hj hk
    split_ifs at hj hk
    exact h.inj j k r hj hk
  · intro j
    by_cases hj : j = i
    · exact .inr (hj ▸ Function.update_self ..)
    · exact .inl (Function.update_of_ne hj _ _)

end Slots

/-! ## Tasks come and go -/

section Tasks

variable {s s' : Scheduler}

lemma Tracked.not_queued (h : Tracked s) (j : Slot) : s.runqueue j ≠ some s.made :=
  fun hj => lt_irrefl _ (h.queued_lt j _ hj)

/-- The check of `TASK_COUNT` and the search for a free slot agree. -/
lemma Tracked.freeSlot_cases (h : Tracked s) :
    (s.taskCount ≥ 1024 ∧ ∀ i, s.runqueue i ≠ none) ∨
      (¬ s.taskCount ≥ 1024 ∧ ∃ i, s.freeSlot = some i) := by
  by_cases hfull : s.taskCount ≥ 1024
  · exact .inl ⟨hfull, h.full_iff.mp hfull⟩
  · cases hfree : s.freeSlot with
    | none => exact absurd (h.full_iff.mpr (freeSlot_eq_none.mp hfree)) hfull
    | some i => exact .inr ⟨hfull, i, rfl⟩

/-- `add_task` uses the first free slot, if there is one. -/
lemma Tracked.addTask_eq (h : Tracked s) (r : ℕ) :
    ((∀ i, s.runqueue i ≠ none) ∧ s.addTask r = s) ∨
      ∃ i, s.freeSlot = some i ∧ s.addTask r = s.enqueue i r := by
  rw [addTask]
  rcases h.freeSlot_cases with ⟨hfull, hnone⟩ | ⟨hroom, i, hfree⟩
  · exact .inl ⟨hnone, if_pos hfull⟩
  · rw [if_neg hroom, hfree]
    exact .inr ⟨i, rfl, rfl⟩

lemma Tracked.addTask (h : Tracked s) {r : ℕ} (hr : r < s.made)
    (hnew : ∀ j, s.runqueue j ≠ some r) : Tracked (s.addTask r) := by
  rcases h.addTask_eq r with ⟨-, heq⟩ | ⟨i, hfree, heq⟩
  · rwa [heq]
  · rw [heq]
    exact h.enqueue (freeSlot_eq_some.mp hfree).1 hr hnew

/-- The state in which `init_scheduler` calls `add_task`. -/
lemma Tracked.promote (h : Tracked s) {r : ℕ} (hr : r < s.made) :
    Tracked ({ s with currentTask := some r }.setState r .running) where
  count := h.count
  queued_lt := h.queued_lt
  current_lt r' hr' := by
    rw [setState_currentTask, Option.some.injEq] at hr'
    exact hr' ▸ hr
  inj := h.inj

lemma Tracked.initScheduler (h : Tracked s) {r : ℕ} (hr : r < s.made)
    (hnew : ∀ j, s.runqueue j ≠ some r) : Tracked (s.initScheduler r) :=
  (h.promote hr).addTask hr hnew

/-- `create_task` uses the first free slot, if there is one. -/
lemma Tracked.createTask_eq (h : Tracked s) (N : NewPcb) :
    ((∀ i, s.runqueue i ≠ none) ∧ s.createTask N = (none, s)) ∨
      ∃ i, s.freeSlot = some i ∧ s.createTask N = (some s.nextTaskId,
        { s.hold (N.make s.nextTaskId s.pidCounter) with
          nextTaskId := s.nextTaskId + 1#64, pidCounter := s.pidCounter + 4#64 }.enqueue i
            s.made) := by
  rw [createTask]
  rcases h.freeSlot_cases with ⟨hfull, hnone⟩ | ⟨hroom, i, hfree⟩
  · exact .inl ⟨hnone, if_pos hfull⟩
  · refine .inr ⟨i, hfree, ?_⟩
    have hsame : { s with nextTaskId := s.nextTaskId + 1#64 }.freeSlot = some i := hfree
    simp only [if_neg hroom, hsame]
    rfl

lemma Tracked.createTask (h : Tracked s) (N : NewPcb) : Tracked (s.createTask N).2 := by
  rcases h.createTask_eq N with ⟨-, heq⟩ | ⟨i, hfree, heq⟩
  · rwa [heq]
  · rw [heq]
    have hheld := h.hold (N.make s.nextTaskId s.pidCounter)
    have htracked : Tracked ({ s.hold (N.make s.nextTaskId s.pidCounter) with
        nextTaskId := s.nextTaskId + 1#64, pidCounter := s.pidCounter + 4#64 }) :=
      ⟨hheld.count, hheld.queued_lt, hheld.current_lt, hheld.inj⟩
    exact htracked.enqueue (freeSlot_eq_some.mp hfree).1 (Nat.lt_succ_self _) h.not_queued

/-- **`remove_current_task`** does not panic. -/
lemma Tracked.removeCurrentTask (h : Tracked s) :
    ∃ s', s.removeCurrentTask = some s' ∧ Tracked s' ∧ Removes s s' ∧ s'.currentTask = none := by
  rw [Scheduler.removeCurrentTask]
  have hdrop : Removes s { s with currentTask := none } :=
    ⟨rfl, rfl, rfl, rfl, rfl, fun _ => .inl rfl⟩
  have hnone : Tracked { s with currentTask := none } :=
    ⟨h.count, h.queued_lt, fun r hr => (nomatch hr), h.inj⟩
  cases hcur : s.currentTask with
  | none => exact ⟨s, rfl, h, ⟨rfl, rfl, rfl, rfl, rfl, fun _ => .inl rfl⟩, hcur⟩
  | some task =>
    cases hslot : { s with currentTask := none }.findSlot
        (·.id == ({ s with currentTask := none }.blocks task).id) with
    | none =>
      simp only [hslot]
      exact ⟨_, rfl, hnone, hdrop, rfl⟩
    | some i =>
      have hfound := List.find?_some hslot
      have hi : ({ s with currentTask := none } : Scheduler).runqueue i ≠ none := by
        rintro hi
        rw [hi] at hfound
        cases hfound
      obtain ⟨s', hs', htracked, hdrops, hcurrent, -⟩ := hnone.release hi
      simp only [hslot]
      exact ⟨s', hs', htracked, ⟨hdrops.blocks, hdrops.made, hdrops.schedLock,
        hdrops.nextTaskId, hdrops.pidCounter, hdrops.runqueue⟩, hcurrent⟩

/-- The loop of `cleanup_zombie_tasks`, over some of the slots. -/
lemma Tracked.cleanupSlots (slots : List Slot) : ∀ {s : Scheduler}, Tracked s →
    ∃ s', slots.foldlM cleanupSlot s = some s' ∧ Tracked s' ∧ Removes s s' ∧
      s'.currentTask = s.currentTask ∧
      (∀ j ∈ slots, s'.runqueue j = (s.runqueue j).filter fun r => !s.zombie r) ∧
      ∀ j, j ∉ slots → s'.runqueue j = s.runqueue j := by
  induction slots with
  | nil =>
    intro s h
    exact ⟨s, rfl, h, ⟨rfl, rfl, rfl, rfl, rfl, fun _ => .inl rfl⟩, rfl, by simp, by simp⟩
  | cons i slots ih =>
    intro s h
    -- the first round, whether it empties the slot or not
    obtain ⟨s₁, hs₁, htracked₁, hdrops₁, hcur₁, hself₁, hother₁⟩ : ∃ s₁,
        s.cleanupSlot i = some s₁ ∧ Tracked s₁ ∧ Removes s s₁ ∧ s₁.currentTask = s.currentTask ∧
        s₁.runqueue i = (s.runqueue i).filter (fun r => !s.zombie r) ∧
        ∀ j, j ≠ i → s₁.runqueue j = s.runqueue j := by
      rw [cleanupSlot]
      cases hi : s.runqueue i with
      | none =>
        exact ⟨s, rfl, h, ⟨rfl, rfl, rfl, rfl, rfl, fun _ => .inl rfl⟩, rfl, hi, fun _ _ => rfl⟩
      | some r =>
        cases hz : s.zombie r with
        | false =>
          refine ⟨s, by simp [hz], h, ⟨rfl, rfl, rfl, rfl, rfl, fun _ => .inl rfl⟩, rfl, ?_,
            fun _ _ => rfl⟩
          simp [hi, hz, Option.filter_some]
        | true =>
          obtain ⟨s₁, hs₁, htracked₁, hdrops₁, hcur₁, hqueue₁⟩ :=
            h.release (i := i) (by simp [hi])
          refine ⟨s₁, by simpa [hz] using hs₁, htracked₁, hdrops₁, hcur₁, ?_, fun j hj => ?_⟩
          · simp [hqueue₁, hz, Option.filter_some]
          · rw [hqueue₁, Function.update_of_ne hj]
    obtain ⟨s', hs', htracked, hdrops, hcur, hin, hout⟩ := ih htracked₁
    have hzombie : s₁.zombie = s.zombie := by
      funext r
      rw [zombie, zombie, hdrops₁.blocks]
    rw [hzombie] at hin
    refine ⟨s', ?_, htracked, hdrops₁.trans hdrops, hcur.trans hcur₁, fun j hj => ?_,
      fun j hj => ?_⟩
    · rw [List.foldlM_cons, hs₁]
      exact hs'
    · by_cases hji : j = i
      · subst hji
        by_cases hjs : j ∈ slots
        · rw [hin j hjs, hself₁, Option.filter_filter]
          simp
        · rw [hout j hjs, hself₁]
      · rw [hin j ((List.mem_cons.mp hj).resolve_left hji), hother₁ j hji]
    · rw [List.mem_cons, not_or] at hj
      rw [hout j hj.2, hother₁ j hj.1]

/-- **`cleanup_zombie_tasks`** does not panic, and empties the slots of the zombies. -/
lemma Tracked.cleanupZombieTasks (h : Tracked s) :
    ∃ s', s.cleanupZombieTasks = some s' ∧ Tracked s' ∧ Removes s s' ∧
      s'.currentTask = s.currentTask ∧
      ∀ j, s'.runqueue j = (s.runqueue j).filter fun r => !s.zombie r := by
  obtain ⟨s', hs', htracked, hdrops, hcur, hqueue, -⟩ := h.cleanupSlots (List.finRange 1024)
  exact ⟨s', hs', htracked, hdrops, hcur, fun j => hqueue j (List.mem_finRange j)⟩

lemma resetScheduler_tracked (s : Scheduler) : Tracked s.resetScheduler where
  count := by simp [resetScheduler, occupied]
  queued_lt i r h := nomatch h
  current_lt r h := nomatch h
  inj i j r h := nomatch h

end Tasks

end Scheduler

end Masika
