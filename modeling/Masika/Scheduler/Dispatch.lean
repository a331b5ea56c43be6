import Masika.Scheduler.Priority

/-!
# Which task is running

`find_next_task` looks at every slot of the queue once, beginning with the one after the slot that
the id of the current task points to (`nextIdx_spec`).

The state `Running` belongs to the current task alone (`OneRunning`).  The calls that change the
current task have to take the state from one task and to give it to the other.

* `schedule` first makes the current task ready, so the scan can come back to it.  Then it is
  neither switched to nor made running again: nothing runs any more.  This does not happen if the
  scan meets another ready task first (`ReadyAhead`).
* `schedule_with_policy` gives the state to the new task and does not take it from the old one.  It
  is harmless only when it finds no task (`NoChoice`): no ready task has a priority below 255, or
  the one it picks has the id 0, which stands for none.

These conditions are exact, so they say which runs keep `OneRunning` (`oneRunning_iff`).
-/

namespace Masika

namespace Scheduler

/-! ## The scan of `find_next_task` -/

/-- How many slots `find_next_task` looks at before slot `j`. -/
def scanDistance (current : U64) (j : Slot) : ℕ := placesFrom (current.toNat % 1024 + 1) j

section Scan

variable {s : Scheduler} {current : U64} {i j : Slot}

lemma scanDistance_inj (h : scanDistance current i = scanDistance current j) : i = j := by
  rw [← circle_placesFrom (by decide) (current.toNat % 1024 + 1) i,
    ← circle_placesFrom (by decide) (current.toNat % 1024 + 1) j]
  exact congrArg _ h

lemma scanned_eq (current : U64) :
    scanned current = circle (by decide) (current.toNat % 1024 + 1) := rfl

/-- **`find_next_task`** finds the first ready task of its scan. -/
lemma findNextTask_eq_some : s.findNextTask current = some j ↔
    s.readyAt j = true ∧
      ∀ k, scanDistance current k < scanDistance current j → s.readyAt k = false := by
  rw [findNextTask, scanned_eq, find?_circle_eq_some]
  rfl

lemma findNextTask_eq_none : s.findNextTask current = none ↔ ∀ j, s.readyAt j = false := by
  rw [findNextTask, scanned_eq, find?_circle_eq_none]

lemma readyAt_eq_true :
    s.readyAt i = true ↔ ∃ r, s.runqueue i = some r ∧ (s.blocks r).state = .ready := by
  simp [readyAt, Option.any_eq_true]

/-- The slot that is found is the first ready one of the scan. -/
lemma exists_least_of_findNextTask (h : s.findNextTask current = some j) :
    ∃ n < 1024, j = scanned current n ∧ s.readyAt (scanned current n) = true ∧
      ∀ k < n, s.readyAt (scanned current k) = false := by
  rw [findNextTask, List.find?_map, Option.map_eq_some_iff] at h
  obtain ⟨n, hn, rfl⟩ := h
  rw [List.find?_range_eq_some] at hn
  obtain ⟨hready, hlt, hbefore⟩ := hn
  refine ⟨n, List.mem_range.mp hlt, rfl, hready, fun k hk => ?_⟩
  simpa using hbefore k hk

end Scan

/-- There is a ready task in the slot. -/
def HoldsReady (s : Scheduler) (i : Slot) : Prop :=
  ∃ r, s.runqueue i = some r ∧ (s.blocks r).state = .ready

/-- The `i32` that `find_next_task` returns. -/
def nextIdx (s : Scheduler) (current : U64) : U32 :=
  (s.findNextTask current).elim (-1#32) fun i => BitVec.ofNat 32 i.val

section NextIdx

variable {s : Scheduler} {current : U64} {i : Slot}

/-- `idx as i32` -/
lemma toInt_ofNat_slot (i : Slot) : (BitVec.ofNat 32 i.val).toInt = i.val := by
  have hsmall : (BitVec.ofNat 32 i.val).toNat = i.val := by
    rw [BitVec.toNat_ofNat]
    exact Nat.mod_eq_of_lt (i.isLt.trans (by decide))
  rw [BitVec.toInt_eq_toNat_of_lt, hsmall]
  rw [hsmall]
  omega

lemma nextIdx_of_none (h : s.findNextTask current = none) : (s.nextIdx current).toInt = -1 := by
  rw [nextIdx, h, Option.elim_none]
  decide

lemma nextIdx_of_some (h : s.findNextTask current = some i) :
    (s.nextIdx current).toInt = i.val := by
  rw [nextIdx, h, Option.elim_some, toInt_ofNat_slot]

end NextIdx

/-- **`find_next_task` searches the whole queue**, from the slot after `current % MAX_TASKS` on.  It
returns -1 only if no task is ready, and otherwise the first slot with a ready task. -/
theorem nextIdx_spec (s : Scheduler) (current : U64) :
    ((s.nextIdx current).toInt = -1 ↔ ∀ j, ¬ s.HoldsReady j) ∧
      ((∃ j, s.HoldsReady j) → ∃ i < 1024, ∃ slot : Slot,
        slot.val = (current.toNat % 1024 + 1 + i) % 1024 ∧ (s.nextIdx current).toInt = slot.val ∧
          s.HoldsReady slot ∧
          ∀ k < i, ∀ before : Slot, before.val = (current.toNat % 1024 + 1 + k) % 1024 →
            ¬ s.HoldsReady before) := by
  cases hnext : s.findNextTask current with
  | none =>
    have hnone : ∀ j, ¬ s.HoldsReady j := by
      intro j hj
      have hready := readyAt_eq_true.mpr hj
      rw [findNextTask_eq_none.mp hnext j] at hready
      cases hready
    refine ⟨iff_of_true (nextIdx_of_none hnext) hnone, fun ⟨j, hj⟩ => ?_⟩
    exact absurd hj (hnone j)
  | some j =>
    obtain ⟨i, hi, rfl, hready, hbefore⟩ := exists_least_of_findNextTask hnext
    have hidx := nextIdx_of_some hnext
    have hholds : s.HoldsReady (scanned current i) := readyAt_eq_true.mp hready
    refine ⟨iff_of_false (by omega) fun h => h _ hholds, fun _ => ?_⟩
    refine ⟨i, hi, scanned current i, rfl, hidx, hholds, fun k hk before hslot hheld => ?_⟩
    have hsame : before = scanned current k := Fin.ext hslot
    rw [hsame] at hheld
    have hready' := readyAt_eq_true.mpr hheld
    rw [hbefore k hk] at hready'
    cases hready'

/-! ## The property -/

/-- The ids of the tasks in the queue are different. -/
def DistinctIds (s : Scheduler) : Prop :=
  ∀ i j r r', s.runqueue i = some r → s.runqueue j = some r' →
    (s.blocks r).id = (s.blocks r').id → i = j

/-- `t` is the current task, it is queued, and it is the only queued task that is running. -/
structure RunningOnly (s : Scheduler) (t : ℕ) : Prop where
  current : s.currentTask = some t
  queued : ∃ i, s.runqueue i = some t
  running : ∀ i r, s.runqueue i = some r → ((s.blocks r).state = .running ↔ r = t)

/-- Exactly one queued task is running, and it is the current one. -/
def OneRunning (s : Scheduler) : Prop := ∃ t, s.RunningOnly t

/-- A ready task is met before the scan comes to the current task. -/
def ReadyAhead (s : Scheduler) : Prop :=
  ∀ t i, s.currentTask = some t → s.runqueue i = some t →
    ∃ j, s.readyAt j = true ∧ scanDistance (s.blocks t).id j < scanDistance (s.blocks t).id i

/-- The next tick ends the slice of the current task. -/
def SliceOver (s : Scheduler) : Prop :=
  ∀ t, s.currentTask = some t → (s.blocks t).tickCount + 1#32 ≥ (s.blocks t).timeSlice

/-- No ready task has a priority below 255, or the first one of the least priority has the id 0. -/
def NoChoice (s : Scheduler) : Prop :=
  (∀ i r, s.runqueue i = some r → (s.blocks r).state = .ready → (s.blocks r).priority = 255#8) ∨
    ∃ i r, s.runqueue i = some r ∧ (s.blocks r).state = .ready ∧ (s.blocks r).priority < 255#8 ∧
      (s.blocks r).id = 0#64 ∧
      ∀ j r', s.runqueue j = some r' → (s.blocks r').state = .ready →
        (s.blocks r).priority ≤ (s.blocks r').priority ∧
          (j < i → (s.blocks r).priority < (s.blocks r').priority)

section Dispatch

variable {s s' : Scheduler} {t : ℕ}

lemma DistinctIds.eq_of_id (h : s.DistinctIds) {i j : Slot} {r r' : ℕ} (hr : s.runqueue i = some r)
    (hr' : s.runqueue j = some r') (hid : (s.blocks r).id = (s.blocks r').id) : r = r' := by
  rw [h i j r r' hr hr' hid, hr'] at hr
  exact (Option.some.inj hr).symm

lemma DistinctIds.keeps (h : s.DistinctIds) (hkeeps : SameQueue s s') : s'.DistinctIds := by
  intro i j r r' hr hr' hid
  rw [hkeeps.runqueue] at hr hr'
  rw [hkeeps.id, hkeeps.id] at hid
  exact h i j r r' hr hr' hid

/-! ## `schedule` -/

lemma RunningOnly.state (h : s.RunningOnly t) : (s.blocks t).state = .running := by
  obtain ⟨i, hi⟩ := h.queued
  exact (h.running i t hi).mpr rfl

/-- The ready tasks, once `t` is made ready. -/
lemma readyAt_setState_ready (s : Scheduler) (t : ℕ) (j : Slot) :
    (s.setState t .ready).readyAt j = true ↔ s.readyAt j = true ∨ s.runqueue j = some t := by
  rw [readyAt_eq_true, readyAt_eq_true, setState_runqueue]
  simp only [state_setState]
  constructor
  · rintro ⟨r, hr, hstate⟩
    by_cases hrt : r = t
    · exact .inr (hrt ▸ hr)
    · rw [if_neg hrt] at hstate
      exact .inl ⟨r, hr, hstate⟩
  · rintro (⟨r, hr, hstate⟩ | ht)
    · refine ⟨r, hr, ?_⟩
      split_ifs
      · rfl
      · exact hstate
    · exact ⟨t, ht, if_pos rfl⟩

/-- **`schedule`** when its scan finds the task `r`. -/
lemma schedule_eq (hlock : s.schedLock = false) (hcur : s.currentTask = some t) {j : Slot} {r : ℕ}
    (hnext : (s.demote t).findNextTask (s.blocks t).id = some j) (hr : s.runqueue j = some r) :
    s.schedule = if (s.blocks r).id ≠ (s.blocks t).id then
        some { (s.demote t).setState r .running with currentTask := some r }
      else some (s.demote t) := by
  have hkeeps := demote_keeps s t
  rw [schedule, hlock, hcur]
  simp only [Bool.false_eq_true, if_false, hkeeps.id, hnext, hkeeps.runqueue, hr]

lemma RunningOnly.demote_eq (h : s.RunningOnly t) : s.demote t = s.setState t .ready :=
  if_pos h.state

/-- **`schedule`** switches to another task if and only if there is one ahead. -/
lemma RunningOnly.schedule (h : s.RunningOnly t) (hlock : s.schedLock = false)
    (hids : s.DistinctIds) :
    (s.ReadyAhead ∧ ∃ j r, s.runqueue j = some r ∧ r ≠ t ∧ s.schedule =
        some { (s.setState t .ready).setState r .running with currentTask := some r }) ∨
      (¬ s.ReadyAhead ∧ s.schedule = some (s.setState t .ready)) := by
  obtain ⟨i, hi⟩ := h.queued
  have heq := fun {j r} => schedule_eq (j := j) (r := r) hlock h.current
  rw [h.demote_eq] at heq
  cases hnext : (s.setState t .ready).findNextTask (s.blocks t).id with
  | none =>
    have hnone := findNextTask_eq_none.mp hnext i
    rw [(readyAt_setState_ready s t i).mpr (.inr hi)] at hnone
    cases hnone
  | some j =>
    obtain ⟨hj, hbefore⟩ := findNextTask_eq_some.mp hnext
    rcases (readyAt_setState_ready s t j).mp hj with hready | ht
    · -- the task found is another one, and its slot comes before that of the current one
      obtain ⟨r, hr, hstate⟩ := readyAt_eq_true.mp hready
      have hrt : r ≠ t := by
        rintro rfl
        rw [h.state] at hstate
        cases hstate
      refine .inl ⟨fun t' i' ht' hi' => ⟨j, hready, ?_⟩, j, r, hr, hrt, ?_⟩
      · obtain rfl : t = t' := Option.some.inj (h.current.symm.trans ht')
        rcases lt_trichotomy (scanDistance (s.blocks t).id j) (scanDistance (s.blocks t).id i')
          with hlt | heq | hgt
        · exact hlt
        · rw [scanDistance_inj heq, hi'] at hr
          exact absurd (Option.some.inj hr).symm hrt
        · have hfalse := hbefore i' hgt
          rw [(readyAt_setState_ready s t i').mpr (.inr hi')] at hfalse
          cases hfalse
      · rw [heq hnext hr, if_pos fun hid => hrt (hids.eq_of_id hr hi hid)]
    · -- the scan has come back to the current task
      refine .inr ⟨fun hahead => ?_, ?_⟩
      · obtain ⟨k, hk, hlt⟩ := hahead t j h.current ht
        have hfalse := hbefore k hlt
        rw [(readyAt_setState_ready s t k).mpr (.inl hk)] at hfalse
        cases hfalse
      · rw [heq hnext ht, if_neg fun hne => hne rfl]

/-- The state `Running` has moved from `t` to `r`. -/
lemma RunningOnly.switch (h : s.RunningOnly t) {j : Slot} {r : ℕ} (hr : s.runqueue j = some r) :
    RunningOnly { (s.setState t .ready).setState r .running with currentTask := some r } r where
  current := rfl
  queued := ⟨j, hr⟩
  running i r' hr' := by
    simp only [state_setState]
    by_cases hrr : r' = r
    · rw [if_pos hrr]
      exact iff_of_true rfl hrr
    · rw [if_neg hrr]
      by_cases hrt : r' = t
      · rw [if_pos hrt]
        exact iff_of_false (fun h => nomatch h) hrr
      · rw [if_neg hrt, h.running i r' hr']
        exact iff_of_false hrt hrr

/-- If it has only been taken away, nothing runs. -/
lemma RunningOnly.not_oneRunning (h : s.RunningOnly t) : ¬ (s.setState t .ready).OneRunning := by
  rintro ⟨t', h'⟩
  obtain rfl : t = t' := Option.some.inj (h.current.symm.trans h'.current)
  have hstate := h'.state
  rw [state_setState, if_pos rfl] at hstate
  cases hstate

lemma schedule_oneRunning_iff (h : s.OneRunning) (hlock : s.schedLock = false)
    (hids : s.DistinctIds) : s.ReadyAhead ↔ ∀ s', s.schedule = some s' → s'.OneRunning := by
  obtain ⟨t, ht⟩ := h
  rcases ht.schedule hlock hids with ⟨hahead, j, r, hr, -, heq⟩ | ⟨hnot, heq⟩
  · refine iff_of_true hahead fun s' hs' => ?_
    rw [← Option.some.inj (heq.symm.trans hs')]
    exact ⟨r, ht.switch hr⟩
  · exact iff_of_false hnot fun hall => ht.not_oneRunning (hall _ heq)

/-- `force_context_switch` makes the current task ready, as `schedule` does in any case. -/
lemma forceContextSwitch_eq_schedule (ht : s.currentTask = some t) (hlock : s.schedLock = false) :
    s.forceContextSwitch = s.schedule := by
  have htwice : (s.demote t).demote t = s.demote t := by
    rw [demote, if_neg]
    rw [demote]
    split_ifs with hrun
    · rw [state_setState, if_pos rfl]
      decide
    · exact hrun
  rw [forceContextSwitch, ht, Option.elim_some, Scheduler.schedule, Scheduler.schedule,
    demote_schedLock, demote_currentTask, ht, hlock]
  simp only [htwice, Bool.false_eq_true, if_false]

/-! ## `tick` -/

/-- Nothing that `OneRunning` looks at has changed. -/
structure SameStates (s s' : Scheduler) : Prop extends Edits s s' where
  state : ∀ r, (s'.blocks r).state = (s.blocks r).state

lemma SameStates.trans {s₁ : Scheduler} (h : SameStates s s₁) (h' : SameStates s₁ s') :
    SameStates s s' :=
  ⟨h.toEdits.trans h'.toEdits, fun r => (h'.state r).trans (h.state r)⟩

lemma modify_sameStates (s : Scheduler) (r : ℕ) {f : ProcessControlBlock → ProcessControlBlock}
    (hid : ∀ t, (f t).id = t.id) (hstate : ∀ t, (f t).state = t.state) :
    SameStates s (s.modify r f) :=
  ⟨modify_edits s r hid, modify_field (·.state) s r hstate⟩

lemma SameStates.oneRunning (hsame : SameStates s s') (h : s.OneRunning) : s'.OneRunning := by
  obtain ⟨t, ht⟩ := h
  refine ⟨t, hsame.currentTask.trans ht.current, ?_, ?_⟩
  · rw [hsame.runqueue]
    exact ht.queued
  · intro i r hr
    rw [hsame.runqueue] at hr
    rw [hsame.state]
    exact ht.running i r hr

lemma SameStates.readyAhead_iff (hsame : SameStates s s') : s'.ReadyAhead ↔ s.ReadyAhead := by
  have hready : ∀ j, s'.readyAt j = s.readyAt j := by
    intro j
    simp only [readyAt, hsame.runqueue, hsame.state]
  simp only [ReadyAhead, hsame.currentTask, hsame.runqueue, hsame.id, hready]

lemma tick_oneRunning_iff (h : s.OneRunning) (hlock : s.schedLock = false) (hids : s.DistinctIds) :
    (s.SliceOver → s.ReadyAhead) ↔ ∀ s', s.tick = some s' → s'.OneRunning := by
  obtain ⟨t, ht⟩ := h
  have hcount : SameStates s (s.modify t fun b => { b with tickCount := b.tickCount + 1#32 }) :=
    modify_sameStates s t (fun _ => rfl) fun _ => rfl
  have hover : s.SliceOver ↔ (s.blocks t).tickCount + 1#32 ≥ (s.blocks t).timeSlice := by
    simp [SliceOver, ht.current]
  rw [tick, ht.current]
  simp only [modify, Function.update_self] at hcount ⊢
  by_cases hdue : (s.blocks t).tickCount + 1#32 ≥ (s.blocks t).timeSlice
  · rw [if_pos hdue]
    have hreset := hcount.trans (modify_sameStates _ t
      (f := ({ · with tickCount := 0#32 })) (fun _ => rfl) fun _ => rfl)
    simp only [modify, Function.update_self] at hreset
    rw [← schedule_oneRunning_iff (hreset.oneRunning ⟨t, ht⟩) (hreset.schedLock.trans hlock)
      (hids.keeps hreset.toSameQueue), hreset.readyAhead_iff]
    exact forall_prop_of_true (hover.mpr hdue)
  · rw [if_neg hdue]
    refine iff_of_true (fun hso => absurd (hover.mp hso) hdue) fun s' hs' => ?_
    rw [← Option.some.inj hs']
    exact hcount.oneRunning ⟨t, ht⟩

/-! ## `schedule_with_policy` -/

/-- **`get_highest_priority_ready_task`** finds no task exactly when there is no choice. -/
lemma highestPriority_cases (s : Scheduler) :
    (s.NoChoice ∧ s.getHighestPriorityReadyTask = none) ∨
      (¬ s.NoChoice ∧ ∃ i r, s.runqueue i = some r ∧ (s.blocks r).state = .ready ∧
        s.getHighestPriorityReadyTask = some (s.blocks r).id) := by
  rcases s.highestPriority_eq with ⟨hall, hnone⟩ | ⟨i, r, hfirst, hlt, heq⟩
  · exact .inl ⟨.inl hall, hnone⟩
  · by_cases hid : (s.blocks r).id = 0#64
    · rw [if_neg fun hne => hne hid] at heq
      exact .inl ⟨.inr ⟨i, r, hfirst.queued, hfirst.ready, hlt, hid, hfirst.least⟩, heq⟩
    · rw [if_pos hid] at heq
      refine .inr ⟨?_, i, r, hfirst.queued, hfirst.ready, heq⟩
      rintro (hall | ⟨j, r', hr', hready', -, hid', hleast'⟩)
      · rw [hall i r hfirst.queued hfirst.ready] at hlt
        exact absurd hlt (by decide)
      · rw [hfirst.unique ⟨hr', hready', hleast'⟩] at hid
        exact hid hid'

/-- The first task with the id of a queued task is this task. -/
lemma DistinctIds.findTask_eq (h : s.DistinctIds) {i : Slot} {r : ℕ} (hr : s.runqueue i = some r) :
    s.findTask (·.id == (s.blocks r).id) = some r := by
  have hslot : s.findSlot (·.id == (s.blocks r).id) = some i := by
    rw [findSlot, find?_finRange_eq_some]
    refine ⟨by simp [hr], fun j hj => ?_⟩
    rw [Option.any_eq_false]
    intro r' hr'
    rw [beq_eq_false_iff_ne]
    exact fun hid => hj.ne (h j i r' r hr' hr hid)
  rw [findTask, hslot, Option.bind_some, hr]

lemma scheduleWithPolicy_of_none (hbest : s.getHighestPriorityReadyTask = none) :
    s.scheduleWithPolicy = s := by
  unfold scheduleWithPolicy
  split
  next hsome _ =>
      rw [hbest] at hsome
      cases hsome
  next => rfl

lemma scheduleWithPolicy_of_some {i : Slot} {r : ℕ} (hids : s.DistinctIds)
    (hcur : s.currentTask = some t) (hr : s.runqueue i = some r)
    (hid : (s.blocks t).id ≠ (s.blocks r).id)
    (hbest : s.getHighestPriorityReadyTask = some (s.blocks r).id) :
    s.scheduleWithPolicy = { s.setState r .running with currentTask := some r } := by
  unfold scheduleWithPolicy
  split
  next nextId current hsome hcurrent =>
      obtain rfl : t = current := Option.some.inj (hcur.symm.trans hcurrent)
      obtain rfl : (s.blocks r).id = nextId := Option.some.inj (hbest.symm.trans hsome)
      rw [if_pos hid, hids.findTask_eq hr, Option.elim_some]
  next hnone => exact absurd hcur (hnone _ _ hbest)

lemma scheduleWithPolicy_oneRunning_iff (h : s.OneRunning) (hids : s.DistinctIds) :
    s.NoChoice ↔ s.scheduleWithPolicy.OneRunning := by
  have hrunning := h
  obtain ⟨t, ht⟩ := h
  obtain ⟨k, hk⟩ := ht.queued
  rcases s.highestPriority_cases with ⟨hno, hbest⟩ | ⟨hchoice, i, r, hr, hready, hbest⟩
  · rw [scheduleWithPolicy_of_none hbest]
    exact iff_of_true hno hrunning
  · have hrt : r ≠ t := by
      rintro rfl
      rw [ht.state] at hready
      cases hready
    have hid : (s.blocks t).id ≠ (s.blocks r).id := fun hid => hrt (hids.eq_of_id hk hr hid).symm
    rw [scheduleWithPolicy_of_some hids ht.current hr hid hbest]
    refine iff_of_false hchoice ?_
    -- the old task still runs
    rintro ⟨t', ht'⟩
    obtain rfl : r = t' := Option.some.inj ht'.current
    refine hrt ((ht'.running k t hk).mp ?_).symm
    simp only [state_setState, if_neg hrt.symm]
    exact ht.state

end Dispatch

end Scheduler

open Scheduler

/-! ## Runs -/

/-- The calls that may switch tasks. -/
inductive DispatchOp where
  | schedule
  | yieldCpu
  | tick
  | forceContextSwitch
  | scheduleWithPolicy

/-- One call. -/
def dispatchStep (s : Scheduler) : DispatchOp → Option Scheduler
  | .schedule => s.schedule
  | .yieldCpu => s.yieldCpu
  | .tick => s.tick
  | .forceContextSwitch => s.forceContextSwitch
  | .scheduleWithPolicy => some s.scheduleWithPolicy

/-- The condition under which a call keeps `OneRunning`. -/
def KeepsRunning (s : Scheduler) : DispatchOp → Prop
  | .schedule | .yieldCpu | .forceContextSwitch => s.ReadyAhead
  | .tick => s.SliceOver → s.ReadyAhead
  | .scheduleWithPolicy => s.NoChoice

lemma dispatchStep_moves {s s' : Scheduler} {op : DispatchOp} (h : dispatchStep s op = some s') :
    Moves s s' ∧ s'.schedLock = s.schedLock := by
  cases op with
  | schedule => exact schedule_moves h
  | yieldCpu => exact schedule_moves h
  | tick => exact tick_moves h
  | forceContextSwitch => exact forceContextSwitch_moves h
  | scheduleWithPolicy =>
    rw [← Option.some.inj h]
    exact scheduleWithPolicy_moves s

lemma keepsRunning_iff {s : Scheduler} (op : DispatchOp) (hlock : s.schedLock = false)
    (hids : s.DistinctIds) (h : s.OneRunning) :
    KeepsRunning s op ↔ ∀ s', dispatchStep s op = some s' → s'.OneRunning := by
  cases op with
  | schedule => exact schedule_oneRunning_iff h hlock hids
  | yieldCpu => exact schedule_oneRunning_iff h hlock hids
  | tick => exact tick_oneRunning_iff h hlock hids
  | forceContextSwitch =>
    have hrunning := h
    obtain ⟨t, ht⟩ := h
    rw [dispatchStep, forceContextSwitch_eq_schedule ht.current hlock]
    exact schedule_oneRunning_iff hrunning hlock hids
  | scheduleWithPolicy =>
    refine (scheduleWithPolicy_oneRunning_iff h hids).trans ⟨fun hs s' hs' => ?_, fun hs => ?_⟩
    · rwa [← Option.some.inj hs']
    · exact hs _ rfl

/-- **Exactly the current task is running** throughout a run if and only if every call of the run
meets its condition. -/
theorem oneRunning_iff {s : Scheduler} (hlock : s.schedLock = false) (hids : s.DistinctIds)
    (h : s.OneRunning) (ops : List DispatchOp) :
    Always OneRunning dispatchStep s ops ↔ Meets KeepsRunning dispatchStep s ops := by
  refine always_iff_meets (I := fun s => s.schedLock = false ∧ s.DistinctIds) ?_ ?_ ⟨hlock, hids⟩ h
  · rintro s op s' ⟨hlock, hids⟩ hs'
    obtain ⟨hmoves, hsame⟩ := dispatchStep_moves hs'
    exact ⟨hsame.trans hlock, hids.keeps hmoves.toSameQueue⟩
  · rintro s op ⟨hlock, hids⟩ h
    exact keepsRunning_iff op hlock hids h

/-- The first task is running and the second one ready, in the slots 0 and 1. -/
def twoTasks (first second : U64) : Scheduler where
  blocks r := if r = 0 then { readyBlock first with state := .running } else readyBlock second
  made := 2
  runqueue i := if i.val < 2 then some i.val else none
  currentTask := some 0
  taskCount := 2
  schedLock := false
  nextTaskId := 3#64
  pidCounter := 1#64

lemma twoTasks_queued {first second : U64} {i : Slot} {r : ℕ}
    (h : (twoTasks first second).runqueue i = some r) : i.val = r ∧ r < 2 := by
  simp only [twoTasks, Option.ite_none_right_eq_some, Option.some.injEq] at h
  omega

lemma twoTasks_distinctIds {first second : U64} (h : first ≠ second) :
    (twoTasks first second).DistinctIds := by
  intro i j r r' hr hr' hid
  obtain ⟨hir, hlt⟩ := twoTasks_queued hr
  obtain ⟨hjr, hlt'⟩ := twoTasks_queued hr'
  have hsame : r = 0 ↔ r' = 0 := by
    by_cases hr0 : r = 0 <;> by_cases hr0' : r' = 0 <;>
      simp [twoTasks, readyBlock, hr0, hr0', h, h.symm] at hid ⊢
  apply Fin.ext
  omega

lemma twoTasks_runningOnly (first second : U64) : (twoTasks first second).RunningOnly 0 where
  current := rfl
  queued := ⟨⟨0, by decide⟩, rfl⟩
  running i r hr := by
    by_cases hzero : r = 0
    · simp [twoTasks, hzero]
    · simp [twoTasks, hzero, readyBlock]

/-- The task with the id 1024 is followed by that in slot 1. -/
theorem oneRunning_twoTasks :
    Always OneRunning dispatchStep (twoTasks 1024#64 2#64) [.schedule] := by
  refine (oneRunning_iff rfl (twoTasks_distinctIds (by decide))
    ⟨0, twoTasks_runningOnly _ _⟩ _).mpr ⟨?_, fun _ _ => trivial⟩
  intro t i ht hi
  obtain rfl : 0 = t := Option.some.inj ht
  obtain ⟨hi, -⟩ := twoTasks_queued hi
  obtain rfl : i = ⟨0, by decide⟩ := Fin.ext hi
  exact ⟨⟨1, by decide⟩, rfl, by decide⟩

/-- The scan starts behind both tasks and comes to the current one first: it stays the current
task, and it is not running. -/
theorem schedule_stops_running :
    (twoTasks 1#64 2#64).OneRunning ∧ (twoTasks 1#64 2#64).DistinctIds ∧
      ∃ s, dispatchStep (twoTasks 1#64 2#64) .schedule = some s ∧ ¬ s.OneRunning := by
  have hrun := twoTasks_runningOnly 1#64 2#64
  have hids : (twoTasks 1#64 2#64).DistinctIds := twoTasks_distinctIds (by decide)
  refine ⟨⟨0, hrun⟩, hids, ?_⟩
  rcases hrun.schedule rfl hids with ⟨hahead, -⟩ | ⟨-, heq⟩
  · obtain ⟨j, hready, hlt⟩ := hahead 0 ⟨0, by decide⟩ rfl rfl
    obtain ⟨r, hr, -⟩ := readyAt_eq_true.mp hready
    obtain ⟨hjr, hr⟩ := twoTasks_queued hr
    simp [scanDistance, placesFrom, twoTasks, readyBlock] at hlt
    omega
  · exact ⟨_, heq, hrun.not_oneRunning⟩

end Masika
