import Masika.Core.Orbits
import Masika.Scheduler.Dispatch

/-!
# Round robin

`find_next_task` starts its scan behind the slot whose number is the *id* of the current task.  On a
queue that `init_scheduler` and `create_task` have filled, the occupied slots are the first ones,
and all tasks are ready once the current one is.  So the task that follows the current one depends
on its id and on the number of tasks only (`scanTarget`): it is the one in slot `id % 1024 + 1` if
this slot is occupied, and the one in slot 0 otherwise.

Whether all tasks get their turn is then a question about the ids (`roundRobin_iff`).  The slots
have nothing to do with the ids that `create_task` gives, and already three tasks can leave one out.
-/

namespace Masika

namespace Scheduler

/-! ## The next task -/

/-- The slot that the scan leads to when the first `n` slots, and no others, hold ready tasks. -/
def scanTarget (n : ℕ) (current : U64) : Slot :=
  if current.toNat % 1024 + 1 < n then scanned current 0 else ⟨0, by decide⟩

/-- The task that follows `c`: `schedule` does not switch to a task with the same id. -/
def nextOf (s : Scheduler) (c : ℕ) : ℕ :=
  (s.runqueue (scanTarget s.taskCount (s.blocks c).id)).elim c fun r =>
    if (s.blocks r).id ≠ (s.blocks c).id then r else c

/-- The occupied slots are the first ones. -/
def Packed (s : Scheduler) : Prop := ∀ i, s.runqueue i ≠ none ↔ i.val < s.taskCount

/-- All tasks of a packed queue are runnable, and `c` is the current task. -/
structure Turning (s : Scheduler) (c : ℕ) : Prop where
  packed : s.Packed
  pos : 0 < s.taskCount
  le : s.taskCount ≤ 1024
  lock : s.schedLock = false
  current : s.currentTask = some c
  state : (s.blocks c).state = .running ∨ (s.blocks c).state = .ready
  others : ∀ i r, s.runqueue i = some r → r ≠ c → (s.blocks r).state = .ready

section Next

variable {s s' : Scheduler} {c : ℕ}

lemma findNextTask_of_packed {n : ℕ} (hpos : 0 < n) (hle : n ≤ 1024)
    (hready : ∀ j, s.readyAt j = true ↔ j.val < n) (current : U64) :
    s.findNextTask current = some (scanTarget n current) := by
  have hmod := Nat.mod_lt current.toNat (show 0 < 1024 by decide)
  rw [findNextTask_eq_some, scanTarget]
  split_ifs with htarget
  · refine ⟨(hready _).mpr ?_, fun k hk => ?_⟩
    · simp only [scanned]
      omega
    · simp only [scanDistance, placesFrom, scanned] at hk
      omega
  · refine ⟨(hready _).mpr hpos, fun k hk => ?_⟩
    rw [Bool.eq_false_iff, Ne, hready]
    simp only [scanDistance, placesFrom] at hk
    have hk' := k.isLt
    omega

lemma nextOf_keeps (hkeeps : SameQueue s s') : s'.nextOf = s.nextOf := by
  funext c
  simp only [nextOf, hkeeps.runqueue, hkeeps.taskCount, hkeeps.id]

lemma state_demote (s : Scheduler) (c r : ℕ) :
    ((s.demote c).blocks r).state =
      if r = c ∧ (s.blocks c).state = .running then .ready else (s.blocks r).state := by
  rw [demote]
  by_cases hrun : (s.blocks c).state = .running
  · rw [if_pos hrun, state_setState]
    simp [hrun]
  · rw [if_neg hrun]
    simp [hrun]

/-- Once the current task is made ready, all tasks are. -/
lemma Turning.ready (h : s.Turning c) (i : Slot) {r : ℕ} (hr : s.runqueue i = some r) :
    ((s.demote c).blocks r).state = .ready := by
  rw [state_demote]
  by_cases hrc : r = c
  · rcases h.state with hrun | hready
    · rw [if_pos ⟨hrc, hrun⟩]
    · rw [hrc, hready]
      split_ifs <;> rfl
  · rw [if_neg fun hboth => hrc hboth.1]
    exact h.others i r hr hrc

lemma Turning.readyAt (h : s.Turning c) (j : Slot) :
    (s.demote c).readyAt j = true ↔ j.val < s.taskCount := by
  rw [readyAt_eq_true, (demote_keeps s c).runqueue, ← h.packed j, Option.ne_none_iff_exists']
  exact exists_congr fun r => and_iff_left_of_imp fun hr => h.ready j hr

/-- **`schedule`** goes on to the next task. -/
lemma Turning.schedule (h : s.Turning c) :
    ∃ s', s.schedule = some s' ∧ SameQueue s s' ∧ s'.Turning (s.nextOf c) := by
  have hnext := findNextTask_of_packed h.pos h.le h.readyAt (s.blocks c).id
  obtain ⟨r, hr⟩ := readyAt_eq_true.mp (findNextTask_eq_some.mp hnext).1
  have hr : s.runqueue (scanTarget s.taskCount (s.blocks c).id) = some r :=
    (demote_keeps s c).runqueue ▸ hr.1
  have heq := schedule_eq h.lock h.current hnext hr
  have hstep : s.nextOf c = if (s.blocks r).id ≠ (s.blocks c).id then r else c := by
    rw [nextOf, hr, Option.elim_some]
  -- the fields that every outcome has
  have hturning : ∀ s' d, s.schedule = some s' → s'.currentTask = some d →
      ((s'.blocks d).state = .running ∨ (s'.blocks d).state = .ready) →
      (∀ i r', s.runqueue i = some r' → r' ≠ d → (s'.blocks r').state = .ready) →
      SameQueue s s' ∧ s'.Turning d := by
    intro s' d hs' hcur hstate hothers
    obtain ⟨hmoves, hlock⟩ := schedule_moves hs'
    refine ⟨hmoves.toSameQueue, ?_, ?_, ?_, hlock.trans h.lock, hcur, hstate, ?_⟩
    · rw [Packed, hmoves.runqueue, hmoves.taskCount]
      exact h.packed
    · rw [hmoves.taskCount]
      exact h.pos
    · rw [hmoves.taskCount]
      exact h.le
    · rw [hmoves.runqueue]
      exact hothers
  rw [hstep]
  split_ifs at heq ⊢ with hid
  · refine ⟨_, heq, hturning _ r heq rfl (.inl ?_) fun i r' hr' hne => ?_⟩
    · simp only [state_setState, if_true]
    · simp only [state_setState, if_neg hne]
      exact h.ready i hr'
  · refine ⟨_, heq, hturning _ c heq ?_ (.inr ?_) fun i r' hr' _ => h.ready i hr'⟩
    · rw [demote_currentTask, h.current]
    · rw [state_demote]
      rcases h.state with hrun | hready
      · rw [if_pos ⟨rfl, hrun⟩]
      · rw [hready]
        split_ifs <;> rfl

end Next

/-! ## Consecutive calls -/

/-- The task that the `k`-th of several calls of `schedule` selects. -/
def selected (s : Scheduler) (k : ℕ) : Option ℕ :=
  (run dispatchStep s (List.replicate k .schedule)).bind currentTask

/-- Any `n` consecutive calls of `schedule` select each of the `n` tasks exactly once. -/
def SelectsInTurns (s : Scheduler) : Prop :=
  ∀ m i r, s.runqueue i = some r →
    ∃! k, (m < k ∧ k ≤ m + s.taskCount) ∧ s.selected k = some r

/-- The tasks in the queue. -/
def tasks (s : Scheduler) : Finset ℕ := s.occupied.image fun i => (s.runqueue i).getD 0

/-- The tasks can be put in a circle in which the id of each one leads the scan to the following
one. -/
def IdsInCircle (s : Scheduler) : Prop :=
  ∃ e : ℕ → ℕ, Circular s.tasks e ∧
    ∀ k < s.taskCount, s.runqueue (scanTarget s.taskCount (s.blocks (e k)).id) = some (e (k + 1))

/-- The current task is in the queue, or the scan leads from it to a task with another id. -/
def CurrentEnters (s : Scheduler) : Prop :=
  ∀ c, s.currentTask = some c → (∃ i, s.runqueue i = some c) ∨
    ∀ r, s.runqueue (scanTarget s.taskCount (s.blocks c).id) = some r →
      (s.blocks r).id ≠ (s.blocks c).id

section Turns

variable {s s' : Scheduler} {c : ℕ}

lemma Turning.selected (h : s.Turning c) (k : ℕ) : s.selected k = some (s.nextOf^[k] c) := by
  rw [Scheduler.selected]
  induction k generalizing s c with
  | zero => exact h.current
  | succ k ih =>
    obtain ⟨s', hs', hkeeps, hturning⟩ := h.schedule
    have hrest := ih hturning
    rw [nextOf_keeps hkeeps] at hrest
    rw [List.replicate_succ, run, dispatchStep, hs', Option.bind_some, hrest,
      Function.iterate_succ_apply]

lemma mem_tasks {r : ℕ} : r ∈ s.tasks ↔ ∃ i, s.runqueue i = some r := by
  rw [tasks, Finset.mem_image]
  constructor
  · rintro ⟨i, hi, rfl⟩
    obtain ⟨r, hr⟩ := Option.ne_none_iff_exists'.mp (mem_occupied.mp hi)
    exact ⟨i, by rw [hr, Option.getD_some]⟩
  · rintro ⟨i, hi⟩
    exact ⟨i, mem_occupied.mpr (by rw [hi]; exact Option.some_ne_none r), by rw [hi]; rfl⟩

lemma Tracked.card_tasks (h : Tracked s) : s.tasks.card = s.taskCount := by
  rw [tasks, h.count]
  refine Finset.card_image_of_injOn fun i hi j hj hij => ?_
  obtain ⟨r, hr⟩ := Option.ne_none_iff_exists'.mp (mem_occupied.mp hi)
  obtain ⟨r', hr'⟩ := Option.ne_none_iff_exists'.mp (mem_occupied.mp hj)
  simp only [hr, hr', Option.getD_some] at hij
  exact h.inj i j r hr (hij ▸ hr')

/-- The scan of a task leads to a task. -/
lemma Turning.target (h : s.Turning c) (c' : ℕ) :
    ∃ r, s.runqueue (scanTarget s.taskCount (s.blocks c').id) = some r := by
  have hnext := findNextTask_of_packed h.pos h.le h.readyAt (s.blocks c').id
  obtain ⟨r, hr, -⟩ := readyAt_eq_true.mp (findNextTask_eq_some.mp hnext).1
  exact ⟨r, (demote_keeps s c).runqueue ▸ hr⟩

/-- In a circle, `nextOf` goes where the id leads: a task with the same id does not follow, unless
there is only one task. -/
lemma Turning.nextOf_circular (h : s.Turning c) (htracked : Tracked s) {e : ℕ → ℕ}
    (he : Circular s.tasks e) :
    (∀ k < s.taskCount, s.nextOf (e k) = e (k + 1)) ↔
      ∀ k < s.taskCount,
        s.runqueue (scanTarget s.taskCount (s.blocks (e k)).id) = some (e (k + 1)) := by
  have hcard := htracked.card_tasks
  constructor
  · intro hnext k hk
    obtain ⟨r, hr⟩ := h.target (e k)
    have hstep := hnext k hk
    rw [nextOf, hr, Option.elim_some] at hstep
    rw [hr]
    split_ifs at hstep with hid
    · rw [hstep]
    · -- there is one task only
      have hone := he.card_eq_one (hcard ▸ hk) hstep.symm
      obtain ⟨a, ha⟩ := Finset.card_eq_one.mp hone
      have hra : r ∈ s.tasks := mem_tasks.mpr ⟨_, hr⟩
      have hka : e k ∈ s.tasks := he.mem k (hcard ▸ hk)
      rw [ha, Finset.mem_singleton] at hra hka
      rw [← hstep, hra, hka]
  · intro hpoints k hk
    have hstep := hpoints k hk
    rw [nextOf, hstep, Option.elim_some]
    split_ifs with hid
    · rfl
    · -- the following task has the same id, so it is followed by itself
      obtain ⟨k', hk', heq⟩ : ∃ k' < s.taskCount, e k' = e (k + 1) := by
        rcases Nat.lt_or_ge (k + 1) s.taskCount with hlt | hge
        · exact ⟨k + 1, hlt, rfl⟩
        · obtain hlast : k + 1 = s.tasks.card := by omega
          exact ⟨0, by omega, by rw [hlast, he.closed]⟩
      have hsame := hpoints k' hk'
      rw [heq, not_not.mp hid, hstep, Option.some.injEq] at hsame
      have hone := he.card_eq_one (hcard ▸ hk') (hsame.symm.trans heq.symm)
      obtain rfl : k = 0 := by omega
      rw [Nat.zero_add, ← hone, he.closed]

/-- The intended case: the id of each task is the number of its slot. -/
lemma Turning.idsInCircle (h : s.Turning c) (htracked : Tracked s)
    (hids : ∀ i r, s.runqueue i = some r → (s.blocks r).id.toNat % 1024 = i.val) :
    s.IdsInCircle := by
  have hcard := htracked.card_tasks
  have hslot : ∀ k, ∃ i : Slot, i.val = k % s.taskCount :=
    fun k => ⟨⟨k % s.taskCount, (Nat.mod_lt k h.pos).trans_le h.le⟩, rfl⟩
  have htask : ∀ k, ∃ r, ∀ i : Slot, i.val = k % s.taskCount → s.runqueue i = some r := by
    intro k
    obtain ⟨i, hi⟩ := hslot k
    have hlt : i.val < s.taskCount := hi.trans_lt (Nat.mod_lt k h.pos)
    obtain ⟨r, hr⟩ := Option.ne_none_iff_exists'.mp ((h.packed i).mpr hlt)
    exact ⟨r, fun j hj => (Fin.ext (hj.trans hi.symm) : j = i) ▸ hr⟩
  choose e he using htask
  refine ⟨e, ⟨fun k _ => ?_, fun r hr => ?_, ?_⟩, fun k hk => he (k + 1) _ ?_⟩
  · obtain ⟨i, hi⟩ := hslot k
    exact mem_tasks.mpr ⟨i, he k i hi⟩
  · obtain ⟨i, hi⟩ := mem_tasks.mp hr
    have hlt := (h.packed i).mp (by rw [hi]; exact Option.some_ne_none r)
    rw [hcard]
    refine ⟨i.val, ⟨hlt, ?_⟩, ?_⟩
    · exact Option.some.inj ((he i.val i (Nat.mod_eq_of_lt hlt).symm).symm.trans hi)
    · rintro k ⟨hk, rfl⟩
      obtain ⟨j, hj⟩ := hslot k
      rw [← htracked.inj j i (e k) (he k j hj) hi, hj, Nat.mod_eq_of_lt hk]
  · obtain ⟨i, hi⟩ := hslot 0
    have hends : i.val = s.tasks.card % s.taskCount := by rw [hi, hcard, Nat.mod_self, Nat.zero_mod]
    exact Option.some.inj ((he _ i hends).symm.trans (he 0 i hi))
  · obtain ⟨i, hi⟩ := hslot k
    have hid := hids i (e k) (he k i hi)
    rw [hi, Nat.mod_eq_of_lt hk] at hid
    have hle := h.le
    rw [scanTarget, hid]
    split_ifs with hnext
    · simp only [scanned, hid]
      rw [Nat.mod_eq_of_lt hnext]
      omega
    · obtain hlast : k + 1 = s.taskCount := by omega
      rw [hlast, Nat.mod_self]

/-- **Turns**, in terms of the ids. -/
lemma Turning.selectsInTurns_iff (h : s.Turning c) (htracked : Tracked s) :
    s.SelectsInTurns ↔ s.IdsInCircle ∧ s.CurrentEnters := by
  have hcard := htracked.card_tasks
  have hturns : s.SelectsInTurns ↔ TakesTurns s.nextOf c s.tasks := by
    simp only [SelectsInTurns, TakesTurns, mem_tasks, hcard, h.selected, Option.some.injEq,
      forall_exists_index]
    exact ⟨fun hall m r i => hall m i r, fun hall m i r => hall m r i⟩
  have henters : s.nextOf c ∈ s.tasks ↔ s.CurrentEnters := by
    obtain ⟨r, hr⟩ := h.target c
    simp only [CurrentEnters, h.current, Option.some.injEq, forall_eq', hr, mem_tasks]
    rw [nextOf, hr, Option.elim_some]
    split_ifs with hid
    · exact iff_of_true ⟨_, hr⟩ (.inr hid)
    · exact ⟨.inl, fun hor => hor.resolve_right hid⟩
  rw [hturns, takesTurns_iff (hcard ▸ h.pos), henters, and_comm]
  refine and_congr_left fun _ => exists_congr fun e => and_congr_right fun he => ?_
  rw [hcard]
  exact h.nextOf_circular htracked he

end Turns

/-! ## Filling the queue -/

/-- `before` calls of `create_task`, then `init_scheduler` and `after` more calls of
`create_task`. -/
def filledQueue (N : NewPcb) (nextTaskId pidCounter : U64) (before after : ℕ)
    (firstTask : ProcessControlBlock) : Scheduler :=
  let create := fun s : Scheduler => (s.createTask N).2
  let s := create^[before] { boot with nextTaskId := nextTaskId, pidCounter := pidCounter }
  create^[after] ((s.hold firstTask).initScheduler s.made)

/-- The queue while it is being filled. -/
structure Filling (s : Scheduler) : Prop where
  tracked : Tracked s
  packed : s.Packed
  lock : s.schedLock = false
  ready : ∀ i r, s.runqueue i = some r → s.currentTask ≠ some r → (s.blocks r).state = .ready
  running : ∀ r, s.currentTask = some r → (s.blocks r).state = .running

section Filling

variable {s : Scheduler} {N : NewPcb}

/-- The first free slot is the one after the tasks. -/
lemma Packed.freeSlot (h : s.Packed) {i : Slot} (hfree : s.freeSlot = some i) :
    i.val = s.taskCount := by
  obtain ⟨hi, hbelow⟩ := freeSlot_eq_some.mp hfree
  have hge : ¬ i.val < s.taskCount := fun hlt => (h i).mpr hlt hi
  by_contra hne
  have hlt : s.taskCount < i.val := by omega
  exact absurd ((h ⟨s.taskCount, hlt.trans i.isLt⟩).mp (hbelow _ hlt)) (lt_irrefl _)

lemma Packed.enqueue (h : s.Packed) {i : Slot} (hi : i.val = s.taskCount) (r : ℕ) :
    (s.enqueue i r).Packed := by
  intro j
  by_cases hj : j = i
  · simp [Scheduler.enqueue, hj, hi]
  · have hval : j.val ≠ i.val := fun hval => hj (Fin.ext hval)
    simp only [Scheduler.enqueue, Function.update_of_ne hj, h j]
    omega

lemma Filling.createTask (h : s.Filling) (N : NewPcb) : (s.createTask N).2.Filling := by
  have htracked := h.tracked.createTask N
  rcases h.tracked.createTask_eq N with ⟨-, heq⟩ | ⟨i, hfree, heq⟩
  · rw [heq]
    exact h
  · rw [heq] at htracked ⊢
    have hother : ∀ r, r < s.made → (s.hold (N.make s.nextTaskId s.pidCounter)).blocks r =
        s.blocks r := fun r hr => Function.update_of_ne hr.ne _ _
    refine ⟨htracked, ?_, h.lock, fun j r hr hcur => ?_, fun r hr => ?_⟩
    · exact Packed.enqueue (s := { s.hold (N.make s.nextTaskId s.pidCounter) with
        nextTaskId := s.nextTaskId + 1#64, pidCounter := s.pidCounter + 4#64 }) h.packed
        (h.packed.freeSlot hfree) s.made
    · simp only [Scheduler.enqueue, hold, Function.update_apply] at hr ⊢
      split_ifs at hr with hji
      · rw [← Option.some.inj hr, if_pos rfl]
        exact N.ready _ _
      · rw [if_neg (h.tracked.queued_lt j r hr).ne]
        exact h.ready j r hr hcur
    · rw [← h.running r hr]
      exact congrArg _ (hother r (h.tracked.current_lt r hr))

lemma Filling.initScheduler (h : s.Filling) (hnone : s.currentTask = none)
    (firstTask : ProcessControlBlock) : ((s.hold firstTask).initScheduler s.made).Filling := by
  have hheld := h.tracked.hold firstTask
  have hnew : s.made < (s.hold firstTask).made := Nat.lt_succ_self _
  have htracked := hheld.initScheduler hnew h.tracked.not_queued
  rw [Scheduler.initScheduler] at htracked ⊢
  have hready : ∀ j r, s.runqueue j = some r →
      (((s.hold firstTask).setState s.made .running).blocks r).state = .ready := by
    intro j r hr
    have hne := (h.tracked.queued_lt j r hr).ne
    rw [state_setState, if_neg hne]
    simp only [hold, Function.update_of_ne hne]
    exact h.ready j r hr (by rw [hnone]; exact (Option.some_ne_none r).symm)
  rcases (hheld.promote hnew).addTask_eq s.made with ⟨-, heq⟩ | ⟨i, hfree, heq⟩
  · rw [heq] at htracked ⊢
    refine ⟨htracked, h.packed, h.lock, fun j r hr _ => hready j r hr, fun r hr => ?_⟩
    rw [← Option.some.inj hr, state_setState, if_pos rfl]
  · rw [heq] at htracked ⊢
    refine ⟨htracked, Packed.enqueue h.packed (h.packed.freeSlot hfree) s.made, h.lock,
      fun j r hr hcur => ?_, fun r hr => ?_⟩
    · simp only [Scheduler.enqueue, Function.update_apply] at hr
      split_ifs at hr with hji
      · exact absurd hr hcur
      · exact hready j r hr
    · rw [← Option.some.inj hr]
      exact (state_setState _ _ _ _).trans (if_pos rfl)

/-- Calls of `create_task`, one after the other. -/
lemma Filling.creates (h : s.Filling) (N : NewPcb) (k : ℕ) :
    ((fun s : Scheduler => (s.createTask N).2)^[k] s).Filling ∧
      ((fun s : Scheduler => (s.createTask N).2)^[k] s).currentTask = s.currentTask ∧
      s.taskCount ≤ ((fun s : Scheduler => (s.createTask N).2)^[k] s).taskCount := by
  induction k generalizing s with
  | zero => exact ⟨h, rfl, le_refl _⟩
  | succ k ih =>
    obtain ⟨hfilling, hcur, hcount⟩ := ih (h.createTask N)
    rw [Function.iterate_succ_apply]
    have hone : (s.createTask N).2.currentTask = s.currentTask ∧
        s.taskCount ≤ (s.createTask N).2.taskCount := by
      rcases h.tracked.createTask_eq N with ⟨-, heq⟩ | ⟨i, -, heq⟩
      · rw [heq]
        exact ⟨rfl, le_refl _⟩
      · rw [heq]
        exact ⟨rfl, Nat.le_succ _⟩
    exact ⟨hfilling, hcur.trans hone.1, hone.2.trans hcount⟩

lemma addTask_pos (h : Tracked s) (r : ℕ) :
    0 < (s.addTask r).taskCount ∧ (s.addTask r).currentTask = s.currentTask := by
  rcases h.addTask_eq r with ⟨hfull, heq⟩ | ⟨i, -, heq⟩
  · rw [heq]
    have hcount := h.full_iff.mpr hfull
    exact ⟨by omega, rfl⟩
  · rw [heq]
    exact ⟨Nat.succ_pos _, rfl⟩

lemma boot_filling (nextTaskId pidCounter : U64) :
    Filling { boot with nextTaskId := nextTaskId, pidCounter := pidCounter } where
  tracked := ⟨boot_tracked.count, boot_tracked.queued_lt, boot_tracked.current_lt, boot_tracked.inj⟩
  packed i := by simp [boot]
  lock := rfl
  ready i r h := by cases h
  running r h := by cases h

/-- The queue is filled, and the calls of `schedule` can begin. -/
lemma filledQueue_turning (N : NewPcb) (nextTaskId pidCounter : U64) (before after : ℕ)
    (firstTask : ProcessControlBlock) :
    Tracked (filledQueue N nextTaskId pidCounter before after firstTask) ∧
      ∃ c, (filledQueue N nextTaskId pidCounter before after firstTask).Turning c := by
  obtain ⟨hbefore, hnone, -⟩ := (boot_filling nextTaskId pidCounter).creates N before
  rw [filledQueue]
  generalize (fun s : Scheduler => (s.createTask N).2)^[before] _ = s at hbefore hnone ⊢
  have hinit := hbefore.initScheduler hnone firstTask
  obtain ⟨hpos, hcur⟩ := addTask_pos
    ((hbefore.tracked.hold firstTask).promote (Nat.lt_succ_self s.made)) s.made
  obtain ⟨hafter, hcur', hcount⟩ := hinit.creates N after
  have hcur := hcur'.trans hcur
  refine ⟨hafter.tracked, s.made, hafter.packed, hpos.trans_le hcount, ?_, hafter.lock, hcur,
    .inl (hafter.running _ hcur), fun i r hr hne => hafter.ready i r hr ?_⟩
  · rw [hafter.tracked.count]
    exact card_occupied_le _
  · intro hr'
    exact hne (Option.some.inj (hcur.symm.trans hr')).symm

end Filling

end Scheduler

open Scheduler

/-- **Round robin.**  Any `n` consecutive calls of `schedule` select each of the `n` tasks exactly
once if and only if the ids of the tasks lie in a circle and the current task leads into it. -/
theorem roundRobin_iff (N : NewPcb) (nextTaskId pidCounter : U64) (before after : ℕ)
    (firstTask : ProcessControlBlock) :
    (filledQueue N nextTaskId pidCounter before after firstTask).SelectsInTurns ↔
      (filledQueue N nextTaskId pidCounter before after firstTask).IdsInCircle ∧
        (filledQueue N nextTaskId pidCounter before after firstTask).CurrentEnters := by
  obtain ⟨htracked, c, hturning⟩ :=
    filledQueue_turning N nextTaskId pidCounter before after firstTask
  exact hturning.selectsInTurns_iff htracked

/-- Three tasks with the ids 1, 5 and 9.  The first one is followed by the third one and the third
one by the first one. -/
theorem schedule_starves :
    (filledQueue pidBlock 1#64 5#64 0 2 (readyBlock 1#64)).taskCount = 3 ∧
      ¬ (filledQueue pidBlock 1#64 5#64 0 2 (readyBlock 1#64)).SelectsInTurns := by
  have hcount : (filledQueue pidBlock 1#64 5#64 0 2 (readyBlock 1#64)).taskCount = 3 := by
    decide +kernel
  have hsecond :
      (filledQueue pidBlock 1#64 5#64 0 2 (readyBlock 1#64)).runqueue ⟨1, by decide⟩ = some 1 := by
    decide +kernel
  have hnever :
      ∀ k ≤ 3, (filledQueue pidBlock 1#64 5#64 0 2 (readyBlock 1#64)).selected k ≠ some 1 := by
    decide +kernel
  refine ⟨hcount, fun h => ?_⟩
  obtain ⟨k, ⟨⟨-, hle⟩, hk⟩, -⟩ := h 0 _ 1 hsecond
  rw [hcount] at hle
  exact hnever k (by omega) hk

end Masika
