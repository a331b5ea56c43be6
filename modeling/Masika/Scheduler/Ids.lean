import Masika.Scheduler.Dispatch
import Masika.Scheduler.Reached

/-!
# Ids

Two counters give numbers to tasks.  `create_task` returns a number of `NEXT_TASK_ID`; the id of the
block is its process id, the first of the four numbers that `ProcessControlBlock::new` draws from
`PID_COUNTER`.  The calls that take an id look for the first task that has it.

The process ids in the queue are different as long as `PID_COUNTER` does not overflow (`PidsFit`).
The number that `create_task` returns is the process id of the new task only if the two counters
agree at this moment, and after the first block they do not: one moves by 4 when the other one moves
by 1.

A block can be made at one time and passed to `init_scheduler` or `add_task` at another, so the
state keeps the blocks that are not yet passed (`IdRun`).
-/

namespace Masika

open Scheduler

/-! ## Runs -/

/-- The scheduler, and the blocks that have been made and not yet passed to it. -/
structure IdRun where
  sched : Scheduler
  pending : List ProcessControlBlock

/-- The calls that make ids, and those that use the blocks. -/
inductive IdOp where
  /-- `ProcessControlBlock::new` -/
  | newBlock (arg : U64)
  /-- with the `k`-th of the pending blocks -/
  | initScheduler (k : ℕ)
  | addTask (k : ℕ)
  /-- any call that takes no block -/
  | call (op : SchedOp)

/-- The call takes a block. -/
def SchedOp.takesBlock : SchedOp → Bool
  | .initScheduler _ | .addTask _ => true
  | _ => false

/-- The `k`-th pending block is passed to a call. -/
def IdRun.pass (N : NewPcb) (x : IdRun) (k : ℕ) (op : ProcessControlBlock → SchedOp) :
    Option IdRun :=
  x.pending[k]?.bind fun block =>
    (schedStep N x.sched (op block)).map fun s => ⟨s, x.pending.eraseIdx k⟩

/-- One call. -/
def idStep (N : NewPcb) (x : IdRun) : IdOp → Option IdRun
  | .newBlock arg =>
    some ⟨{ x.sched with pidCounter := x.sched.pidCounter + 4#64 },
      x.pending ++ [N.make arg x.sched.pidCounter]⟩
  | .initScheduler k => x.pass N k .initScheduler
  | .addTask k => x.pass N k .addTask
  | .call op =>
    if op.takesBlock then none else (schedStep N x.sched op).map fun s => ⟨s, x.pending⟩

/-- `PID_COUNTER` does not overflow when a block is made. -/
def PidsFit (x : IdRun) : IdOp → Prop
  | .newBlock _ => x.sched.pidCounter.toNat + 4 < 2 ^ 64
  | .call .createTask => (∃ i, x.sched.runqueue i = none) →
      x.sched.pidCounter.toNat + 4 < 2 ^ 64
  | _ => True

/-- The calls that take an id find the task `r`. -/
structure FoundBy (s : Scheduler) (taskId : U64) (r : ℕ) : Prop where
  getTaskById : s.getTaskById taskId = some r
  getTaskState : s.getTaskState taskId = some (s.blocks r).state
  setTaskBlocked : s.setTaskBlocked taskId = s.setState r .blocked

/-! ## A task joins the queue -/

/-- The block is in the queue now, unless there was no room. -/
structure Joins (s : Scheduler) (block : ProcessControlBlock) (s' : Scheduler) : Prop where
  old : ∀ r, r < s.made → (s'.blocks r).id = (s.blocks r).id
  new : (s'.blocks s.made).id = block.id
  runqueue : ∀ i r, s'.runqueue i = some r → s.runqueue i = some r ∨ r = s.made

/-- No task has joined. -/
structure Shrinks (s s' : Scheduler) : Prop where
  id : ∀ r, (s'.blocks r).id = (s.blocks r).id
  runqueue : ∀ i r, s'.runqueue i = some r → s.runqueue i = some r
  pidCounter : s'.pidCounter = s.pidCounter

section Joins

variable {s s' : Scheduler} {block : ProcessControlBlock}

lemma Joins.distinctIds (h : Joins s block s') (hs : Tracked s) (hs' : Tracked s')
    (hids : s.DistinctIds) (hnew : ∀ i r, s.runqueue i = some r → (s.blocks r).id ≠ block.id) :
    s'.DistinctIds := by
  intro i j r r' hr hr' hid
  rcases h.runqueue i r hr with hold | rfl <;> rcases h.runqueue j r' hr' with hold' | rfl
  · rw [h.old r (hs.queued_lt i r hold), h.old r' (hs.queued_lt j r' hold')] at hid
    exact hids i j r r' hold hold' hid
  · rw [h.old r (hs.queued_lt i r hold), h.new] at hid
    exact absurd hid (hnew i r hold)
  · rw [h.old r' (hs.queued_lt j r' hold'), h.new] at hid
    exact absurd hid.symm (hnew j r' hold')
  · exact hs'.inj i j _ hr hr'

/-- A property of ids that the tasks in the queue and the new one have. -/
lemma Joins.forall_id (h : Joins s block s') (hs : Tracked s) {p : U64 → Prop}
    (hold : ∀ i r, s.runqueue i = some r → p (s.blocks r).id) (hnew : p block.id) :
    ∀ i r, s'.runqueue i = some r → p (s'.blocks r).id := by
  intro i r hr
  rcases h.runqueue i r hr with hr | rfl
  · rw [h.old r (hs.queued_lt i r hr)]
    exact hold i r hr
  · rwa [h.new]

lemma Shrinks.distinctIds (h : Shrinks s s') (hids : s.DistinctIds) : s'.DistinctIds := by
  intro i j r r' hr hr' hid
  rw [h.id, h.id] at hid
  exact hids i j r r' (h.runqueue i r hr) (h.runqueue j r' hr') hid

lemma hold_joins (s : Scheduler) (block : ProcessControlBlock) : Joins s block (s.hold block) where
  old _ hr := congrArg _ (Function.update_of_ne hr.ne _ _)
  new := congrArg _ (Function.update_self ..)
  runqueue _ _ hr := .inl hr

/-- The new block is put into a slot. -/
lemma Joins.enqueue (h : Joins s block s') (i : Slot) : Joins s block (s'.enqueue i s.made) := by
  refine ⟨h.old, h.new, fun j r hr => ?_⟩
  simp only [Scheduler.enqueue, Function.update_apply] at hr
  split_ifs at hr with hji
  · exact .inr (Option.some.inj hr).symm
  · exact h.runqueue j r hr

lemma Joins.addTask (h : Joins s block s') (hs' : Tracked s') :
    Joins s block (s'.addTask s.made) := by
  rcases hs'.addTask_eq s.made with ⟨-, heq⟩ | ⟨i, -, heq⟩
  · rwa [heq]
  · rw [heq]
    exact h.enqueue i

lemma initScheduler_joins (hs : Tracked s) (block : ProcessControlBlock) :
    Joins s block ((s.hold block).initScheduler s.made) := by
  have hheld := hold_joins s block
  have hkeeps := setState_keeps { s.hold block with currentTask := some s.made } s.made .running
  refine Joins.addTask ⟨fun r hr => ?_, ?_, hheld.runqueue⟩
    ((hs.hold block).promote (Nat.lt_succ_self _))
  · exact (hkeeps.id r).trans (hheld.old r hr)
  · exact (hkeeps.id s.made).trans hheld.new

lemma addTask_joins (hs : Tracked s) (block : ProcessControlBlock) :
    Joins s block ((s.hold block).addTask s.made) :=
  (hold_joins s block).addTask (hs.hold block)

lemma addTask_pidCounter (s : Scheduler) (r : ℕ) : (s.addTask r).pidCounter = s.pidCounter := by
  rw [addTask]
  split_ifs
  · rfl
  · cases s.freeSlot <;> rfl

/-- `create_task` with a free slot. -/
lemma createTask_joins (N : NewPcb) (hs : Tracked s) (hfree : ∃ i, s.runqueue i = none) :
    (s.createTask N).1 = some s.nextTaskId ∧
      Joins s (N.make s.nextTaskId s.pidCounter) (s.createTask N).2 ∧
      (s.createTask N).2.pidCounter = s.pidCounter + 4#64 ∧
      ∃ i, s.runqueue i = none ∧ (s.createTask N).2.runqueue i = some s.made := by
  rcases hs.createTask_eq N with ⟨hfull, -⟩ | ⟨i, hi, heq⟩
  · obtain ⟨i, hi⟩ := hfree
    exact absurd hi (hfull i)
  · rw [heq]
    have hheld := hold_joins s (N.make s.nextTaskId s.pidCounter)
    have hcounted : Joins s (N.make s.nextTaskId s.pidCounter)
        { s.hold (N.make s.nextTaskId s.pidCounter) with
          nextTaskId := s.nextTaskId + 1#64, pidCounter := s.pidCounter + 4#64 } :=
      ⟨hheld.old, hheld.new, hheld.runqueue⟩
    refine ⟨rfl, hcounted.enqueue i, rfl, i, ?_, ?_⟩
    · exact (freeSlot_eq_some.mp hi).1
    · exact Function.update_self ..

lemma createTask_full (N : NewPcb) (hs : Tracked s) (hfull : ¬ ∃ i, s.runqueue i = none) :
    s.createTask N = (none, s) := by
  rcases hs.createTask_eq N with ⟨-, heq⟩ | ⟨i, hi, -⟩
  · exact heq
  · exact absurd ⟨i, (freeSlot_eq_some.mp hi).1⟩ hfull

/-- The other calls. -/
lemma schedStep_shrinks {N : NewPcb} {op : SchedOp} (hs : Tracked s) (hop : op.takesBlock = false)
    (hcreate : op ≠ .createTask) (h : schedStep N s op = some s') : Shrinks s s' := by
  have hdrops : Removes s s' → Shrinks s s' := by
    intro hdrops
    refine ⟨fun r => by rw [hdrops.blocks], fun i r hr => ?_, hdrops.pidCounter⟩
    rcases hdrops.runqueue i with heq | hnone
    · rwa [heq] at hr
    · rw [hnone] at hr
      cases hr
  cases hqueue : op.changesQueue with
  | false =>
    have hmoves := (schedStep_moves hqueue h).1
    exact ⟨hmoves.id, fun i r hr => hmoves.runqueue ▸ hr, hmoves.pidCounter⟩
  | true =>
    cases op with
    | createTask => exact absurd rfl hcreate
    | removeCurrentTask =>
      obtain ⟨s₁, hs₁, -, hdrop, -⟩ := hs.removeCurrentTask
      obtain rfl : s₁ = s' := Option.some.inj (hs₁.symm.trans h)
      exact hdrops hdrop
    | cleanupZombieTasks =>
      obtain ⟨s₁, hs₁, -, hdrop, -⟩ := hs.cleanupZombieTasks
      obtain rfl : s₁ = s' := Option.some.inj (hs₁.symm.trans h)
      exact hdrops hdrop
    | resetScheduler =>
      rw [← Option.some.inj h]
      exact ⟨fun _ => rfl, fun i r hr => (nomatch hr), rfl⟩
    | initScheduler _ | addTask _ => cases hop
    | _ => cases hqueue

end Joins

/-! ## The invariant -/

/-- The ids in use are different and below `PID_COUNTER`. -/
structure IdsBelow (x : IdRun) : Prop where
  tracked : Tracked x.sched
  distinct : x.sched.DistinctIds
  queued_lt : ∀ i r, x.sched.runqueue i = some r →
    (x.sched.blocks r).id.toNat < x.sched.pidCounter.toNat
  pending_lt : ∀ block ∈ x.pending, block.id.toNat < x.sched.pidCounter.toNat
  pending_ne : ∀ block ∈ x.pending, ∀ i r, x.sched.runqueue i = some r →
    (x.sched.blocks r).id ≠ block.id
  pending_nodup : (x.pending.map (·.id)).Nodup

section Invariant

variable {N : NewPcb} {x x' : IdRun}

lemma toNat_four_more {a : U64} (h : a.toNat + 4 < 2 ^ 64) : (a + 4#64).toNat = a.toNat + 4 := by
  rw [BitVec.toNat_add, BitVec.toNat_ofNat]
  omega

lemma ne_of_toNat_lt {a b : U64} (h : a.toNat < b.toNat) : a ≠ b := by
  rintro rfl
  exact lt_irrefl _ h

lemma IdsBelow.newBlock (h : IdsBelow x) (hpid : ∀ arg pid, (N.make arg pid).id = pid) (arg : U64)
    (hroom : x.sched.pidCounter.toNat + 4 < 2 ^ 64) :
    IdsBelow ⟨{ x.sched with pidCounter := x.sched.pidCounter + 4#64 },
      x.pending ++ [N.make arg x.sched.pidCounter]⟩ := by
  have hnext := toNat_four_more hroom
  refine ⟨⟨h.tracked.count, h.tracked.queued_lt, h.tracked.current_lt, h.tracked.inj⟩, h.distinct,
    fun i r hr => ?_, fun block hblock => ?_, fun block hblock i r hr => ?_, ?_⟩
  · have hold := h.queued_lt i r hr
    simp only [hnext]
    omega
  · simp only [hnext]
    rcases List.mem_append.mp hblock with hold | hnew
    · have hold := h.pending_lt block hold
      omega
    · rw [List.mem_singleton.mp hnew, hpid]
      omega
  · rcases List.mem_append.mp hblock with hold | hnew
    · exact h.pending_ne block hold i r hr
    · rw [List.mem_singleton.mp hnew, hpid]
      exact ne_of_toNat_lt (h.queued_lt i r hr)
  · rw [List.map_append, List.map_singleton, hpid]
    refine List.Nodup.append h.pending_nodup (List.nodup_singleton _) ?_
    rw [List.disjoint_singleton]
    intro hmem
    obtain ⟨block, hblock, hid⟩ := List.mem_map.mp hmem
    exact ne_of_toNat_lt (h.pending_lt block hblock) hid

/-- A pending block is passed to a call that lets it join. -/
lemma IdsBelow.pass (h : IdsBelow x) {k : ℕ} (op : ProcessControlBlock → SchedOp)
    (hjoins : ∀ {s' block}, schedStep N x.sched (op block) = some s' →
      Joins x.sched block s' ∧ s'.pidCounter = x.sched.pidCounter)
    (hstep : x.pass N k op = some x') : IdsBelow x' := by
  rw [IdRun.pass, Option.bind_eq_some_iff] at hstep
  obtain ⟨block, hk, hstep⟩ := hstep
  obtain ⟨s', hs', rfl⟩ := Option.map_eq_some_iff.mp hstep
  obtain ⟨hjoins, hpid⟩ := hjoins hs'
  have htracked := schedStep_tracked h.tracked hs'
  have hmem := List.mem_of_getElem? hk
  have hsub : x.pending.eraseIdx k ⊆ x.pending := (List.eraseIdx_sublist x.pending k).subset
  refine ⟨htracked, hjoins.distinctIds h.tracked htracked h.distinct (h.pending_ne block hmem),
    ?_, fun b hb => ?_, fun b hb => ?_, ?_⟩
  · simp only [hpid]
    exact hjoins.forall_id h.tracked (p := fun id => id.toNat < x.sched.pidCounter.toNat)
      h.queued_lt (h.pending_lt block hmem)
  · simp only [hpid]
    exact h.pending_lt b (hsub hb)
  · refine hjoins.forall_id h.tracked (p := (· ≠ b.id)) (h.pending_ne b (hsub hb)) ?_
    -- the block that joins is not the one that stays
    intro hid
    obtain ⟨hlt, hget⟩ := List.getElem?_eq_some_iff.mp hk
    obtain ⟨j, hj, hjk, rfl⟩ := List.mem_eraseIdx_iff_getElem.mp hb
    have hj' : j < (x.pending.map (·.id)).length := by simpa using hj
    have hk' : k < (x.pending.map (·.id)).length := by simpa using hlt
    have hids : (x.pending.map (·.id))[j] = (x.pending.map (·.id))[k] := by
      rw [List.getElem_map, List.getElem_map, hget, hid]
    exact hjk (h.pending_nodup.getElem_inj_iff.mp hids)
  · rw [← List.eraseIdx_map]
    exact h.pending_nodup.sublist (List.eraseIdx_sublist _ k)

/-- A new block from `create_task` joins. -/
lemma IdsBelow.createTask (h : IdsBelow x) (hpid : ∀ arg pid, (N.make arg pid).id = pid)
    (hok : PidsFit x (.call .createTask)) : IdsBelow ⟨(x.sched.createTask N).2, x.pending⟩ := by
  by_cases hfree : ∃ i, x.sched.runqueue i = none
  · have hroom := hok hfree
    obtain ⟨-, hjoins, hcounter, -⟩ := createTask_joins N h.tracked hfree
    have htracked := h.tracked.createTask N
    have hnext := toNat_four_more hroom
    refine ⟨htracked, hjoins.distinctIds h.tracked htracked h.distinct fun i r hr => ?_, ?_,
      fun b hb => ?_, fun b hb => ?_, h.pending_nodup⟩
    · rw [hpid]
      exact ne_of_toNat_lt (h.queued_lt i r hr)
    · simp only [hcounter, hnext]
      refine hjoins.forall_id h.tracked
        (p := fun id => id.toNat < x.sched.pidCounter.toNat + 4) (fun i r hr => ?_) ?_
      · have hold := h.queued_lt i r hr
        omega
      · rw [hpid]
        omega
    · simp only [hcounter, hnext]
      have hold := h.pending_lt b hb
      omega
    · refine hjoins.forall_id h.tracked (p := (· ≠ b.id)) (h.pending_ne b hb) ?_
      rw [hpid]
      exact (ne_of_toNat_lt (h.pending_lt b hb)).symm
  · rw [createTask_full N h.tracked hfree]
    exact h

lemma IdsBelow.shrinks (h : IdsBelow x) {s' : Scheduler} (htracked : Tracked s')
    (hshrinks : Shrinks x.sched s') : IdsBelow ⟨s', x.pending⟩ := by
  refine ⟨htracked, hshrinks.distinctIds h.distinct, fun i r hr => ?_, fun b hb => ?_,
    fun b hb i r hr => ?_, h.pending_nodup⟩
  · simp only [hshrinks.id, hshrinks.pidCounter]
    exact h.queued_lt i r (hshrinks.runqueue i r hr)
  · simp only [hshrinks.pidCounter]
    exact h.pending_lt b hb
  · simp only [hshrinks.id]
    exact h.pending_ne b hb i r (hshrinks.runqueue i r hr)

/-- **Every step** that meets its condition keeps the invariant. -/
lemma IdsBelow.step (hpid : ∀ arg pid, (N.make arg pid).id = pid) {op : IdOp} (h : IdsBelow x)
    (hok : PidsFit x op) (hstep : idStep N x op = some x') : IdsBelow x' := by
  cases op with
  | newBlock arg =>
    rw [← Option.some.inj hstep]
    exact h.newBlock hpid arg hok
  | initScheduler k =>
    refine h.pass .initScheduler (fun {s' block} hs' => ?_) hstep
    rw [← Option.some.inj hs']
    exact ⟨initScheduler_joins h.tracked block, addTask_pidCounter _ _⟩
  | addTask k =>
    refine h.pass .addTask (fun {s' block} hs' => ?_) hstep
    rw [← Option.some.inj hs']
    exact ⟨addTask_joins h.tracked block, addTask_pidCounter _ _⟩
  | call op =>
    rw [idStep, Option.ite_none_left_eq_some] at hstep
    obtain ⟨hop, hstep⟩ := hstep
    obtain ⟨s', hs', rfl⟩ := Option.map_eq_some_iff.mp hstep
    by_cases hcreate : op = .createTask
    · subst hcreate
      rw [← Option.some.inj hs']
      exact h.createTask hpid hok
    · have hshrinks := schedStep_shrinks h.tracked (Bool.not_eq_true _ ▸ hop) hcreate hs'
      exact h.shrinks (schedStep_tracked h.tracked hs') hshrinks

end Invariant

/-- Nothing is queued and no block has been made. -/
def IdRun.start : IdRun := ⟨boot, []⟩

lemma start_idsBelow : IdsBelow .start :=
  ⟨boot_tracked, fun _ _ _ _ hr => (nomatch hr), fun _ _ hr => (nomatch hr),
    fun _ hb => absurd hb List.not_mem_nil, fun _ hb => absurd hb List.not_mem_nil,
    List.nodup_nil⟩

/-- The task with the id of a queued task is this task. -/
lemma foundBy_of_distinctIds {s : Scheduler} (hids : s.DistinctIds) {i : Slot} {r : ℕ}
    (hr : s.runqueue i = some r) : FoundBy s (s.blocks r).id r := by
  have hfind := hids.findTask_eq hr
  refine ⟨hfind, ?_, ?_⟩
  · rw [getTaskState, hfind, Option.map_some]
  · rw [setTaskBlocked, editById, hfind, Option.elim_some]
    rfl

/-- **Ids identify tasks** in every run in which `PID_COUNTER` does not overflow: the ids in the
queue are different, and the task that `create_task` has just queued is found by the number that it
returns if and only if the two counters agree when it is called. -/
theorem ids_identify (N : NewPcb) (hpid : ∀ arg pid, (N.make arg pid).id = pid) {ops : List IdOp}
    {x : IdRun} (hmeets : Meets PidsFit (idStep N) .start ops)
    (hrun : run (idStep N) .start ops = some x) :
    x.sched.DistinctIds ∧
      (PidsFit x (.call .createTask) → ∀ taskId, (x.sched.createTask N).1 = some taskId →
        (∃ i, x.sched.runqueue i = none ∧
          (x.sched.createTask N).2.runqueue i = some x.sched.made) ∧
        (FoundBy (x.sched.createTask N).2 taskId x.sched.made ↔
          x.sched.nextTaskId = x.sched.pidCounter)) := by
  have h : IdsBelow x :=
    run_invariant_of_meets (fun _ _ _ h hok => h.step hpid hok) start_idsBelow hmeets hrun
  refine ⟨h.distinct, fun hok taskId htask => ?_⟩
  by_cases hfree : ∃ i, x.sched.runqueue i = none
  · obtain ⟨hid, hjoins, -, i, hi, hqueued⟩ := createTask_joins N h.tracked hfree
    obtain rfl : x.sched.nextTaskId = taskId := Option.some.inj (hid.symm.trans htask)
    have hnew := hjoins.new.trans (hpid _ _)
    refine ⟨⟨i, hi, hqueued⟩, fun hfound => ?_, fun heq => ?_⟩
    · obtain ⟨-, -, hid⟩ := findTask_queued hfound.getTaskById
      rw [← hnew, beq_iff_eq.mp hid]
    · have hfound := foundBy_of_distinctIds (h.createTask hpid hok).distinct hqueued
      rwa [hnew, ← heq] at hfound
  · rw [createTask_full N h.tracked hfree] at htask
    cases htask

/-- The very first block: `create_task` returns 1, and this is its process id. -/
theorem ids_identify_first :
    ∃ x, run (idStep pidBlock) .start [.call .preemptDisable] = some x ∧
      FoundBy (x.sched.createTask pidBlock).2 1#64 0 := by
  have hmeets : Meets PidsFit (idStep pidBlock) .start [.call .preemptDisable] :=
    ⟨trivial, fun _ _ => trivial⟩
  have hids := (ids_identify pidBlock (fun _ _ => rfl) hmeets rfl).2
  exact ⟨_, rfl, (hids (fun _ => by decide) 1#64 (by decide +kernel)).2.mpr rfl⟩

/-- The first block is made and passed to `init_scheduler`; its process id is 1.  Then `create_task`
returns 1, and this is the first task. -/
theorem createTask_returns_other :
    ∃ x, run (idStep pidBlock) .start [.newBlock 0#64, .initScheduler 0] = some x ∧
      (x.sched.createTask pidBlock).1 = some 1#64 ∧ x.sched.made = 1 ∧
      (x.sched.createTask pidBlock).2.getTaskById 1#64 = some 0 := by
  refine ⟨_, rfl, ?_⟩
  decide +kernel

end Masika
