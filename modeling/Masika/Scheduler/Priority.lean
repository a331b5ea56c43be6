import Masika.Scheduler.Queue

/-!
# The task of the highest priority

`get_highest_priority_ready_task` goes over the queue once and keeps the best task so far, where a
smaller number is a higher priority.  It should answer with the first ready task of the least
priority (`FirstLeast`), and with none only if no task is ready.

The loop starts with values that tasks can have as well: the priority 255, below which a task has to
be in order to be noticed, and the id 0, which stands for no task at the end.  So it answers
correctly exactly when nothing is ready, or when the first ready task of the least priority has
neither of the two (`selectsLeast_iff`).  `get_next_scheduled_task_id` takes the first ready task
when the search has no answer, which does not help: it is not a task that the search has found.
-/

namespace Masika

namespace Scheduler

/-- Either the answer of `get_highest_priority_ready_task`, or the id of the first ready task. -/
def getNextScheduledTaskId (s : Scheduler) : Option U64 :=
  s.getHighestPriorityReadyTask.or
    ((s.findTask (·.state == .ready)).map fun r => (s.blocks r).id)

/-! ## The property -/

/-- No task in the queue is ready. -/
def NoneReady (s : Scheduler) : Prop :=
  ∀ i r, s.runqueue i = some r → (s.blocks r).state ≠ .ready

/-- The task in slot `i` is the first ready one of the least priority. -/
structure FirstLeast (s : Scheduler) (i : Slot) (r : ℕ) : Prop where
  queued : s.runqueue i = some r
  ready : (s.blocks r).state = .ready
  least : ∀ j r', s.runqueue j = some r' → (s.blocks r').state = .ready →
    (s.blocks r).priority ≤ (s.blocks r').priority ∧
      (j < i → (s.blocks r).priority < (s.blocks r').priority)

/-- The search has an answer if and only if a task is ready, the answer is the id of the first ready
task of the least priority, and this is also the task that is scheduled next. -/
structure SelectsLeast (s : Scheduler) : Prop where
  found : (∃ id, s.getHighestPriorityReadyTask = some id) ↔
    ∃ i r, s.runqueue i = some r ∧ (s.blocks r).state = .ready
  first : ∀ id, s.getHighestPriorityReadyTask = some id →
    ∃ i r, s.FirstLeast i r ∧ id = (s.blocks r).id
  next : s.getNextScheduledTaskId = s.getHighestPriorityReadyTask

section Search

variable {s : Scheduler}

/-- There is one first task of the least priority. -/
lemma FirstLeast.unique {i j : Slot} {r r' : ℕ} (h : s.FirstLeast i r) (h' : s.FirstLeast j r') :
    r = r' := by
  have hle := h.least j r' h'.queued h'.ready
  have hle' := h'.least i r h.queued h.ready
  rcases lt_trichotomy i j with hij | rfl | hij
  · exact absurd (hle'.2 hij) (BitVec.not_lt.mpr hle.1)
  · exact Option.some.inj (h.queued.symm.trans h'.queued)
  · exact absurd (hle.2 hij) (BitVec.not_lt.mpr hle'.1)

/-! ## The loop -/

/-- The ready task in a slot, with its priority and id. -/
def candidate (s : Scheduler) (i : Slot) : Option (U8 × U64) :=
  (s.runqueue i).bind fun r =>
    if (s.blocks r).state = .ready then some ((s.blocks r).priority, (s.blocks r).id) else none

lemma candidate_eq_some {i : Slot} {c : U8 × U64} : s.candidate i = some c ↔
    ∃ r, s.runqueue i = some r ∧ (s.blocks r).state = .ready ∧
      c = ((s.blocks r).priority, (s.blocks r).id) := by
  rw [candidate, Option.bind_eq_some_iff]
  refine exists_congr fun r => and_congr_right fun _ => ?_
  rw [Option.ite_none_right_eq_some, Option.some.injEq, eq_comm (a := c)]

lemma betterTask_eq (s : Scheduler) :
    s.betterTask = keepLeast (fun c : U8 × U64 => c.1.toNat) s.candidate := by
  funext best i
  rw [betterTask, keepLeast, candidate]
  cases s.runqueue i with
  | none => rfl
  | some r =>
    simp only [Option.elim_some, Option.bind_some, BitVec.lt_def]
    by_cases hready : (s.blocks r).state = .ready
    · simp only [hready, if_true, true_and, Option.elim_some]
    · simp only [hready, if_false, false_and, Option.elim_none]

/-- **What the loop ends with**: its starting values, when the priority 255 hides all ready tasks,
and otherwise the first ready task of the least priority, unless its id is 0. -/
lemma highestPriority_eq (s : Scheduler) :
    ((∀ i r, s.runqueue i = some r → (s.blocks r).state = .ready →
          (s.blocks r).priority = 255#8) ∧
        s.getHighestPriorityReadyTask = none) ∨
      ∃ i r, s.FirstLeast i r ∧ (s.blocks r).priority < 255#8 ∧
        s.getHighestPriorityReadyTask
          = if (s.blocks r).id ≠ 0#64 then some (s.blocks r).id else none := by
  have hfold := foldl_keepLeast (fun c : U8 × U64 => c.1.toNat) s.candidate
    (List.pairwise_lt_finRange 1024) (255#8, 0#64)
  rw [← betterTask_eq] at hfold
  rw [getHighestPriorityReadyTask]
  rcases hfold with ⟨heq, hnone⟩ | ⟨i, -, c, hci, hlt, heq, hleast⟩
  · refine .inl ⟨fun i r hr hready => ?_, ?_⟩
    · have hle := hnone i (List.mem_finRange i) _ (candidate_eq_some.mpr ⟨r, hr, hready, rfl⟩)
      have hmax := (s.blocks r).priority.isLt
      apply BitVec.eq_of_toNat_eq
      simp only [BitVec.toNat_ofNat] at hle ⊢
      omega
    · simp only [heq, ne_eq, not_true_eq_false, if_false]
  · obtain ⟨r, hr, hready, rfl⟩ := candidate_eq_some.mp hci
    refine .inr ⟨i, r, ⟨hr, hready, fun j r' hr' hready' => ?_⟩, hlt, by simp only [heq]⟩
    exact hleast j (List.mem_finRange j) _ (candidate_eq_some.mpr ⟨r', hr', hready', rfl⟩)

/-- When nothing is ready there is no next task either. -/
lemma NoneReady.next (h : s.NoneReady) (hnone : s.getHighestPriorityReadyTask = none) :
    s.getNextScheduledTaskId = none := by
  have hfind : s.findTask (·.state == .ready) = none := by
    cases hfind : s.findTask (·.state == .ready) with
    | none => rfl
    | some r =>
      obtain ⟨i, hi, hready⟩ := findTask_queued hfind
      rw [beq_iff_eq] at hready
      exact absurd hready (h i r hi)
  rw [getNextScheduledTaskId, hnone, hfind, Option.none_or, Option.map_none]

end Search

/-- **When the search is right.**  Nothing is ready; or the first ready task of the least priority
has a priority below 255 and an id other than 0. -/
theorem selectsLeast_iff (s : Scheduler) :
    s.SelectsLeast ↔ s.NoneReady ∨
      ∃ i r, s.FirstLeast i r ∧ (s.blocks r).priority < 255#8 ∧ (s.blocks r).id ≠ 0#64 := by
  have hcases := s.highestPriority_eq
  constructor
  · intro h
    by_cases hready : s.NoneReady
    · exact .inl hready
    · -- something is ready, so the search must have an answer
      simp only [NoneReady, not_forall, not_not] at hready
      obtain ⟨i, r, hr, hready⟩ := hready
      obtain ⟨id, hid⟩ := h.found.mpr ⟨i, r, hr, hready⟩
      rcases hcases with ⟨-, hnone⟩ | ⟨j, r', hfirst, hprio, heq⟩
      · rw [hnone] at hid
        cases hid
      · refine .inr ⟨j, r', hfirst, hprio, fun hzero => ?_⟩
        rw [heq, if_neg fun hne => hne hzero] at hid
        cases hid
  · rintro (hready | ⟨i, r, hfirst, hprio, hid⟩)
    · have hnone : s.getHighestPriorityReadyTask = none := by
        rcases hcases with ⟨-, hnone⟩ | ⟨j, r', hfirst, -⟩
        · exact hnone
        · exact absurd hfirst.ready (hready j r' hfirst.queued)
      refine ⟨?_, fun id hsome => ?_, (hready.next hnone).trans hnone.symm⟩
      · rw [hnone]
        constructor
        · rintro ⟨id, hsome⟩
          cases hsome
        · rintro ⟨i, r, hr, hstate⟩
          exact absurd hstate (hready i r hr)
      · rw [hnone] at hsome
        cases hsome
    · have hsome : s.getHighestPriorityReadyTask = some (s.blocks r).id := by
        rcases hcases with ⟨hall, -⟩ | ⟨j, r', hfirst', -, heq⟩
        · rw [hall i r hfirst.queued hfirst.ready] at hprio
          exact absurd hprio (by decide)
        · rw [heq, hfirst'.unique hfirst, if_pos hid]
      refine ⟨⟨fun _ => ⟨i, r, hfirst.queued, hfirst.ready⟩, fun _ => ⟨_, hsome⟩⟩, ?_, ?_⟩
      · intro id hid'
        exact ⟨i, r, hfirst, Option.some.inj (hid'.symm.trans hsome)⟩
      · rw [getNextScheduledTaskId, hsome, Option.some_or]

/-- One ready task, in slot 0. -/
def oneReady (id : U64) (priority : U8) : Scheduler :=
  { boot with
    blocks := fun _ => { readyBlock id with priority := priority }
    made := 1
    runqueue := fun i => if i.val = 0 then some 0 else none
    taskCount := 1 }

/-- **A ready task is not found** when its priority is 255, nor when its id is 0.  The next task is
then the one that was not found. -/
theorem search_overlooks_ready :
    ((oneReady 7#64 255#8).getHighestPriorityReadyTask = none ∧
        (oneReady 7#64 255#8).getNextScheduledTaskId = some 7#64) ∧
      ((oneReady 0#64 10#8).getHighestPriorityReadyTask = none ∧
        (oneReady 0#64 10#8).getNextScheduledTaskId = some 0#64) ∧
      ¬ (oneReady 7#64 255#8).SelectsLeast ∧ ¬ (oneReady 0#64 10#8).SelectsLeast := by
  have hhigh : (oneReady 7#64 255#8).getHighestPriorityReadyTask = none := by decide +kernel
  have hzero : (oneReady 0#64 10#8).getHighestPriorityReadyTask = none := by decide +kernel
  refine ⟨⟨hhigh, by decide +kernel⟩, ⟨hzero, by decide +kernel⟩, fun h => ?_, fun h => ?_⟩
  · obtain ⟨id, hid⟩ := h.found.mpr ⟨0, 0, rfl, rfl⟩
    rw [hhigh] at hid
    cases hid
  · obtain ⟨id, hid⟩ := h.found.mpr ⟨0, 0, rfl, rfl⟩
    rw [hzero] at hid
    cases hid

end Scheduler

end Masika
