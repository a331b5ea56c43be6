import Masika.Core.BitPacked
import Masika.Core.Runs

/-!
# The scheduler

The state of `scheduler/scheduler.rs` is a queue of 1024 slots with references to control blocks, a
reference to the current one, a count of the tasks, a lock and a counter for ids.  The same control
block is reached through the queue and through `CURRENT_TASK`, so the blocks are kept in a memory of
their own and a reference is a number.

* A call that panics has the outcome `none`: the `unwrap` of `CURRENT_TASK` in `schedule`, and an
  underflow of `TASK_COUNT`, which overflow checks turn into a panic.  The other arithmetic wraps.
* `&'static mut` references are unique.  A block that is passed to `add_task` or `init_scheduler` is
  a new one: it gets the next reference.
* The fields of `ProcessControlBlock` that `scheduler.rs` uses are not those of `scheduler/pcb.rs`.
  How `ProcessControlBlock::new` sets them is a parameter (`NewPcb`); what `pcb.rs` says is that the
  block is ready and that `new` draws four numbers from `PID_COUNTER`, of which the first is the
  process id.
* `context_switch` saves and restores registers only, and `cpu::halt` waits for an interrupt and
  comes back.
-/

namespace Masika

/-! ## Control blocks -/

/-- `TaskState`, as `scheduler.rs` uses it. -/
inductive TaskState where
  | running
  | ready
  | blocked
  | zombie
  | sleeping
  | idle
  | invalid
deriving DecidableEq, Repr

/-- A task, as far as the scheduler knows it. -/
structure ProcessControlBlock where
  id : U64
  state : TaskState
  priority : U8
  tickCount : U32
  timeSlice : U32
  executionTime : U64
  wakeTime : U64
deriving DecidableEq, Repr

/-- `ProcessControlBlock::new`, given its first argument and the process id that it draws. -/
structure NewPcb where
  make : U64 → U64 → ProcessControlBlock
  ready : ∀ arg pid, (make arg pid).state = .ready

/-- The id of a block is its process id; the fields that `pcb.rs` does not have are zero. -/
def pidBlock : NewPcb where
  make _ pid := ⟨pid, .ready, 10#8, 0#32, 1000000#32, 0#64, 0#64⟩
  ready _ _ := rfl

/-- A block with an id, ready to run. -/
def readyBlock (id : U64) : ProcessControlBlock := ⟨id, .ready, 10#8, 0#32, 1#32, 0#64, 0#64⟩

/-- An index of `RUNQUEUE`, which has `MAX_TASKS` slots. -/
abbrev Slot := Fin 1024

/-- The state behind the functions of `scheduler.rs`. -/
structure Scheduler where
  /-- the memory of the control blocks -/
  blocks : ℕ → ProcessControlBlock
  /-- how many blocks there are; the next one gets this number as its reference -/
  made : ℕ
  runqueue : Slot → Option ℕ
  currentTask : Option ℕ
  taskCount : ℕ
  schedLock : Bool
  nextTaskId : U64
  pidCounter : U64

namespace Scheduler

/-- The statics as they are initialised. -/
def boot : Scheduler where
  blocks _ := ⟨0#64, .invalid, 0#8, 0#32, 0#32, 0#64, 0#64⟩
  made := 0
  runqueue _ := none
  currentTask := none
  taskCount := 0
  schedLock := false
  nextTaskId := 1#64
  pidCounter := 1#64

variable (s : Scheduler)

/-! ## Reading and writing blocks -/

/-- A write through a reference. -/
def modify (r : ℕ) (f : ProcessControlBlock → ProcessControlBlock) : Scheduler :=
  { s with blocks := Function.update s.blocks r (f (s.blocks r)) }

/-- `task.state = state`. -/
def setState (r : ℕ) (state : TaskState) : Scheduler := s.modify r ({ · with state := state })

/-- The slot at which `for i in 0..MAX_TASKS` meets the first task with the property `p`. -/
def findSlot (p : ProcessControlBlock → Bool) : Option Slot :=
  (List.finRange 1024).find? fun i => (s.runqueue i).any fun r => p (s.blocks r)

/-- The task in that slot. -/
def findTask (p : ProcessControlBlock → Bool) : Option ℕ := (s.findSlot p).bind s.runqueue

/-- The loops `for i in 0..MAX_TASKS` over all tasks in the queue. -/
def eachTask (body : Scheduler → ℕ → Scheduler) : Scheduler :=
  (List.finRange 1024).foldl (fun s i => (s.runqueue i).elim s (body s)) s

/-- The block of the current task is changed, if there is one. -/
def editCurrent (f : ProcessControlBlock → ProcessControlBlock) : Scheduler :=
  s.currentTask.elim s fun r => s.modify r f

/-- The first task with the id is changed. -/
def editById (taskId : U64) (f : ProcessControlBlock → ProcessControlBlock) : Scheduler :=
  (s.findTask (·.id == taskId)).elim s fun r => s.modify r f

/-- Make a task ready. -/
def setTaskReady (taskId : U64) : Scheduler := s.editById taskId ({ · with state := .ready })

/-- Block a task. -/
def setTaskBlocked (taskId : U64) : Scheduler := s.editById taskId ({ · with state := .blocked })

/-- A task has ended. -/
def markTaskAsZombie (taskId : U64) : Scheduler := s.editById taskId ({ · with state := .zombie })

/-- Set the time slice of a task. -/
def setTaskQuantum (taskId : U64) (quantum : U32) : Scheduler :=
  s.editById taskId ({ · with timeSlice := quantum })

/-- Set the state of the current task. -/
def setCurrentTaskState (state : TaskState) : Scheduler := s.editCurrent ({ · with state := state })

/-- Set the priority of the current task. -/
def updateCurrentTaskPriority (priority : U8) : Scheduler :=
  s.editCurrent ({ · with priority := priority })

/-- One more unit of time. -/
def incrementCurrentTaskTime : Scheduler :=
  s.editCurrent fun t => { t with executionTime := t.executionTime + 1#64 }

/-- Set all time slices. -/
def setGlobalTimeSlice (timeSlice : U32) : Scheduler :=
  s.eachTask fun s r => s.modify r ({ · with timeSlice := timeSlice })

/-- The first task with an id. -/
def getTaskById (taskId : U64) : Option ℕ := s.findTask (·.id == taskId)

/-- The state of that task. -/
def getTaskState (taskId : U64) : Option TaskState :=
  (s.findTask (·.id == taskId)).map fun r => (s.blocks r).state

/-- The clock of `wake_up_tasks`: the time of the current task. -/
def getCurrentExecutionTime : U64 :=
  s.currentTask.elim 0#64 fun r => (s.blocks r).executionTime

/-- Make the sleepers ready whose time has come. -/
def wakeUpTasks : Scheduler :=
  s.eachTask fun s r =>
    if (s.blocks r).state = .sleeping ∧ (s.blocks r).wakeTime ≤ s.getCurrentExecutionTime then
      s.setState r .ready
    else s

/-! ## Tasks come and go -/

/-- The first free slot. -/
def freeSlot : Option Slot := (List.finRange 1024).find? fun i => (s.runqueue i).isNone

/-- `RUNQUEUE[i] = Some(task); TASK_COUNT += 1`. -/
def enqueue (i : Slot) (task : ℕ) : Scheduler :=
  { s with runqueue := Function.update s.runqueue i (some task), taskCount := s.taskCount + 1 }

/-- Put a task into the first free slot. -/
def addTask (task : ℕ) : Scheduler :=
  if s.taskCount ≥ 1024 then s else s.freeSlot.elim s fun i => s.enqueue i task

/-- The first task runs. -/
def initScheduler (firstTask : ℕ) : Scheduler :=
  ({ s with currentTask := some firstTask }.setState firstTask .running).addTask firstTask

/-- A block comes into being. -/
def hold (block : ProcessControlBlock) : Scheduler :=
  { s with blocks := Function.update s.blocks s.made block, made := s.made + 1 }

/-- A new task with the next id. -/
def createTask (N : NewPcb) : Option U64 × Scheduler :=
  if s.taskCount ≥ 1024 then (none, s)
  else
    let taskId := s.nextTaskId
    let s := { s with nextTaskId := s.nextTaskId + 1#64 }
    match s.freeSlot with
    | none => (none, s)
    | some i =>
      let pcb := s.made
      let s := { s.hold (N.make taskId s.pidCounter) with pidCounter := s.pidCounter + 4#64 }
      (some taskId, s.enqueue i pcb)

/-- `RUNQUEUE[i] = None; TASK_COUNT -= 1`. -/
def release (i : Slot) : Option Scheduler :=
  if s.taskCount = 0 then none
  else some { s with
    runqueue := Function.update s.runqueue i none, taskCount := s.taskCount - 1 }

/-- Take the current task out of the queue. -/
def removeCurrentTask : Option Scheduler :=
  match s.currentTask with
  | none => some s
  | some task =>
    let s := { s with currentTask := none }
    match s.findSlot (·.id == (s.blocks task).id) with
    | none => some s
    | some i => s.release i

/-- Whether a task has ended. -/
def zombie (r : ℕ) : Bool := (s.blocks r).state == .zombie

/-- The body of the loop of `cleanup_zombie_tasks`. -/
def cleanupSlot (i : Slot) : Option Scheduler :=
  if (s.runqueue i).any s.zombie then s.release i else some s

/-- Empty the slots of the zombies. -/
def cleanupZombieTasks : Option Scheduler := (List.finRange 1024).foldlM cleanupSlot s

/-- Forget all tasks. -/
def resetScheduler : Scheduler :=
  { s with
    runqueue := fun _ => none
    currentTask := none
    taskCount := 0
    schedLock := false
    nextTaskId := 1#64 }

/-! ## Scheduling -/

/-- `(start + i) % MAX_TASKS` with `start = (current % MAX_TASKS) + 1`. -/
def scanned (current : U64) (i : ℕ) : Slot :=
  ⟨(current.toNat % 1024 + 1 + i) % 1024, Nat.mod_lt _ (by decide)⟩

/-- There is a ready task in the slot. -/
def readyAt (i : Slot) : Bool := (s.runqueue i).any fun r => (s.blocks r).state == .ready

/-- `find_next_task`, when the current task has the id `current`. -/
def findNextTask (current : U64) : Option Slot :=
  ((List.range 1024).map (scanned current)).find? s.readyAt

/-- `if task.state == Running { task.state = Ready }`. -/
def demote (r : ℕ) : Scheduler :=
  if (s.blocks r).state = .running then s.setState r .ready else s

/-- The next task after the current one takes over. -/
def schedule : Option Scheduler :=
  if s.schedLock then some s
  else
    match s.currentTask with
    | none => none
    | some current =>
      let s := s.demote current
      match s.findNextTask (s.blocks current).id with
      | none => some s
      | some i =>
        match s.runqueue i with
        | none => none
        | some next =>
          if (s.blocks next).id ≠ (s.blocks current).id then
            some { s.setState next .running with currentTask := some next }
          else some s

/-- The current task gives up the processor. -/
def yieldCpu : Option Scheduler := s.schedule

/-- The timer: schedule when the slice is used up. -/
def tick : Option Scheduler :=
  match s.currentTask with
  | none => s.schedule
  | some current =>
    let s := s.modify current fun t => { t with tickCount := t.tickCount + 1#32 }
    if (s.blocks current).tickCount ≥ (s.blocks current).timeSlice then
      (s.modify current ({ · with tickCount := 0#32 })).schedule
    else some s

/-- Demote the current task and schedule. -/
def forceContextSwitch : Option Scheduler := (s.currentTask.elim s s.demote).schedule

/-- Release the lock, and schedule. -/
def forceSchedule : Option Scheduler := { s with schedLock := false }.schedule

/-- Schedule unless the current task runs or is idle. -/
def rescheduleIfNeeded : Option Scheduler :=
  if s.schedLock then some s
  else
    match s.currentTask with
    | none => some s
    | some current =>
      if (s.blocks current).state ≠ .running ∧ (s.blocks current).state ≠ .idle then s.schedule
      else some s

/-- Put the current task to sleep, and schedule. -/
def sleepCurrentTask (duration : U64) : Option Scheduler :=
  match s.currentTask with
  | none => some s
  | some current =>
    (s.modify current fun t =>
      { t with wakeTime := s.getCurrentExecutionTime + duration, state := .sleeping }).schedule

/-- The body of the loop of `get_highest_priority_ready_task`, with `highest_prio` and
`target_task_id`. -/
def betterTask (best : U8 × U64) (i : Slot) : U8 × U64 :=
  (s.runqueue i).elim best fun r =>
    if (s.blocks r).state = .ready ∧ (s.blocks r).priority < best.1 then
      ((s.blocks r).priority, (s.blocks r).id)
    else best

/-- The ready task with the least priority value. -/
def getHighestPriorityReadyTask : Option U64 :=
  let best := (List.finRange 1024).foldl s.betterTask (255#8, 0#64)
  if best.2 ≠ 0#64 then some best.2 else none

/-- Switch to the task with the best priority. -/
def scheduleWithPolicy : Scheduler :=
  match s.getHighestPriorityReadyTask, s.currentTask with
  | some nextId, some current =>
    if (s.blocks current).id ≠ nextId then
      (s.findTask (·.id == nextId)).elim s fun task =>
        { s.setState task .running with currentTask := some task }
    else s
  | _, _ => s

end Scheduler

/-! ## Calls -/

/-- The calls of the scheduler. -/
inductive SchedOp where
  | initScheduler (firstTask : ProcessControlBlock)
  | addTask (task : ProcessControlBlock)
  | createTask
  | removeCurrentTask
  | setTaskReady (taskId : U64)
  | setTaskBlocked (taskId : U64)
  | setTaskQuantum (taskId : U64) (quantum : U32)
  | setGlobalTimeSlice (timeSlice : U32)
  | setCurrentTaskState (state : TaskState)
  | updateCurrentTaskPriority (priority : U8)
  | incrementCurrentTaskTime
  | markTaskAsZombie (taskId : U64)
  | cleanupZombieTasks
  | sleepCurrentTask (duration : U64)
  | wakeUpTasks
  | schedule
  | tick
  | yieldCpu
  | forceSchedule
  | forceContextSwitch
  | scheduleWithPolicy
  | rescheduleIfNeeded
  /-- and `disable_scheduler` -/
  | preemptDisable
  /-- and `enable_scheduler` -/
  | preemptEnable
  | resetScheduler

/-- One call. -/
def schedStep (N : NewPcb) (s : Scheduler) : SchedOp → Option Scheduler
  | .initScheduler firstTask => some ((s.hold firstTask).initScheduler s.made)
  | .addTask task => some ((s.hold task).addTask s.made)
  | .createTask => some (s.createTask N).2
  | .removeCurrentTask => s.removeCurrentTask
  | .setTaskReady taskId => some (s.setTaskReady taskId)
  | .setTaskBlocked taskId => some (s.setTaskBlocked taskId)
  | .setTaskQuantum taskId quantum => some (s.setTaskQuantum taskId quantum)
  | .setGlobalTimeSlice timeSlice => some (s.setGlobalTimeSlice timeSlice)
  | .setCurrentTaskState state => some (s.setCurrentTaskState state)
  | .updateCurrentTaskPriority priority => some (s.updateCurrentTaskPriority priority)
  | .incrementCurrentTaskTime => some s.incrementCurrentTaskTime
  | .markTaskAsZombie taskId => some (s.markTaskAsZombie taskId)
  | .cleanupZombieTasks => s.cleanupZombieTasks
  | .sleepCurrentTask duration => s.sleepCurrentTask duration
  | .wakeUpTasks => some s.wakeUpTasks
  | .schedule => s.schedule
  | .tick => s.tick
  | .yieldCpu => s.yieldCpu
  | .forceSchedule => s.forceSchedule
  | .forceContextSwitch => s.forceContextSwitch
  | .scheduleWithPolicy => some s.scheduleWithPolicy
  | .rescheduleIfNeeded => s.rescheduleIfNeeded
  | .preemptDisable => some { s with schedLock := true }
  | .preemptEnable => some { s with schedLock := false }
  | .resetScheduler => some s.resetScheduler

end Masika
