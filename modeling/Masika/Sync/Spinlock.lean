import Mathlib.Data.Nat.SuccPred
import Mathlib.Tactic.Common
import Masika.Core.Runs

/-!
# The spinlock

`Spinlock` of `sync/spinlock.rs` as a machine in which any number of CPUs take atomic steps in any
order.

* A CPU is outside, or at one of the steps of `lock`, `try_lock` or `try_lock_or_yield` (`SpinPc`).
  The weak compare-exchange of `lock` may fail although the lock is free.
* A guard comes into being with the exchange that takes the lock, and its drop is the store of
  `raw_unlock`.  A guard can be handed on, so it is not tied to the CPU that took the lock.
* Under a guard, the data is read, and later a value computed from what was read is written
  (`Stage`).  The two are steps of their own: other CPUs run in between.

The lock and the guards go through the four states of an automaton (`LockState`) whatever the CPUs
do.  So there is never more than one guard, and no update is lost: the data is what the completed
critical sections make of it, one after the other.
-/

namespace Masika

/-- Where a CPU is. -/
inductive SpinPc where
  /-- outside of the three functions -/
  | idle
  /-- at the exchange of `lock`, with `spin_count` -/
  | lock (spinCount : ℕ)
  /-- at the `spin_loop` of `lock` -/
  | spin (spinCount : ℕ)
  /-- at the `hlt` of `lock` -/
  | halt
  /-- at the exchange of `try_lock`, which `try_lock_or_yield` may have called -/
  | tryLock (orYield : Bool)
  /-- at the `spin_loop` of `try_lock_or_yield` -/
  | yield
deriving DecidableEq, Repr

/-- What has happened under a guard. -/
inductive Stage (α : Type*) where
  | entered
  | read (value : α)
  | written
deriving DecidableEq, Repr

/-- The lock, the CPUs `ι` and the live guards. -/
structure SpinRun (ι α : Type*) where
  locked : Bool
  data : α
  pc : ι → SpinPc
  guards : List (Stage α)
  /-- how many critical sections are completed -/
  completed : ℕ

/-- What the processors do. -/
inductive SpinOp (ι : Type*) where
  /-- the calls -/
  | lock (cpu : ι)
  | tryLock (cpu : ι)
  | tryLockOrYield (cpu : ι)
  /-- the next step of a call; a weak exchange fails if `spurious` -/
  | step (cpu : ι) (spurious : Bool)
  /-- what is done under the `k`-th guard -/
  | read (k : ℕ)
  | write (k : ℕ)
  | drop (k : ℕ)

namespace SpinRun

variable {ι α : Type*} [DecidableEq ι]

/-- `Spinlock::new`. -/
def new (data : α) : SpinRun ι α := ⟨false, data, fun _ => .idle, [], 0⟩

/-- A processor goes to another place. -/
def goto (x : SpinRun ι α) (cpu : ι) (pc : SpinPc) : SpinRun ι α :=
  { x with pc := Function.update x.pc cpu pc }

/-- The exchange has succeeded; the function returns the guard. -/
def acquire (x : SpinRun ι α) (cpu : ι) : SpinRun ι α :=
  { x.goto cpu .idle with locked := true, guards := x.guards ++ [.entered] }

/-- A call of one of the functions. -/
def call (x : SpinRun ι α) (cpu : ι) (pc : SpinPc) : Option (SpinRun ι α) :=
  if x.pc cpu = .idle then some (x.goto cpu pc) else none

/-- The branch `Err(_)` of `lock`; `MAX_SPIN` is 64. -/
def lockFailed (spinCount : ℕ) : SpinPc :=
  if spinCount + 1 < 64 then .spin (spinCount + 1) else .halt

/-- The next step of the function that the CPU is in. -/
def step (x : SpinRun ι α) (cpu : ι) (spurious : Bool) : Option (SpinRun ι α) :=
  match x.pc cpu with
  | .idle => none
  | .lock spinCount =>
    if x.locked = false ∧ spurious = false then some (x.acquire cpu)
    else some (x.goto cpu (lockFailed spinCount))
  | .spin spinCount => some (x.goto cpu (.lock spinCount))
  | .halt => some (x.goto cpu (.lock 0))
  | .tryLock orYield =>
    if x.locked = false then some (x.acquire cpu)
    else some (x.goto cpu (if orYield then .yield else .idle))
  | .yield => some (x.goto cpu .idle)

/-- The data is read under the `k`-th guard. -/
def read (x : SpinRun ι α) (k : ℕ) : Option (SpinRun ι α) :=
  x.guards[k]?.bind fun
    | .written => none
    | _ => some { x with guards := x.guards.set k (.read x.data) }

/-- What was read is updated and written back. -/
def write (update : α → α) (x : SpinRun ι α) (k : ℕ) : Option (SpinRun ι α) :=
  x.guards[k]?.bind fun
    | .read value => some { x with data := update value, guards := x.guards.set k .written }
    | _ => none

/-- The guard is dropped.  The critical section is complete if it has written. -/
def drop (x : SpinRun ι α) (k : ℕ) : Option (SpinRun ι α) :=
  x.guards[k]?.map fun stage => { x with
    locked := false
    guards := x.guards.eraseIdx k
    completed := match stage with
      | .written => x.completed + 1
      | _ => x.completed }

end SpinRun

/-- One event. -/
def spinStep {ι α : Type*} [DecidableEq ι] (update : α → α) (x : SpinRun ι α) :
    SpinOp ι → Option (SpinRun ι α)
  | .lock cpu => x.call cpu (.lock 0)
  | .tryLock cpu => x.call cpu (.tryLock false)
  | .tryLockOrYield cpu => x.call cpu (.tryLock true)
  | .step cpu spurious => x.step cpu spurious
  | .read k => x.read k
  | .write k => x.write update k
  | .drop k => x.drop k

/-! ## The automaton -/

/-- The states of the flag, the guards and the data, where `value` is what the completed critical
sections have made of the data. -/
inductive LockState {α : Type*} (update : α → α) (value : α) : Bool → List (Stage α) → α → Prop
  | free : LockState update value false [] value
  | entered : LockState update value true [.entered] value
  | read : LockState update value true [.read value] value
  | written : LockState update value true [.written] (update value)

section LockState

variable {α : Type*} {update : α → α} {value data : α} {locked : Bool} {guards : List (Stage α)}
  {stage : Stage α} {k : ℕ}

lemma LockState.length_le (h : LockState update value locked guards data) : guards.length ≤ 1 := by
  cases h <;> simp

lemma LockState.locked_iff (h : LockState update value locked guards data) :
    locked = true ↔ guards ≠ [] := by
  cases h <;> simp

lemma LockState.data_eq (h : LockState update value locked [] data) : data = value := by
  cases h
  rfl

lemma LockState.acquire (h : LockState update value false guards data) :
    LockState update value true (guards ++ [.entered]) data := by
  cases h
  exact .entered

/-- There is at most the guard with the number 0. -/
lemma LockState.eq_singleton (h : LockState update value locked guards data)
    (hk : guards[k]? = some stage) : k = 0 ∧ guards = [stage] := by
  obtain ⟨hlt, hget⟩ := List.getElem?_eq_some_iff.mp hk
  have hlen := h.length_le
  obtain ⟨stage', rfl⟩ := List.length_eq_one_iff.mp (show guards.length = 1 by omega)
  obtain rfl : k = 0 := by omega
  exact ⟨rfl, congrArg (fun s => [s]) hget⟩

lemma LockState.reads (h : LockState update value locked guards data)
    (hk : guards[k]? = some stage) (hstage : stage ≠ .written) :
    LockState update value locked (guards.set k (.read data)) data := by
  obtain ⟨rfl, rfl⟩ := h.eq_singleton hk
  cases h with
  | entered => exact .read
  | read => exact .read
  | written => exact absurd rfl hstage

lemma LockState.writes {w : α} (h : LockState update value locked guards data)
    (hk : guards[k]? = some (.read w)) :
    LockState update value locked (guards.set k .written) (update w) := by
  obtain ⟨rfl, rfl⟩ := h.eq_singleton hk
  cases h
  exact .written

/-- After the drop of a guard under which the data was written, the new value counts. -/
lemma LockState.drops (h : LockState update value locked guards data)
    (hk : guards[k]? = some stage) :
    LockState update (match stage with | .written => update value | _ => value) false
      (guards.eraseIdx k) data := by
  obtain ⟨rfl, rfl⟩ := h.eq_singleton hk
  cases h with
  | entered => exact .free
  | read => exact .free
  | written => exact .free

end LockState

section Runs

variable {ι α : Type*} [DecidableEq ι] {update : α → α} {init : α} {x x' : SpinRun ι α}

/-- A step of a CPU takes the lock when it is free, and else only moves the CPU. -/
lemma step_cases {cpu : ι} {spurious : Bool} (h : x.step cpu spurious = some x') :
    (x.locked = false ∧ x' = x.acquire cpu) ∨ ∃ pc, x' = x.goto cpu pc := by
  rw [SpinRun.step] at h
  split at h
  · cases h
  · split_ifs at h with hfree
    · exact .inl ⟨hfree.1, (Option.some.inj h).symm⟩
    · exact .inr ⟨_, (Option.some.inj h).symm⟩
  · exact .inr ⟨_, (Option.some.inj h).symm⟩
  · exact .inr ⟨_, (Option.some.inj h).symm⟩
  · split at h
    next hfree => exact .inl ⟨hfree, (Option.some.inj h).symm⟩
    next => exact .inr ⟨_, (Option.some.inj h).symm⟩
  · exact .inr ⟨_, (Option.some.inj h).symm⟩

/-- The invariant: the lock is in one of the four states. -/
def LockInvariant (update : α → α) (init : α) (x : SpinRun ι α) : Prop :=
  LockState update (update^[x.completed] init) x.locked x.guards x.data

omit [DecidableEq ι] in
lemma LockInvariant.drop {k : ℕ} (h : LockInvariant update init x) (hdrop : x.drop k = some x') :
    LockInvariant update init x' := by
  obtain ⟨stage, hk, rfl⟩ := Option.map_eq_some_iff.mp hdrop
  have hdrops := LockState.drops h hk
  cases stage with
  | entered => exact hdrops
  | read value => exact hdrops
  | written =>
    rw [LockInvariant, Function.iterate_succ_apply']
    exact hdrops

/-- **Every step** of every CPU keeps the lock in the automaton. -/
lemma LockInvariant.step {op : SpinOp ι} (h : LockInvariant update init x)
    (hstep : spinStep update x op = some x') : LockInvariant update init x' := by
  have hcall : ∀ {cpu pc}, x.call cpu pc = some x' → LockInvariant update init x' := by
    intro cpu pc hcall
    rw [SpinRun.call, Option.ite_none_right_eq_some] at hcall
    rw [← Option.some.inj hcall.2]
    exact h
  cases op with
  | lock cpu => exact hcall hstep
  | tryLock cpu => exact hcall hstep
  | tryLockOrYield cpu => exact hcall hstep
  | step cpu spurious =>
    rcases step_cases hstep with ⟨hfree, rfl⟩ | ⟨pc, rfl⟩
    · rw [LockInvariant, hfree] at h
      exact h.acquire
    · exact h
  | read k =>
    obtain ⟨stage, hk, hread⟩ := Option.bind_eq_some_iff.mp hstep
    cases stage with
    | written => cases hread
    | entered =>
      rw [← Option.some.inj hread]
      exact LockState.reads h hk fun heq => nomatch heq
    | read value =>
      rw [← Option.some.inj hread]
      exact LockState.reads h hk fun heq => nomatch heq
  | write k =>
    obtain ⟨stage, hk, hwrite⟩ := Option.bind_eq_some_iff.mp hstep
    cases stage with
    | entered => cases hwrite
    | written => cases hwrite
    | read value =>
      rw [← Option.some.inj hwrite]
      exact LockState.writes h hk
  | drop k => exact h.drop hstep

omit [DecidableEq ι] in
lemma new_exclusive (update : α → α) (init : α) :
    LockInvariant update init (.new init : SpinRun ι α) := .free

/-- Every run keeps the lock in the automaton, so the critical sections take place one after the
other. -/
lemma run_exclusive {ops : List (SpinOp ι)}
    (hrun : run (spinStep update) (.new init) ops = some x) : LockInvariant update init x :=
  run_invariant (fun _ _ _ h hstep => h.step hstep) (new_exclusive update init) hrun

/-- `spin_count` is below `MAX_SPIN`. -/
def SpinPc.Bounded : SpinPc → Prop
  | .lock spinCount | .spin spinCount => spinCount < 64
  | _ => True

lemma goto_bounded (h : ∀ cpu, (x.pc cpu).Bounded) (cpu : ι) {pc : SpinPc} (hpc : pc.Bounded) :
    ∀ cpu', ((x.goto cpu pc).pc cpu').Bounded := by
  intro cpu'
  simp only [SpinRun.goto, Function.update_apply]
  split_ifs
  · exact hpc
  · exact h cpu'

lemma lockFailed_bounded (spinCount : ℕ) : (SpinRun.lockFailed spinCount).Bounded := by
  rw [SpinRun.lockFailed]
  split_ifs with hlt
  · exact hlt
  · trivial

lemma step_bounded {cpu : ι} {spurious : Bool} (h : ∀ cpu, (x.pc cpu).Bounded)
    (hstep : x.step cpu spurious = some x') : ∀ cpu, (x'.pc cpu).Bounded := by
  have hcpu := h cpu
  rw [SpinRun.step] at hstep
  split at hstep
  · cases hstep
  · split_ifs at hstep
    · rw [← Option.some.inj hstep]
      exact goto_bounded h cpu trivial
    · rw [← Option.some.inj hstep]
      exact goto_bounded h cpu (lockFailed_bounded _)
  next hpc =>
    rw [hpc] at hcpu
    rw [← Option.some.inj hstep]
    exact goto_bounded h cpu hcpu
  · rw [← Option.some.inj hstep]
    exact goto_bounded h cpu (show 0 < 64 by decide)
  · split at hstep
    · rw [← Option.some.inj hstep]
      exact goto_bounded h cpu trivial
    · rw [← Option.some.inj hstep]
      refine goto_bounded h cpu ?_
      split_ifs <;> trivial
  · rw [← Option.some.inj hstep]
    exact goto_bounded h cpu trivial

/-- **`spin_count` stays below `MAX_SPIN`** on every CPU. -/
theorem run_spinCount_bounded {ops : List (SpinOp ι)}
    (hrun : run (spinStep update) (.new init) ops = some x) (cpu : ι) : (x.pc cpu).Bounded := by
  have hnew : ∀ cpu, ((.new init : SpinRun ι α).pc cpu).Bounded := fun _ => trivial
  refine run_invariant (P := fun x : SpinRun ι α => ∀ cpu, (x.pc cpu).Bounded) ?_ hnew hrun cpu
  intro x op x' h hstep
  have hcall : ∀ {cpu pc}, x.call cpu pc = some x' → pc.Bounded → ∀ cpu, (x'.pc cpu).Bounded := by
    intro cpu pc hcall hpc
    rw [SpinRun.call, Option.ite_none_right_eq_some] at hcall
    rw [← Option.some.inj hcall.2]
    exact goto_bounded h cpu hpc
  cases op with
  | lock cpu => exact hcall hstep (show 0 < 64 by decide)
  | tryLock cpu => exact hcall hstep trivial
  | tryLockOrYield cpu => exact hcall hstep trivial
  | step cpu spurious => exact step_bounded h hstep
  | read k =>
    obtain ⟨stage, -, hread⟩ := Option.bind_eq_some_iff.mp hstep
    cases stage with
    | written => cases hread
    | entered | read =>
      rw [← Option.some.inj hread]
      exact h
  | write k =>
    obtain ⟨stage, -, hwrite⟩ := Option.bind_eq_some_iff.mp hstep
    cases stage with
    | entered | written => cases hwrite
    | read value =>
      rw [← Option.some.inj hwrite]
      exact h
  | drop k =>
    obtain ⟨stage, -, rfl⟩ := Option.map_eq_some_iff.mp hstep
    exact h

end Runs

/-- **Mutual exclusion and no lost update.**  Each critical section reads a counter and later writes
the successor of what it has read. -/
theorem spinlock_exclusive {ι : Type*} [DecidableEq ι] {ops : List (SpinOp ι)} {x : SpinRun ι ℕ}
    (hrun : run (spinStep Nat.succ) (.new 0) ops = some x) :
    x.guards.length ≤ 1 ∧ (x.locked = true ↔ x.guards ≠ []) ∧
      (x.guards = [] → x.data = x.completed) := by
  have h := run_exclusive hrun
  refine ⟨h.length_le, h.locked_iff, fun hnone => ?_⟩
  rw [LockInvariant, hnone] at h
  rw [h.data_eq, Nat.succ_iterate, Nat.zero_add]

/-- Two CPUs: the second one has to wait, and fails once more for no reason. -/
theorem spinlock_exclusive_twoCpus : ∃ x : SpinRun Bool ℕ,
    run (spinStep Nat.succ) (.new 0)
        [.lock false, .lock true, .step false false, .step true false, .read 0, .write 0, .drop 0,
          .step true false, .step true true, .step true false, .step true false, .read 0, .write 0,
          .drop 0] = some x ∧
      x.guards = [] ∧ x.data = x.completed ∧ x.completed = 2 := by
  obtain ⟨x, hx⟩ : ∃ x : SpinRun Bool ℕ, run (spinStep Nat.succ) (.new 0)
      [.lock false, .lock true, .step false false, .step true false, .read 0, .write 0, .drop 0,
        .step true false, .step true true, .step true false, .step true false, .read 0, .write 0,
        .drop 0] = some x := ⟨_, rfl⟩
  have hend : x.guards = [] ∧ x.completed = 2 := by
    rw [← Option.some.inj hx]
    exact ⟨rfl, rfl⟩
  exact ⟨x, hx, hend.1, (spinlock_exclusive hx).2.2 hend.1, hend.2⟩

end Masika
