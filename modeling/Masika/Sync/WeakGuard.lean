import Masika.Sync.Spinlock

/-!
# Weak guards

`WeakSpinlockGuard::new` loads the flag of a lock and returns a guard **if the lock is held**.  The
guard gives the same mutable access to the data as the one that took the lock, and its drop is the
same store of `raw_unlock`.  So it is one more guard in the machine of the spinlock.

`Respected` is what a lock is for: at most one guard is live, and the flag is set as long as one is,
so that no drop clears it while another guard is live.  A weak guard breaks this whenever there is
one: `weakGuard_respected_iff` says that exactly the runs in which `WeakSpinlockGuard::new` always
finds the lock free, and returns nothing, keep to it.
-/

namespace Masika

variable {ι α : Type*} [DecidableEq ι]

/-- What the processors do. -/
inductive WeakOp (ι : Type*) where
  /-- a step of the spinlock; a drop may be that of a guard of either kind -/
  | spin (op : SpinOp ι)
  /-- `WeakSpinlockGuard::new`, called by a CPU that is in none of the functions of the lock -/
  | weakNew (cpu : ι)

omit [DecidableEq ι] in
/-- The load of `WeakSpinlockGuard::new`, and the guard if the lock is held. -/
def SpinRun.weakNew (x : SpinRun ι α) (cpu : ι) : Option (SpinRun ι α) :=
  if x.pc cpu = .idle then
    some (if x.locked then { x with guards := x.guards ++ [.entered] } else x)
  else none

/-- One event. -/
def weakStep (update : α → α) (x : SpinRun ι α) : WeakOp ι → Option (SpinRun ι α)
  | .spin op => spinStep update x op
  | .weakNew cpu => x.weakNew cpu

/-- At most one guard is live, and the flag is set while there is one. -/
structure Respected (x : SpinRun ι α) : Prop where
  one : x.guards.length ≤ 1
  held : x.guards ≠ [] → x.locked = true

/-- No weak guard is asked for while the lock is held. -/
def AsksWhenFree (x : SpinRun ι α) : WeakOp ι → Prop
  | .spin _ => True
  | .weakNew cpu => x.pc cpu = .idle → x.locked = false

variable {update : α → α} {x x' : SpinRun ι α}

/-- What a step of the spinlock does to the flag and to the number of guards. -/
lemma spinStep_cases {op : SpinOp ι} (h : spinStep update x op = some x') :
    (x'.locked = x.locked ∧ x'.guards.length = x.guards.length) ∨
      (x.locked = false ∧ x'.locked = true ∧ x'.guards.length = x.guards.length + 1) ∨
      (x'.locked = false ∧ x'.guards.length + 1 = x.guards.length) := by
  have hcall : ∀ {cpu pc}, x.call cpu pc = some x' →
      x'.locked = x.locked ∧ x'.guards.length = x.guards.length := by
    intro cpu pc hcall
    rw [SpinRun.call, Option.ite_none_right_eq_some] at hcall
    rw [← Option.some.inj hcall.2]
    exact ⟨rfl, rfl⟩
  cases op with
  | lock cpu => exact .inl (hcall h)
  | tryLock cpu => exact .inl (hcall h)
  | tryLockOrYield cpu => exact .inl (hcall h)
  | step cpu spurious =>
    rcases step_cases h with ⟨hfree, rfl⟩ | ⟨pc, rfl⟩
    · exact .inr (.inl ⟨hfree, rfl, by simp [SpinRun.acquire]⟩)
    · exact .inl ⟨rfl, rfl⟩
  | read k =>
    obtain ⟨stage, -, hread⟩ := Option.bind_eq_some_iff.mp h
    cases stage with
    | written => cases hread
    | entered | read =>
      rw [← Option.some.inj hread]
      exact .inl ⟨rfl, List.length_set⟩
  | write k =>
    obtain ⟨stage, -, hwrite⟩ := Option.bind_eq_some_iff.mp h
    cases stage with
    | entered | written => cases hwrite
    | read value =>
      rw [← Option.some.inj hwrite]
      exact .inl ⟨rfl, List.length_set⟩
  | drop k =>
    obtain ⟨stage, hk, rfl⟩ := Option.map_eq_some_iff.mp h
    obtain ⟨hlt, -⟩ := List.getElem?_eq_some_iff.mp hk
    have hlen : (x.guards.eraseIdx k).length = x.guards.length - 1 :=
      List.length_eraseIdx_of_lt hlt
    exact .inr (.inr ⟨rfl, by simp only [hlen]; omega⟩)

omit [DecidableEq ι] in
lemma weakNew_cases {cpu : ι} (h : x.weakNew cpu = some x') :
    x.pc cpu = .idle ∧ ((x.locked = false ∧ x' = x) ∨
      (x.locked = true ∧ x'.locked = true ∧ x'.guards.length = x.guards.length + 1)) := by
  rw [SpinRun.weakNew, Option.ite_none_right_eq_some] at h
  obtain ⟨hidle, h⟩ := h
  refine ⟨hidle, ?_⟩
  rw [← Option.some.inj h]
  cases hlocked : x.locked with
  | false => exact .inl ⟨rfl, by simp⟩
  | true => exact .inr ⟨rfl, by simp, by simp⟩

/-- The flag is set by somebody who has a guard now, whatever weak guards there are. -/
lemma weakStep_locked {op : WeakOp ι} (h : x.locked = true → 0 < x.guards.length)
    (hstep : weakStep update x op = some x') : x'.locked = true → 0 < x'.guards.length := by
  cases op with
  | spin op =>
    rcases spinStep_cases hstep with ⟨hlocked, hlen⟩ | ⟨-, -, hlen⟩ | ⟨hlocked, -⟩
    · rw [hlocked, hlen]
      exact h
    · intro _
      omega
    · simp [hlocked]
  | weakNew cpu =>
    rcases (weakNew_cases hstep).2 with ⟨-, rfl⟩ | ⟨-, -, hlen⟩
    · exact h
    · intro _
      omega

omit [DecidableEq ι] in
lemma respected_iff : Respected x ↔
    x.guards.length ≤ 1 ∧ (0 < x.guards.length → x.locked = true) := by
  rw [List.length_pos_iff]
  exact ⟨fun h => ⟨h.one, h.held⟩, fun h => ⟨h.1, h.2⟩⟩

lemma Respected.spin {op : SpinOp ι} (h : Respected x)
    (hstep : spinStep update x op = some x') : Respected x' := by
  rw [respected_iff] at h ⊢
  obtain ⟨hone, hheld⟩ := h
  rcases spinStep_cases hstep with ⟨hlocked, hlen⟩ | ⟨hfree, hlocked, hlen⟩ | ⟨-, hlen⟩
  · rw [hlocked, hlen]
    exact ⟨hone, hheld⟩
  · -- the lock was free, so there was no guard
    have hnone : ¬ 0 < x.guards.length := fun hpos => by simp [hheld hpos] at hfree
    exact ⟨by omega, fun _ => hlocked⟩
  · exact ⟨by omega, fun hpos => by omega⟩

/-- **When weak guards respect the lock.**  For every interleaving of the steps of any number of
CPUs, at most one guard is live at every point and no drop clears the flag while another guard is
live, exactly when `WeakSpinlockGuard::new` is only called while the lock is free. -/
theorem weakGuard_respected_iff (update : α → α) (init : α) (ops : List (WeakOp ι)) :
    Always Respected (weakStep update) (.new init) ops ↔
      Meets AsksWhenFree (weakStep update) (.new init) ops := by
  refine always_iff_meets (I := fun x : SpinRun ι α => x.locked = true → 0 < x.guards.length)
    (fun _ _ _ h hstep => weakStep_locked h hstep) ?_ ?_ ?_
  · intro x op hI hP
    cases op with
    | spin op => exact ⟨fun _ x' hstep => hP.spin hstep, fun _ => trivial⟩
    | weakNew cpu =>
      constructor
      · intro hask x' hstep
        rcases weakNew_cases hstep with ⟨-, ⟨-, rfl⟩ | ⟨hlocked, -⟩⟩
        · exact hP
        · rw [hask (weakNew_cases hstep).1] at hlocked
          cases hlocked
      · intro hkept hidle
        by_contra hlocked
        rw [Bool.not_eq_false] at hlocked
        have hstep : weakStep update x (.weakNew cpu)
            = some { x with guards := x.guards ++ [.entered] } := by
          rw [weakStep, SpinRun.weakNew, if_pos hidle, if_pos hlocked]
        have hone := (hkept _ hstep).one
        rw [List.length_append, List.length_singleton] at hone
        have := hI hlocked
        omega
  · intro hlocked
    cases hlocked
  · exact ⟨Nat.zero_le 1, fun h => absurd rfl h⟩

/-- One CPU takes the lock, and another one asks for a weak guard: there are two guards.  The drop
of the second clears the flag while the first is live. -/
theorem weakGuard_twoGuards :
    (∃ x : SpinRun Bool ℕ, run (weakStep Nat.succ) (.new 0)
        [.spin (.lock false), .spin (.step false false), .weakNew true] = some x ∧
      x.guards.length = 2) ∧
    (∃ x : SpinRun Bool ℕ, run (weakStep Nat.succ) (.new 0)
        [.spin (.lock false), .spin (.step false false), .weakNew true, .spin (.drop 1)] = some x ∧
      x.guards.length = 1 ∧ x.locked = false) :=
  ⟨⟨_, rfl, rfl⟩, ⟨_, rfl, rfl, rfl⟩⟩

end Masika
