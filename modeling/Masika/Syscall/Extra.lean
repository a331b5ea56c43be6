import Masika.Core.BitPacked
import Masika.Core.Loops

/-!
# Two system calls of `extra.rs`

`syscall_sigaction` only looks at the number of the signal.  `syscall_poll` goes through an array of
file descriptors in user memory and reports those that can be written to.

What `syscall_poll` does with one entry is `polled`; its loop does that to each entry in turn
(`pollFrom_ok`), and counts the entries for which it reports something.  An entry whose descriptor
is not one of the seven open ones is passed over and not written at all, so what the caller left in
its `revents` stays there and is not counted.  `pollAgrees_iff` says that this is the only way in
which the count and the array can disagree.
-/

namespace Masika

/-- The errors of these calls. -/
inductive SysError where
  | EINVAL
  | EFAULT
deriving DecidableEq, Repr

/-- The signal number is an `i32`. -/
def syscallSigaction (sig : U32) : Except SysError U64 :=
  if sig.toInt < 1 ∨ sig.toInt > 64 then .error .EINVAL else .ok 0#64

/-! ## The code of `syscall_poll` -/

/-- `struct pollfd`. -/
structure PollFd where
  fd : U32
  events : U16
  revents : U16
deriving DecidableEq, Repr

/-- The error, if any, with which the access to an entry of an array in user memory fails. -/
structure UserFaults where
  read : ℕ → Option SysError
  write : ℕ → Option SysError

/-- `fd_struct.fd >= 0 && fd_struct.fd <= 6`. -/
def PollFd.open (e : PollFd) : Bool := decide (0 ≤ e.fd.toInt) && decide (e.fd.toInt ≤ 6)

/-- `fd_struct.revents = fd_struct.events & 4`. -/
def PollFd.report (e : PollFd) : PollFd := { e with revents := e.events &&& 4#16 }

/-- The loop from entry `i` on, with the array as it is left behind. -/
def pollFrom (faults : UserFaults) :
    ℕ → ℕ → ℕ → (ℕ → PollFd) → Except SysError ℕ × (ℕ → PollFd)
  | 0, _, count, fds => (.ok count, fds)
  | left + 1, i, count, fds =>
    match faults.read i with
    | some e => (.error e, fds)
    | none =>
      if (fds i).open then
        let fdStruct := (fds i).report
        let count := if fdStruct.revents ≠ 0#16 then count + 1 else count
        match faults.write i with
        | some e => (.error e, fds)
        | none => pollFrom faults left (i + 1) count (Function.update fds i fdStruct)
      else pollFrom faults left (i + 1) count fds

/-- `syscall_poll`, which does not look at its timeout. -/
def syscallPoll (faults : UserFaults) (nfds : ℕ) (fds : ℕ → PollFd) :
    Except SysError ℕ × (ℕ → PollFd) :=
  if nfds > 1024 then (.error .EINVAL, fds) else pollFrom faults nfds 0 0 fds

/-! ## One entry, and all of them -/

/-- What becomes of an entry. -/
def PollFd.polled (e : PollFd) : PollFd := if e.open then e.report else e

/-- An entry that is counted. -/
def PollFd.ready (e : PollFd) : Bool := e.open && decide (e.report.revents ≠ 0#16)

lemma PollFd.polled_keeps (e : PollFd) : e.polled.fd = e.fd ∧ e.polled.events = e.events := by
  rw [polled]
  split_ifs
  · exact ⟨rfl, rfl⟩
  · exact ⟨rfl, rfl⟩

section Loop

variable {faults : UserFaults} {c left i count : ℕ} {fds fds' : ℕ → PollFd}

/-- **One round** that does not fail. -/
lemma pollFrom_succ (h : pollFrom faults (left + 1) i count fds = (.ok c, fds')) :
    pollFrom faults left (i + 1) (count + if (fds i).ready then 1 else 0)
      (Function.update fds i (fds i).polled) = (.ok c, fds') := by
  rw [pollFrom] at h
  split at h
  · cases h
  · by_cases hopen : (fds i).open = true
    · rw [if_pos hopen] at h
      simp only at h
      split at h
      · cases h
      · rw [PollFd.polled, if_pos hopen, PollFd.ready, hopen]
        by_cases hzero : (fds i).report.revents = 0#16
        · simpa [hzero] using h
        · simpa [hzero] using h
    · rw [if_neg hopen] at h
      rw [PollFd.polled, if_neg hopen, PollFd.ready, Function.update_eq_self]
      simpa [hopen] using h

/-- **The whole loop**, by induction on the rounds: when the turn of an entry comes it is still as
it was, and afterwards it is left alone. -/
lemma pollFrom_ok : ∀ {left i count : ℕ} {fds : ℕ → PollFd},
    pollFrom faults left i count fds = (.ok c, fds') →
      c = count + (List.range' i left).countP (fun j => (fds j).ready) ∧
        (∀ j < i, fds' j = fds j) ∧ ∀ j, i ≤ j → j < i + left → fds' j = (fds j).polled := by
  intro left
  induction left with
  | zero =>
    intro i count fds h
    obtain ⟨hc, rfl⟩ := Prod.mk.inj h
    obtain rfl := Except.ok.inj hc
    exact ⟨rfl, fun _ _ => rfl, fun j hle hlt => by omega⟩
  | succ left ih =>
    intro i count fds h
    obtain ⟨hcount, hbefore, hafter⟩ := ih (pollFrom_succ h)
    refine ⟨?_, fun j hj => ?_, fun j hle hlt => ?_⟩
    · have hrest : (List.range' (i + 1) left).countP
            (fun j => (Function.update fds i (fds i).polled j).ready) =
          (List.range' (i + 1) left).countP (fun j => (fds j).ready) := by
        refine List.countP_congr fun j hj => ?_
        have hne : j ≠ i := by
          have := (List.mem_range'_1.mp hj).1
          omega
        rw [Function.update_of_ne hne]
      rw [hcount, hrest, List.range'_succ, List.countP_cons]
      omega
    · rw [hbefore j (by omega), Function.update_of_ne (by omega)]
    · rcases Nat.eq_or_lt_of_le hle with rfl | hlater
      · rw [hbefore i (by omega), Function.update_self]
      · rw [hafter j hlater (by omega), Function.update_of_ne (by omega)]

end Loop

/-- Nothing is refused: the call succeeds. -/
lemma syscallPoll_succeeds {faults : UserFaults} (hread : ∀ i, faults.read i = none)
    (hwrite : ∀ i, faults.write i = none) {nfds : ℕ} (hn : nfds ≤ 1024) (fds : ℕ → PollFd) :
    ∃ c fds', syscallPoll faults nfds fds = (.ok c, fds') := by
  have hloop : ∀ (left i count : ℕ) (fds : ℕ → PollFd),
      ∃ c fds', pollFrom faults left i count fds = (.ok c, fds') := by
    intro left
    induction left with
    | zero => exact fun i count fds => ⟨count, fds, rfl⟩
    | succ left ih =>
      intro i count fds
      rw [pollFrom, hread]
      simp only [hwrite]
      split_ifs
      · exact ih _ _ _
      · exact ih _ _ _
      · exact ih _ _ _
  rw [syscallPoll, if_neg (by omega)]
  exact hloop nfds 0 0 fds

/-! ## The count and the array -/

/-- **The count matches the array**: `c` entries report something, nothing is reported that was not
asked for, and the rest of each entry is as it was. -/
structure PollAgrees (nfds : ℕ) (fds : ℕ → PollFd) (c : ℕ) (fds' : ℕ → PollFd) : Prop where
  count : c = (List.range nfds).countP fun i => decide ((fds' i).revents ≠ 0#16)
  asked : ∀ i < nfds, (fds' i).revents &&& (fds' i).events = (fds' i).revents
  kept : ∀ i < nfds, (fds' i).fd = (fds i).fd ∧ (fds' i).events = (fds i).events

/-- What is reported afterwards: what is counted, and what was passed over. -/
lemma PollFd.revents_polled_ne_zero (e : PollFd) :
    decide (e.polled.revents ≠ 0#16) = (e.ready || !e.open && decide (e.revents ≠ 0#16)) := by
  rw [polled, ready]
  cases e.open with
  | true => simp
  | false => simp

/-- **When the count matches the array**: the entries whose descriptor is not open came with a
`revents` of 0. -/
theorem pollAgrees_iff {faults : UserFaults} {nfds c : ℕ} {fds fds' : ℕ → PollFd}
    (h : syscallPoll faults nfds fds = (.ok c, fds')) :
    PollAgrees nfds fds c fds' ↔ ∀ i < nfds, (fds i).open = false → (fds i).revents = 0#16 := by
  have hloop : pollFrom faults nfds 0 0 fds = (.ok c, fds') := by
    rw [syscallPoll] at h
    split_ifs at h
    · cases h
    · exact h
  obtain ⟨hcount, -, hall⟩ := pollFrom_ok hloop
  rw [Nat.zero_add, ← List.range_eq_range'] at hcount
  have hpolled : ∀ i < nfds, fds' i = (fds i).polled := fun i hi => hall i (by omega) (by omega)
  have hcounts : c = (List.range nfds).countP (fun i => decide ((fds' i).revents ≠ 0#16)) ↔
      ∀ i < nfds, (fds i).open = false → (fds i).revents = 0#16 := by
    have hafter : (List.range nfds).countP (fun i => decide ((fds' i).revents ≠ 0#16)) =
        (List.range nfds).countP fun i =>
          (fds i).ready || !(fds i).open && decide ((fds i).revents ≠ 0#16) := by
      refine List.countP_congr fun i hi => ?_
      rw [hpolled i (List.mem_range.mp hi), PollFd.revents_polled_ne_zero]
    rw [hcount, hafter, countP_eq_countP_iff fun i hi => by rw [hi, Bool.true_or]]
    simp only [List.mem_range]
    refine forall₂_congr fun i _ => ?_
    rw [PollFd.ready]
    cases (fds i).open with
    | true => simp
    | false => simp
  refine ⟨fun hagrees => hcounts.mp hagrees.count, fun hzero => ⟨hcounts.mpr hzero, ?_, ?_⟩⟩
  · intro i hi
    rw [hpolled i hi, PollFd.polled]
    split_ifs with hopen
    · rw [PollFd.report, BitVec.and_comm, ← BitVec.and_assoc, BitVec.and_self]
    · rw [hzero i hi (Bool.eq_false_iff.mpr hopen), BitVec.zero_and]
  · intro i hi
    rw [hpolled i hi]
    exact (fds i).polled_keeps

/-- User memory that can be read and written. -/
def noFaults : UserFaults := ⟨fun _ => none, fun _ => none⟩

/-- An open descriptor with an old `revents`, and one that is not open. -/
theorem pollAgrees_open_and_closed : ∃ c fds',
    syscallPoll noFaults 2 (fun i => if i = 0 then ⟨3#32, 5#16, 9#16⟩ else ⟨7#32, 4#16, 0#16⟩) =
        (.ok c, fds') ∧
      PollAgrees 2 (fun i => if i = 0 then ⟨3#32, 5#16, 9#16⟩ else ⟨7#32, 4#16, 0#16⟩) c fds' := by
  obtain ⟨c, fds', h⟩ := syscallPoll_succeeds (show ∀ i, noFaults.read i = none from fun _ => rfl)
    (fun _ => rfl) (show 2 ≤ 1024 by decide)
    fun i => if i = 0 then ⟨3#32, 5#16, 9#16⟩ else ⟨7#32, 4#16, 0#16⟩
  exact ⟨c, fds', h, (pollAgrees_iff h).mpr (by decide)⟩

/-- **A descriptor of -1 with an old `revents`**: nothing is counted, and the array reports what
nobody asked for. -/
theorem poll_leaves_old_report : ∃ fds',
    syscallPoll noFaults 1 (fun _ => ⟨-1#32, 1#16, 4#16⟩) = (.ok 0, fds') ∧
      (fds' 0).revents = 4#16 ∧ ¬ PollAgrees 1 (fun _ => ⟨-1#32, 1#16, 4#16⟩) 0 fds' := by
  refine ⟨_, rfl, rfl, fun h => ?_⟩
  exact absurd h.count (by decide)

end Masika
