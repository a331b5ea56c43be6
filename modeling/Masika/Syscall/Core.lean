import Masika.Core.Accesses
import Masika.Syscall.Brk
import Masika.Syscall.Mmap

/-!
# `handle_core_syscall`

The dispatcher of `syscall/core.rs` and the handlers that follow a pointer of the caller.  Checks on
these pointers are spread out: some are in the dispatcher, some are repeated in the handlers, and
for the path of `sys_execve` there is none.

* `validate_user_pointer` admits a buffer only if all of it lies in user space
  (`validateUserPointer_inside`), so that `sys_read` and `sys_write` stay there.
* `validate_c_string` reads from any pointer but null, up to 4096 bytes or the first zero.

So a call stays in user space if and only if it is not an `execve` whose path leaves it
(`handleCoreSyscall_confined_iff`).

The console is a device: the contents of its registers at each poll are inputs of the call, as are
the answers of `Process::fork` and of the inner calls of `sys_mmap` and `sys_brk`.  A call that does
not come back ends with `exit ()`; what it has accessed by then still counts.
-/

namespace Masika

/-- Whose pointer is followed. -/
inductive Pointer
  | user
  | kernel
deriving DecidableEq, Repr

/-- A computation that follows pointers; `exit ()` stands for not returning. -/
abbrev KernelCall := Accessing Pointer U64 U8 Unit

open Accessing

/-! ## The console -/

/-- The serial port. -/
structure Console where
  /-- the status register at each poll of `console_get_byte` -/
  status : ℕ → U8
  /-- the data register at each poll -/
  data : ℕ → U8
  /-- whether the transmitter ever gets ready for the byte -/
  ready : ℕ → Bool

/-- `console_get_byte`, at a poll. -/
def Console.getByte (c : Console) (poll : ℕ) : Option U8 :=
  if c.status poll &&& 0x01#8 ≠ 0#8 then some (c.data poll) else none

/-- `console_put_byte` polls until the transmitter is ready. -/
def Console.putByte (c : Console) (poll : ℕ) (_byte : U8) : KernelCall Unit :=
  if c.ready poll then pure () else exit ()

/-! ## Handlers -/

/-- The length of a string, if it ends within 4096 bytes. -/
def validateCString (ptr : U64) : KernelCall (Option ℕ) :=
  if ptr = 0#64 then pure none
  else scan (probe .user (fun len => ptr + BitVec.ofNat 64 len) (· == 0#8)) 4096 0

/-- `i32::MAX`. -/
def I32_MAX : ℕ := 2 ^ 31 - 1

/-- `read`, from the console. -/
def sysRead (c : Console) (fd : U32) (buf count : U64) : KernelCall U64 :=
  if buf = 0#64 ∨ count = 0#64 then pure MINUS_ONE
  else if ¬ validateUserPointer buf count then pure MINUS_ONE
  else if fd = 0#32 then do
    let count := min count.toNat I32_MAX
    let bytesRead ← scan (fun i =>
      match c.getByte i with
      | some byte => do
        store .user (buf + BitVec.ofNat 64 i) byte
        pure none
      | none => pure (some i)) count 0
    pure (BitVec.ofNat 64 (bytesRead.getD count))
  else pure MINUS_ONE

/-- `write`, to the console. -/
def sysWrite (c : Console) (fd : U32) (buf count : U64) : KernelCall U64 :=
  if buf = 0#64 ∨ count = 0#64 then pure MINUS_ONE
  else if ¬ validateUserPointer buf count then pure MINUS_ONE
  else if fd = 1#32 ∨ fd = 2#32 then do
    let count := min count.toNat I32_MAX
    let _ ← scan (fun i => do
      let byte ← load .user (buf + BitVec.ofNat 64 i)
      c.putByte i byte
      pure (none : Option Unit)) count 0
    pure (BitVec.ofNat 64 count)
  else pure MINUS_ONE

/-- All ways lead to -1. -/
def sysExecve (pathname _argv _envp : U64) : KernelCall U64 :=
  if pathname = 0#64 then pure MINUS_ONE
  else do
    match ← validateCString pathname with
    | none => pure MINUS_ONE
    | some pathLen => if pathLen = 0 then pure MINUS_ONE else pure MINUS_ONE

/-! ## The dispatcher -/

/-- The number of `exit`. -/
def SYS_EXIT : U64 := 60#64

/-- The number of `read`. -/
def SYS_READ : U64 := 0#64

/-- The number of `write`. -/
def SYS_WRITE : U64 := 1#64

/-- The number of `mmap`. -/
def SYS_MMAP : U64 := 9#64

/-- The number of `brk`. -/
def SYS_BRK : U64 := 12#64

/-- The number of `execve`. -/
def SYS_EXECVE : U64 := 59#64

/-- The number of `fork`. -/
def SYS_FORK : U64 := 57#64

/-- The registers of a call. -/
structure SyscallArgs where
  nr : U64
  a1 : U64
  a2 : U64
  a3 : U64
  a4 : U64
  a5 : U64
  a6 : U64

/-- What the call meets outside of this file. -/
structure Surroundings where
  console : Console
  outcomes : Outcomes
  /-- see `sysBrk` -/
  relock : Bool
  /-- the process id of the child, if `Process::fork` succeeds -/
  fork : Machine → Option U64 × Machine

/-- What `fork` answers, or -1. -/
def sysFork (env : Surroundings) (s : Machine) : U64 × Machine :=
  match s.process with
  | none => (MINUS_ONE, s)
  | some _ =>
    match env.fork s with
    | (some pid, s) => (pid, s)
    | (none, s) => (MINUS_ONE, s)

/-- The checks of the first `match`. -/
def argsAccepted (args : SyscallArgs) : Bool :=
  if args.nr = SYS_READ ∨ args.nr = SYS_WRITE then validateUserPointer args.a2 args.a3
  else if args.nr = SYS_MMAP then !(args.a2 = 0#64 ∨ args.a2.toNat > 0x1000000000)
  else if args.nr = SYS_BRK then !(args.a1 ≠ 0#64 ∧ !validateUserPointer args.a1 0#64)
  else true

/-- A call without pointers, which may not come back. -/
def ofOption {α : Type} : Option α → KernelCall α
  | some a => pure a
  | none => exit ()

/-- The dispatcher. -/
def handleCoreSyscall (env : Surroundings) (args : SyscallArgs) (s : Machine) :
    KernelCall (U64 × Machine) :=
  if args.nr.toNat > 1000 then pure (MINUS_ONE, s)
  else if ¬ argsAccepted args then pure (MINUS_ONE, s)
  else if args.nr = SYS_EXIT then exit ()
  else if args.nr = SYS_READ then
    (·, s) <$> sysRead env.console (args.a1.setWidth 32) args.a2 args.a3
  else if args.nr = SYS_WRITE then
    (·, s) <$> sysWrite env.console (args.a1.setWidth 32) args.a2 args.a3
  else if args.nr = SYS_MMAP then
    ofOption (sysMmap s ⟨args.a1, args.a2, args.a3, args.a4, args.a5.setWidth 32, args.a6⟩
      env.outcomes)
  else if args.nr = SYS_BRK then ofOption (sysBrk env.relock s args.a1 env.outcomes)
  else if args.nr = SYS_EXECVE then (·, s) <$> sysExecve args.a1 args.a2 args.a3
  else if args.nr = SYS_FORK then pure (sysFork env s)
  else pure (MINUS_ONE, s)

/-! ## User space -/

/-- Between the bounds of user space. -/
def InUserSpace (a : U64) : Prop := USER_SPACE_START ≤ a.toNat ∧ a.toNat < USER_SPACE_END

instance (a : U64) : Decidable (InUserSpace a) := instDecidableAnd

/-- An `execve` has a path that lies in user space: null, or a string that starts there and that
reaches neither its end nor its 4096th byte outside. -/
def PathInUserSpace (args : SyscallArgs) (mem : U64 → U8) : Prop :=
  args.nr = SYS_EXECVE → args.a1 ≠ 0#64 →
    InUserSpace args.a1 ∧
      (args.a1.toNat + 4096 ≤ USER_SPACE_END ∨
        ∃ len, args.a1.toNat + len < USER_SPACE_END ∧ mem (args.a1 + BitVec.ofNat 64 len) = 0#8)

/-- **An accepted buffer lies in user space**, from its first byte to its last. -/
lemma validateUserPointer_inside {ptr len : U64} (h : validateUserPointer ptr len = true) {i : ℕ}
    (hi : i < len.toNat) : InUserSpace (ptr + BitVec.ofNat 64 i) := by
  have hlen := len.isLt
  simp only [validateUserPointer] at h
  split_ifs at h with hnull hrange hwrap hend
  simp only [USER_SPACE_START, USER_SPACE_END] at hrange hend
  simp only [InUserSpace, USER_SPACE_START, USER_SPACE_END, BitVec.toNat_add, BitVec.toNat_ofNat]
  omega

/-- The permission that all calls but `execve` keep to. -/
def userSpaceOnly : Pointer → U64 → Prop := fun _ a => InUserSpace a

lemma sysRead_confined (c : Console) (fd : U32) (buf count : U64) :
    Confined userSpaceOnly (sysRead c fd buf count) := by
  refine .ite (fun _ => .pure _) fun _ => .ite (fun _ => .pure _) fun hvalid => ?_
  refine .ite (fun _ => .map _ ?_) fun _ => .pure _
  refine .scan _ 0 fun i _ hi => ?_
  cases c.getByte i with
  | none => exact .pure _
  | some byte =>
    have hinside := validateUserPointer_inside (not_not.mp hvalid)
      (show i < count.toNat by omega)
    exact .bind (.store byte hinside) fun _ => .pure _

lemma sysWrite_confined (c : Console) (fd : U32) (buf count : U64) :
    Confined userSpaceOnly (sysWrite c fd buf count) := by
  refine .ite (fun _ => .pure _) fun _ => .ite (fun _ => .pure _) fun hvalid => ?_
  refine .ite (fun _ => .bind ?_ fun _ => .pure _) fun _ => .pure _
  refine .scan _ 0 fun i _ hi => ?_
  have hinside := validateUserPointer_inside (not_not.mp hvalid) (show i < count.toNat by omega)
  refine .bind (.load hinside) fun byte => .bind ?_ fun _ => .pure _
  exact .ite (fun _ => .pure _) fun _ => .exit ()

lemma ofOption_confined {α : Type} (answer : Option α) :
    Confined userSpaceOnly (ofOption answer) := by
  cases answer with
  | none => exact .exit ()
  | some a => exact .pure a

lemma handleCoreSyscall_confined (env : Surroundings) {args : SyscallArgs} (s : Machine)
    (hnr : args.nr ≠ SYS_EXECVE) : Confined userSpaceOnly (handleCoreSyscall env args s) := by
  refine .ite (fun _ => .pure _) fun _ => .ite (fun _ => .pure _) fun _ => ?_
  refine .ite (fun _ => .exit ()) fun _ => ?_
  refine .ite (fun _ => .map _ (sysRead_confined _ _ _ _)) fun _ => ?_
  refine .ite (fun _ => .map _ (sysWrite_confined _ _ _ _)) fun _ => ?_
  refine .ite (fun _ => ofOption_confined _) fun _ => ?_
  refine .ite (fun _ => ofOption_confined _) fun _ => ?_
  exact .ite (fun h => absurd h hnr) fun _ => .ite (fun _ => .pure _) fun _ => .pure _

/-! ## The path of `execve` -/

lemma mem_trace_sysExecve {path argv envp : U64} {mem : U64 → U8} {x : Access Pointer U64} :
    x ∈ (sysExecve path argv envp mem).trace ↔ path ≠ 0#64 ∧
      ∃ k < 4096, x = ⟨.user, .read, path + BitVec.ofNat 64 k⟩ ∧
        ∀ j < k, mem (path + BitVec.ofNat 64 j) ≠ 0#8 := by
  by_cases hnull : path = 0#64
  · simp [sysExecve, hnull, Pure.pure, Accessing.pure]
  · rw [sysExecve, if_neg hnull, trace_bind_of_silent, validateCString, if_neg hnull,
      mem_trace_scan_probe]
    · simp [hnull]
    · intro answer mem
      cases answer with
      | none => rfl
      | some len => simp only [ite_self]; rfl

lemma handleCoreSyscall_execve (env : Surroundings) {args : SyscallArgs} (s : Machine)
    (hnr : args.nr = SYS_EXECVE) :
    handleCoreSyscall env args s = (·, s) <$> sysExecve args.a1 args.a2 args.a3 := by
  simp [handleCoreSyscall, argsAccepted, hnr, SYS_EXECVE, SYS_EXIT, SYS_READ, SYS_WRITE, SYS_MMAP,
    SYS_BRK]

/-- The bytes up to the first zero, but at most 4096 of them, lie in user space if and only if the
first one does and neither the 4096th nor the first zero is beyond its end. -/
lemma string_inside_iff {path : U64} {mem : U64 → U8} :
    (∀ k < 4096, (∀ j < k, mem (path + BitVec.ofNat 64 j) ≠ 0#8) →
        InUserSpace (path + BitVec.ofNat 64 k)) ↔
      InUserSpace path ∧ (path.toNat + 4096 ≤ USER_SPACE_END ∨
        ∃ len, path.toNat + len < USER_SPACE_END ∧ mem (path + BitVec.ofNat 64 len) = 0#8) := by
  have hpath := path.isLt
  have haddr : ∀ k, InUserSpace path → k < 4096 →
      (path + BitVec.ofNat 64 k).toNat = path.toNat + k := by
    intro k hinside hk
    simp only [InUserSpace, USER_SPACE_END] at hinside
    simp only [BitVec.toNat_add, BitVec.toNat_ofNat]
    omega
  constructor
  · intro h
    have hstart : InUserSpace path := by
      simpa using h 0 (by decide) fun j hj => absurd hj (Nat.not_lt_zero j)
    refine ⟨hstart, or_iff_not_imp_left.mpr fun hlong => ?_⟩
    -- otherwise the first byte beyond the end is read
    by_contra hzero
    simp only [not_exists, not_and] at hzero
    have hbefore := hstart.2
    have hlast := h (USER_SPACE_END - path.toNat) (by omega) fun j hj => hzero j (by omega)
    have hend := hlast.2
    rw [haddr _ hstart (by omega)] at hend
    omega
  · rintro ⟨hstart, hend⟩ k hk hnonzero
    refine ⟨?_, ?_⟩ <;> rw [haddr k hstart hk]
    · exact hstart.1.trans (Nat.le_add_right _ _)
    · rcases hend with hend | ⟨len, hlen, hzero⟩
      · omega
      · have hle : k ≤ len := not_lt.mp fun hlt => hnonzero len hlt hzero
        omega

/-- **System calls stay in user space, except for paths.**  Whatever the registers, the memory, the
console and the rest of the machine contain: all bytes that are read or written through a pointer
of the caller lie in user space if and only if the call is not an `execve` whose path leaves it. -/
theorem handleCoreSyscall_confined_iff (env : Surroundings) (args : SyscallArgs) (s : Machine)
    (mem : U64 → U8) :
    (∀ x ∈ (handleCoreSyscall env args s mem).trace, InUserSpace x.addr) ↔
      PathInUserSpace args mem := by
  by_cases hnr : args.nr = SYS_EXECVE
  · rw [handleCoreSyscall_execve env s hnr, PathInUserSpace, ← string_inside_iff]
    simp only [trace_map, mem_trace_sysExecve]
    constructor
    · intro h _ hpath k hk hnonzero
      exact h _ ⟨hpath, k, hk, rfl, hnonzero⟩
    · rintro h x ⟨hpath, k, hk, rfl, hnonzero⟩
      exact h hnr hpath k hk hnonzero
  · exact iff_of_true (handleCoreSyscall_confined env s hnr mem) fun h => absurd h hnr

/-- A console without input and output, and a process that cannot fork. -/
def quietSurroundings : Surroundings where
  console := ⟨fun _ => 0#8, fun _ => 0#8, fun _ => true⟩
  outcomes := .good
  relock := true
  fork s := (none, s)

/-- `execve` with the path at 0x1000 reads the byte there, which is below user space. -/
theorem execve_reads_below_user_space :
    ¬ ∀ x ∈ (handleCoreSyscall quietSurroundings
        ⟨SYS_EXECVE, 0x1000#64, 0#64, 0#64, 0#64, 0#64, 0#64⟩ (freshMachine 1)
        fun _ => 0#8).trace, InUserSpace x.addr := by
  intro h
  have hread := h ⟨.user, .read, 0x1000#64⟩ (by decide +kernel)
  exact absurd hread (by decide)

end Masika
