import Masika.Arch.Machine
import Masika.Core.Runs

/-!
# Entry code and the floating-point image

`context_switch`, `interrupt_common_stub` and `syscall_handler` of `arch/entry.s` all save registers
the same way: they push them, make room for 160 bytes below, and store the floating-point image
there. FXSAVE writes **416** bytes.  The last 256 of them, the vector registers, land on the words
that were just pushed and on what lies above: the return address, the frame of the interrupt, the
caller.

So what comes back is decided by the vector registers at the time of the save.  `Saved` says what is
in memory after a save, `restore_spec` what a restore takes out of it; the rest is to see that
nothing changes in between: an interrupt handler and `syscall_dispatch` keep to the calling
convention, and the other tasks have stacks of their own (`Resumed`).

* `registers_preserved_iff`: a task that is switched away from and later resumed, or that is
  interrupted, has its registers back exactly when its vector registers held copies of them.
* `syscall_result_iff`: the same for system calls; moreover `handle_syscall` stores the result where
  no register is restored from, so the vector registers would have to hold the result as well.
-/

namespace Masika

/-! ## The code -/

/-- The fifteen registers, in the order of the pushes. -/
def savedRegs : List Reg :=
  [.rax, .rbx, .rcx, .rdx, .rsi, .rdi, .rbp, .r8, .r9, .r10, .r11, .r12, .r13, .r14, .r15]

/-- The registers that `syscall_handler` pushes. -/
def syscallRegs : List Reg := [.rax, .rcx, .rdx, .rsi, .rdi, .r8, .r9, .r10, .r11]

/-- Pushes, then `sub $160, %rsp` and `fxsave (%rsp)`. -/
def saveCode (rs : List Reg) : List Instr := rs.map .push ++ [.subRsp 160, .fxsave]

/-- `fxrstor (%rsp)` and `add $160, %rsp`, then the pops in the reverse order. -/
def restoreCode (rs : List Reg) : List Instr := [.fxrstor, .addRsp 160] ++ rs.reverse.map .pop

/-- `context_switch`. -/
def contextSwitch : List Instr :=
  saveCode savedRegs ++ [.store .rsp .rdi, .load .rsi .rsp] ++ restoreCode savedRegs ++ [.ret]

/-- The bytes above the stack pointer that are in use when `interrupt_handler` is called: the area
of 160 bytes, fifteen registers and the five words that the interrupt pushed. -/
abbrev InterruptHandler := AbiFunction 320

/-- `interrupt_common_stub`. -/
def interruptCommonStub (handler : InterruptHandler) (s : Cpu) : Cpu :=
  (handler.run (s.execAll (saveCode savedRegs))).execAll (restoreCode savedRegs ++ [.iretq])

/-- `handle_syscall` up to its call. -/
def handleSyscallEntry : List Instr :=
  [.push .rbp, .mov .rsp .rbp, .push .rbx, .push .r12, .push .r13, .push .r14, .push .r15,
    .mov .rdi .r15, .mov .rsi .r14, .mov .rdx .r13, .mov .rcx .r12, .mov .r8 .rbx, .mov .r9 .rbp]

/-- `handle_syscall` after its call. -/
def handleSyscallExit : List Instr :=
  [.store .rax .r15, .pop .r15, .pop .r14, .pop .r13, .pop .r12, .pop .rbx, .pop .rbp, .ret]

/-- The bytes in use when `syscall_dispatch` is called: seven words of `handle_syscall`, the area of
160 bytes and nine registers. -/
abbrev SyscallDispatch := AbiFunction 288

/-- The state at the call of `syscall_dispatch`; `ret` is where `handle_syscall` returns to. -/
def atDispatch (ret : U64) (s : Cpu) : Cpu :=
  s.execAll (saveCode syscallRegs ++ [.mov .rsp .rdi, .call ret] ++ handleSyscallEntry)

/-- The value that `syscall_dispatch` returns. -/
def dispatched (dispatch : SyscallDispatch) (ret : U64) (s : Cpu) : U64 :=
  (dispatch.run (atDispatch ret s)).regs .rax

/-- `syscall_handler` up to its `sysretq`.  It goes on after the call of `handle_syscall` if that
returns to where it was called from. -/
def syscallHandler (dispatch : SyscallDispatch) (ret : U64) (s : Cpu) : Option Cpu :=
  let t := (dispatch.run (atDispatch ret s)).execAll handleSyscallExit
  if t.rip = ret then some (t.execAll (restoreCode syscallRegs)) else none

/-! ## Saving and restoring -/

/-- The words of the vector registers in the image, the lower half of XMM0 first. -/
def vectorWords (fpu : ℕ → U8) (count : ℕ) : List U64 :=
  (List.range count).map fun i => wordAt fpu (160 + 8 * i)

@[simp] lemma length_vectorWords (fpu : ℕ → U8) (count : ℕ) :
    (vectorWords fpu count).length = count := by
  rw [vectorWords, List.length_map, List.length_range]

/-- What a save leaves behind: where the pushed words were meant to be are the vector registers. -/
structure Saved (s t : Cpu) (rs : List Reg) : Prop where
  rsp : above (t.regs .rsp) (160 + 8 * rs.length) = s.regs .rsp
  regs : ∀ r ≠ .rsp, t.regs r = s.regs r
  words : ∀ count ≤ 32, readWords t.mem (above (t.regs .rsp) 160) count = vectorWords s.fpu count
  other : ∀ x, ¬ Within (t.regs .rsp) fxBytes x → t.mem x = s.mem x

/-- **A save.**  The pushed words lie within the image, so nothing of them is left. -/
lemma save_spec (s : Cpu) (rs : List Reg) (hrs : .rsp ∉ rs) (hlen : rs.length ≤ 32) :
    Saved s (s.execAll (saveCode rs)) rs := by
  have h := s.pushAll_spec rs hrs (by omega)
  set p := s.execAll (rs.map .push)
  have hcode : s.execAll (saveCode rs) = (p.exec (.subRsp 160)).exec .fxsave := by
    rw [saveCode, Cpu.execAll_append]
    rfl
  have hrsp : (s.execAll (saveCode rs)).regs .rsp = p.regs .rsp - BitVec.ofNat 64 160 := by
    rw [hcode]
    exact Cpu.setReg_self p .rsp _
  have hmem : (s.execAll (saveCode rs)).mem
      = writeRange p.mem (p.regs .rsp - BitVec.ofNat 64 160) fxBytes s.fpu := by
    rw [hcode, ← h.fpu]
    rfl
  have hlow : above ((s.execAll (saveCode rs)).regs .rsp) 160 = p.regs .rsp := by
    rw [hrsp, above_sub]
  refine ⟨?_, fun r hr => ?_, fun count hcount => ?_, fun x hx => ?_⟩
  · rw [← above_above, hlow, h.rsp]
  · rw [hcode, ← h.regs r hr]
    exact Cpu.setReg_other p _ hr
  · have hwords := words_writeRange p.mem (p.regs .rsp - BitVec.ofNat 64 160) (n := fxBytes)
      (k := 160) count s.fpu (by rw [fxBytes]; omega) (by rw [fxBytes]; omega)
    rw [words_iff, List.length_map, List.length_range] at hwords
    rw [hmem, hrsp, hwords, vectorWords]
  · have hpushed : ¬ Within (p.regs .rsp) (8 * rs.length) x := by
      rw [← hlow]
      exact fun hw => hx (hw.of_above (by rw [fxBytes]; omega) (by rw [fxBytes]; omega))
    rw [hmem, writeRange_other (by rwa [← hrsp]), h.other x hpushed]

/-- What a restore does: it takes the words above the area of 160 bytes. -/
structure Restored (s t : Cpu) (rs : List Reg) : Prop where
  words : rs.reverse.map t.regs = readWords s.mem (above (s.regs .rsp) 160) rs.length
  rsp : t.regs .rsp = above (s.regs .rsp) (160 + 8 * rs.length)
  regs : ∀ r ∉ rs, r ≠ .rsp → t.regs r = s.regs r
  mem : t.mem = s.mem

lemma restore_spec (s : Cpu) (rs : List Reg) (hrs : .rsp ∉ rs) (hnodup : rs.Nodup) :
    Restored s (s.execAll (restoreCode rs)) rs := by
  set p := (s.exec .fxrstor).exec (.addRsp 160) with hp
  have hrsp : p.regs .rsp = above (s.regs .rsp) 160 := Cpu.setReg_self _ .rsp _
  have h := p.popAll_spec rs.reverse (by rwa [List.mem_reverse])
    (List.nodup_reverse.mpr hnodup) (by rw [length_readWords, List.length_reverse])
    (words_readWords p.mem (p.regs .rsp) rs.length)
  refine ⟨?_, ?_, fun r hr hne => ?_, h.mem⟩
  · have hpopped := h.popped
    rwa [hrsp] at hpopped
  · have hend := h.rsp
    rwa [hrsp, above_above, List.length_reverse] at hend
  · exact (h.regs r (by rwa [List.mem_reverse]) hne).trans (Cpu.setReg_other _ _ hne)

/-- Where the CPU goes on, as an interrupt would push it. -/
def Cpu.resumesAt (t : Cpu) : List U64 := [t.rip, t.cs, t.rflags, t.regs .rsp, t.ss]

lemma resumesAt_iretq (s : Cpu) : (s.exec .iretq).resumesAt = readWords s.mem (s.regs .rsp) 5 := by
  simp only [Cpu.resumesAt, Cpu.exec, Cpu.setReg_self, readWords]
  rfl

/-- A restore that ends with `iretq` takes five words more. -/
lemma restore_iretq (s : Cpu) {rs : List Reg} (hrs : .rsp ∉ rs) (hnodup : rs.Nodup) :
    rs.reverse.map (s.execAll (restoreCode rs ++ [.iretq])).regs
        ++ (s.execAll (restoreCode rs ++ [.iretq])).resumesAt
      = readWords s.mem (above (s.regs .rsp) 160) (rs.length + 5) := by
  have h := restore_spec s rs hrs hnodup
  rw [Cpu.execAll_append, Cpu.execAll_cons, Cpu.execAll_nil, resumesAt_iretq, h.mem, h.rsp,
    Cpu.map_regs_congr (Cpu.iretq_regs _) (by rwa [List.mem_reverse]), h.words, readWords_add,
    above_above]

/-- A restore that ends with `ret` takes one word more. -/
lemma restore_ret (s : Cpu) {rs : List Reg} (hrs : .rsp ∉ rs) (hnodup : rs.Nodup) :
    rs.reverse.map (s.execAll (restoreCode rs ++ [.ret])).regs
        ++ [(s.execAll (restoreCode rs ++ [.ret])).rip]
      = readWords s.mem (above (s.regs .rsp) 160) (rs.length + 1) := by
  have h := restore_spec s rs hrs hnodup
  rw [Cpu.execAll_append, Cpu.execAll_cons, Cpu.execAll_nil, Cpu.ret_rip, h.mem, h.rsp,
    Cpu.map_regs_congr (Cpu.ret_regs _) (by rwa [List.mem_reverse]), h.words, readWords_add,
    above_above]

/-! ## Interrupts -/

lemma rsp_notMem_savedRegs : .rsp ∉ savedRegs := by decide

lemma nodup_savedRegs : savedRegs.Nodup := by decide

/-- The words that an interrupt pushes: `rip`, `cs`, `rflags`, `rsp` and `ss`. -/
def interruptFrame (s : Cpu) : List U64 := readWords s.mem (s.regs .rsp) 5

/-- **What an interrupt returns with**: the vector registers of the interrupted code. -/
lemma interruptCommonStub_words (handler : InterruptHandler) (s : Cpu) :
    savedRegs.reverse.map (interruptCommonStub handler s).regs
        ++ (interruptCommonStub handler s).resumesAt = vectorWords s.fpu 20 := by
  have hsave := save_spec s savedRegs rsp_notMem_savedRegs (by decide)
  rw [interruptCommonStub, restore_iretq _ rsp_notMem_savedRegs nodup_savedRegs,
    handler.saved _ .rsp (by decide), ← hsave.words 20 (by decide)]
  refine readWords_congr (by decide) fun x hx => ?_
  exact handler.frame _ x (hx.of_above (by decide) (by decide))

/-! ## Context switches -/

/-- Where `context_switch` stores the image: the 280 bytes below the return address are for the area
of 160 bytes and fifteen registers. -/
def imageBase (s : Cpu) : U64 := s.regs .rsp - 280#64

/-- The memory from which the next task is resumed: the image has been saved, and the stack pointer
stored in the slot of the task. -/
def switchMemory (s : Cpu) : Memory64 :=
  writeU64 (s.execAll (saveCode savedRegs)).mem (s.regs .rdi) (imageBase s)

lemma saved_rsp (s : Cpu) : (s.execAll (saveCode savedRegs)).regs .rsp = imageBase s :=
  eq_sub_of_above (save_spec s savedRegs rsp_notMem_savedRegs (by decide)).rsp

/-- The two instructions between the save and the restore. -/
lemma contextSwitch_eq (s : Cpu) :
    ∃ t : Cpu, s.execAll contextSwitch = t.execAll (restoreCode savedRegs ++ [.ret]) ∧
      t.mem = switchMemory s ∧ t.regs .rsp = readU64 (switchMemory s) (s.regs .rsi) := by
  have hsave := save_spec s savedRegs rsp_notMem_savedRegs (by decide)
  have hmem : ((s.execAll (saveCode savedRegs)).exec (.store .rsp .rdi)).mem = switchMemory s := by
    rw [Cpu.store_mem, switchMemory, hsave.regs .rdi (by decide), saved_rsp]
  refine ⟨((s.execAll (saveCode savedRegs)).exec (.store .rsp .rdi)).exec (.load .rsi .rsp), ?_,
    ?_, ?_⟩
  · simp only [contextSwitch, Cpu.execAll_append, Cpu.execAll_cons, Cpu.execAll_nil]
  · rw [Cpu.load_mem, hmem]
  · rw [Cpu.load_self, hmem, Cpu.store_regs, hsave.regs .rsi (by decide)]

lemma contextSwitch_mem (s : Cpu) : (s.execAll contextSwitch).mem = switchMemory s := by
  obtain ⟨t, heq, hmem, -⟩ := contextSwitch_eq s
  rw [heq, Cpu.execAll_append, Cpu.execAll_cons, Cpu.execAll_nil, Cpu.ret_mem,
    (restore_spec t savedRegs rsp_notMem_savedRegs nodup_savedRegs).mem, hmem]

/-- What the next task is resumed with. -/
lemma contextSwitch_words (s : Cpu) :
    savedRegs.reverse.map (s.execAll contextSwitch).regs ++ [(s.execAll contextSwitch).rip]
      = readWords (switchMemory s) (above (readU64 (switchMemory s) (s.regs .rsi)) 160) 16 := by
  obtain ⟨t, heq, hmem, hrsp⟩ := contextSwitch_eq s
  rw [heq, restore_ret t rsp_notMem_savedRegs nodup_savedRegs, hmem, hrsp]
  rfl

/-- A switch writes to the frame of the image and to the slot of the task. -/
lemma switchMemory_other {s : Cpu} {x : U64} (hframe : ¬ Within (imageBase s) fxBytes x)
    (hslot : ¬ Within (s.regs .rdi) 8 x) : switchMemory s x = s.mem x := by
  have hsave := save_spec s savedRegs rsp_notMem_savedRegs (by decide)
  rw [switchMemory, writeU64, writeRange_other hslot, hsave.other x (by rwa [saved_rsp])]

/-- A task that is not running: its slot says where its frame is, and the frame holds words `ws`. -/
structure Suspended (base slot : U64) (ws : List U64) (m : Memory64) : Prop where
  slot_eq : readU64 m slot = base
  words : readWords m (above base 160) 16 = ws

/-- The memory of a task that is not running: its frame up to the return address, and its slot. -/
def TaskArea (base slot : U64) (x : U64) : Prop := Within base 288 x ∨ Within slot 8 x

lemma Suspended.congr {base slot : U64} {ws : List U64} {m m' : Memory64}
    (h : Suspended base slot ws m) (heq : ∀ x, TaskArea base slot x → m' x = m x) :
    Suspended base slot ws m' where
  slot_eq := (readU64_congr fun x hx => heq x (.inr hx)).trans h.slot_eq
  words := (readWords_congr (by decide) fun x hx =>
    heq x (.inl (hx.of_above (by decide) (by decide)))).trans h.words

/-- **Switching away**: what the task leaves in its frame are its vector registers. -/
lemma suspended_contextSwitch {s : Cpu}
    (hslot : ∀ x, Within (imageBase s) 288 x → ¬ Within (s.regs .rdi) 8 x) :
    Suspended (imageBase s) (s.regs .rdi) (vectorWords s.fpu 16) (s.execAll contextSwitch).mem := by
  have hsave := save_spec s savedRegs rsp_notMem_savedRegs (by decide)
  have hwords := hsave.words 16 (by decide)
  rw [saved_rsp] at hwords
  rw [contextSwitch_mem]
  refine ⟨readU64_writeU64 _ _ _, ?_⟩
  rw [← hwords]
  refine readWords_congr (by decide) fun x hx => ?_
  exact writeRange_other (hslot x (hx.of_above (by decide) (by decide)))

/-! ### What happens in between -/

/-- What the CPU does while a task is not running: code of other tasks, and switches among them. -/
inductive Activity where
  | code (f : Cpu → Cpu)
  | contextSwitch

/-- One activity. -/
def activityStep (s : Cpu) : Activity → Option Cpu
  | .code f => some (f s)
  | .contextSwitch => some (s.execAll contextSwitch)

/-- The memory of a task is left alone: the code does not change it, and the frame and the slot of a
task that switches are somewhere else. -/
def LeavesAlone (area : U64 → Prop) (s : Cpu) : Activity → Prop
  | .code f => ∀ x, area x → (f s).mem x = s.mem x
  | .contextSwitch =>
    ∀ x, area x → ¬ Within (imageBase s) fxBytes x ∧ ¬ Within (s.regs .rdi) 8 x

lemma Suspended.step {base slot : U64} {ws : List U64} {s s' : Cpu} {activity : Activity}
    (h : Suspended base slot ws s.mem) (hok : LeavesAlone (TaskArea base slot) s activity)
    (hstep : activityStep s activity = some s') : Suspended base slot ws s'.mem := by
  cases activity with
  | code f =>
    rw [← Option.some.inj hstep]
    exact h.congr hok
  | contextSwitch =>
    rw [← Option.some.inj hstep, contextSwitch_mem]
    exact h.congr fun x hx => switchMemory_other (hok x hx).1 (hok x hx).2

/-- `s₀` is a task that calls `context_switch`, and `s₂` another one that calls it later, to resume
the first.  In between other tasks run and switch, any number of times.  The stacks are disjoint,
and so are the slots. -/
structure Resumed (s₀ s₂ : Cpu) : Prop where
  own_slot : ∀ x, Within (imageBase s₀) 288 x → ¬ Within (s₀.regs .rdi) 8 x
  others : ∃ activities, run activityStep (s₀.execAll contextSwitch) activities = some s₂ ∧
    Meets (LeavesAlone (TaskArea (imageBase s₀) (s₀.regs .rdi))) activityStep
      (s₀.execAll contextSwitch) activities
  apart : LeavesAlone (TaskArea (imageBase s₀) (s₀.regs .rdi)) s₂ .contextSwitch
  slot_eq : s₂.regs .rsi = s₀.regs .rdi

/-- **Being resumed**: the task gets its vector registers as general registers. -/
lemma Resumed.words {s₀ s₂ : Cpu} (h : Resumed s₀ s₂) :
    savedRegs.reverse.map (s₂.execAll contextSwitch).regs ++ [(s₂.execAll contextSwitch).rip]
      = vectorWords s₀.fpu 16 := by
  obtain ⟨activities, hrun, hmeets⟩ := h.others
  have hbefore : Suspended (imageBase s₀) (s₀.regs .rdi) (vectorWords s₀.fpu 16) s₂.mem := by
    refine run_invariant_of_meets
      (P := fun s => Suspended (imageBase s₀) (s₀.regs .rdi) (vectorWords s₀.fpu 16) s.mem)
      ?_ (suspended_contextSwitch h.own_slot) hmeets hrun
    exact fun s activity s' hs hok hstep => hs.step hok hstep
  have hnow := hbefore.congr fun x hx => switchMemory_other (h.apart x hx).1 (h.apart x hx).2
  rw [contextSwitch_words, h.slot_eq, hnow.slot_eq, hnow.words]

/-! ## Which registers survive -/

/-- The vector registers, from the lower half of XMM0 on, hold the words `ws`. -/
def VectorsHold (fpu : ℕ → U8) (ws : List U64) : Prop := vectorWords fpu ws.length = ws

/-- Registers, and what comes after them, agree when the lists do. -/
lemma regs_and_iff {rs : List Reg} {f g : Reg → U64} {vs ws : List U64} :
    (∀ r ∈ rs, f r = g r) ∧ vs = ws ↔ rs.reverse.map f ++ vs = rs.reverse.map g ++ ws := by
  constructor
  · rintro ⟨hregs, rfl⟩
    rw [List.map_congr_left fun r hr => hregs r (List.mem_reverse.mp hr)]
  · intro h
    obtain ⟨hregs, hrest⟩ := List.append_inj h (by simp)
    exact ⟨fun r hr => List.map_inj_left.mp hregs r (List.mem_reverse.mpr hr), hrest⟩

/-- **When registers survive.**  A task that calls `context_switch` and is resumed later has its
fifteen registers and its return address back, and code that is interrupted has its fifteen
registers back and goes on where it was, exactly when the vector registers held the same words at
the time of the save. -/
theorem registers_preserved_iff (s₀ : Cpu) :
    (∀ s₂ : Cpu, Resumed s₀ s₂ →
      ((∀ r ∈ savedRegs, (s₂.execAll contextSwitch).regs r = s₀.regs r) ∧
          (s₂.execAll contextSwitch).rip = readU64 s₀.mem (s₀.regs .rsp) ↔
        VectorsHold s₀.fpu
          (savedRegs.reverse.map s₀.regs ++ [readU64 s₀.mem (s₀.regs .rsp)]))) ∧
    (∀ handler : InterruptHandler,
      ((∀ r ∈ savedRegs, (interruptCommonStub handler s₀).regs r = s₀.regs r) ∧
          (interruptCommonStub handler s₀).resumesAt = interruptFrame s₀ ↔
        VectorsHold s₀.fpu (savedRegs.reverse.map s₀.regs ++ interruptFrame s₀))) := by
  constructor
  · intro s₂ h
    have hlen : (savedRegs.reverse.map s₀.regs
        ++ [readU64 s₀.mem (s₀.regs .rsp)]).length = 16 := rfl
    rw [VectorsHold, hlen, ← h.words, ← regs_and_iff, List.singleton_inj]
  · intro handler
    have hlen : (savedRegs.reverse.map s₀.regs ++ interruptFrame s₀).length = 20 := rfl
    rw [VectorsHold, hlen, ← interruptCommonStub_words handler s₀, ← regs_and_iff]

/-! ### Two tasks -/

/-- A task that calls `context_switch`: its stack ends at `0x10008`, and its slot is at `0x100`.
FXSAVE writes to a multiple of 16 then. -/
def callingTask (fpu : ℕ → U8) : Cpu where
  regs
    | .rsp => 0x10008#64
    | .rdi => 0x100#64
    | .rsi => 0x200#64
    | _ => 0#64
  rip := 0#64
  cs := 0#64
  rflags := 0#64
  ss := 0#64
  fpu := fpu
  mem _ := 0#8

/-- Another task, with its stack at `0x20008` and its slot at `0x200`, is about to switch back. -/
def switchingBack (s : Cpu) : Cpu :=
  { s with
    regs := fun
      | .rsp => 0x20008#64
      | .rdi => 0x200#64
      | .rsi => 0x100#64
      | _ => 0#64 }

lemma callingTask_resumed (fpu : ℕ → U8) :
    Resumed (callingTask fpu) (switchingBack ((callingTask fpu).execAll contextSwitch)) where
  own_slot x := by
    simp only [Within, imageBase, callingTask]
    bv_omega
  others := ⟨[.code switchingBack], rfl, fun _ _ => rfl, fun _ _ => trivial⟩
  apart x := by
    simp only [TaskArea, Within, imageBase, callingTask, switchingBack, fxBytes]
    bv_omega
  slot_eq := rfl

/-- An image whose vector registers hold copies of `rdi` and `rsi` of the calling task, and zeros.
-/
def copiedVectors (i : ℕ) : U8 := if i = 233 then 1#8 else if i = 241 then 2#8 else 0#8

/-- Vector registers that hold a copy of what they overwrite. -/
theorem callingTask_kept :
    VectorsHold copiedVectors
        (savedRegs.reverse.map (callingTask copiedVectors).regs
          ++ [readU64 (callingTask copiedVectors).mem ((callingTask copiedVectors).regs .rsp)]) ∧
      ∀ r ∈ savedRegs,
        ((switchingBack ((callingTask copiedVectors).execAll contextSwitch)).execAll
          contextSwitch).regs r = (callingTask copiedVectors).regs r := by
  have hhold : VectorsHold copiedVectors
      (savedRegs.reverse.map (callingTask copiedVectors).regs
        ++ [readU64 (callingTask copiedVectors).mem ((callingTask copiedVectors).regs .rsp)]) := by
    rw [VectorsHold]
    decide
  exact ⟨hhold, (((registers_preserved_iff _).1 _ (callingTask_resumed _)).mpr hhold).1⟩

lemma getElem?_rdi (f : Reg → U64) (ws : List U64) :
    (savedRegs.reverse.map f ++ ws)[9]? = some (f .rdi) := rfl

/-- With zeros in the vector registers: `rdi` is zero when the task is resumed, and when an
interrupt returns. -/
theorem callingTask_lost :
    (Resumed (callingTask fun _ => 0#8)
        (switchingBack ((callingTask fun _ => 0#8).execAll contextSwitch)) ∧
      (callingTask fun _ => 0#8).regs .rdi = 0x100#64 ∧
      ((switchingBack ((callingTask fun _ => 0#8).execAll contextSwitch)).execAll
        contextSwitch).regs .rdi = 0#64) ∧
    (interruptCommonStub (.returning 320 0#64) (callingTask fun _ => 0#8)).regs .rdi = 0#64 := by
  have hresumed := callingTask_resumed fun _ => 0#8
  refine ⟨⟨hresumed, rfl, ?_⟩, ?_⟩
  · have hword := congrArg (fun ws : List U64 => ws[9]?) hresumed.words
    simp only [getElem?_rdi] at hword
    exact Option.some.inj hword
  · have hword := congrArg (fun ws : List U64 => ws[9]?)
      (interruptCommonStub_words (.returning 320 0#64) (callingTask fun _ => 0#8))
    simp only [getElem?_rdi] at hword
    exact Option.some.inj hword

/-! ## System calls -/

/-- The registers that `handle_syscall` saves, in the order of the pops. -/
def handlerRegs : List Reg := [.r15, .r14, .r13, .r12, .rbx, .rbp]

/-- The instructions of `handle_syscall` that move its arguments. -/
def argumentMoves : List Instr :=
  [.mov .rdi .r15, .mov .rsi .r14, .mov .rdx .r13, .mov .rcx .r12, .mov .r8 .rbx, .mov .r9 .rbp]

lemma argumentMoves_spec (s : Cpu) :
    (s.execAll argumentMoves).mem = s.mem ∧ (s.execAll argumentMoves).regs .rsp = s.regs .rsp ∧
      (s.execAll argumentMoves).regs .r15 = s.regs .rdi := ⟨rfl, rfl, rfl⟩

/-- `handle_syscall` pushes `rbp` and changes it; only then come the other pushes. -/
lemma handleSyscallEntry_first (s : Cpu) {ws : List U64} (h : Words s.mem (s.regs .rsp) ws)
    (hlen : 8 * ws.length + 8 ≤ 2 ^ 64) :
    ∃ e : Cpu, s.execAll handleSyscallEntry
        = (e.execAll ([.rbx, .r12, .r13, .r14, .r15].map .push)).execAll argumentMoves ∧
      e.regs .rsp = s.regs .rsp - BitVec.ofNat 64 8 ∧
      (∀ r ≠ Reg.rsp, r ≠ Reg.rbp → e.regs r = s.regs r) ∧
      Words e.mem (e.regs .rsp) (s.regs .rbp :: ws) := by
  have hrsp : ((s.pushWord (s.regs .rbp)).exec (.mov .rsp .rbp)).regs .rsp
      = (s.pushWord (s.regs .rbp)).regs .rsp := Cpu.setReg_other _ _ (by decide)
  refine ⟨(s.pushWord (s.regs .rbp)).exec (.mov .rsp .rbp), rfl, ?_, fun r hr hrbp => ?_, ?_⟩
  · rw [hrsp, s.pushWord_rsp]
  · exact (Cpu.setReg_other _ _ hrbp).trans (s.pushWord_regs _ hr)
  · rw [hrsp]
    exact Cpu.words_pushWord h (s.regs .rbp) hlen

/-- `handle_syscall` up to its call: the callee-saved registers are on the stack, and `r15` has the
pointer that it was given. -/
lemma handleSyscallEntry_spec (s : Cpu) {ws : List U64} (h : Words s.mem (s.regs .rsp) ws)
    (hlen : 8 * ws.length + 48 ≤ 2 ^ 64) :
    above ((s.execAll handleSyscallEntry).regs .rsp) 48 = s.regs .rsp ∧
      (s.execAll handleSyscallEntry).regs .r15 = s.regs .rdi ∧
      Words (s.execAll handleSyscallEntry).mem ((s.execAll handleSyscallEntry).regs .rsp)
        (handlerRegs.map s.regs ++ ws) := by
  obtain ⟨e, hcode, hlow, hregs, hfirst⟩ := handleSyscallEntry_first s h (by omega)
  rw [hcode]
  have hpush := e.pushAll_spec [.rbx, .r12, .r13, .r14, .r15] (by decide) (by decide)
  have hwords := hpush.words_above hfirst (by simp only [List.length_cons, List.length_nil]; omega)
  generalize e.execAll ([.rbx, .r12, .r13, .r14, .r15].map .push) = p at hpush hwords
  obtain ⟨hm, hr, h15⟩ := argumentMoves_spec p
  rw [hm, hr, h15]
  refine ⟨?_, ?_, ?_⟩
  · have htop : above (p.regs .rsp) 40 = s.regs .rsp - BitVec.ofNat 64 8 := hpush.rsp.trans hlow
    rw [show 48 = 40 + 8 from rfl, ← above_above, htop, above_sub]
  · rw [hpush.regs .rdi (by decide), hregs .rdi (by decide) (by decide)]
  · have hlist : [Reg.rbx, .r12, .r13, .r14, .r15].reverse.map e.regs
        = [Reg.r15, .r14, .r13, .r12, .rbx].map s.regs :=
      List.map_congr_left fun r hr => hregs r (by rintro rfl; exact absurd hr (by decide))
        (by rintro rfl; exact absurd hr (by decide))
    rw [hlist] at hwords
    exact hwords

/-- `handle_syscall` after its call: the result is stored where `r15` points to, and the saved
registers and the return address are taken from the stack. -/
lemma handleSyscallExit_spec (s : Cpu) :
    (s.execAll handleSyscallExit).mem = writeU64 s.mem (s.regs .r15) (s.regs .rax) ∧
      handlerRegs.map (s.execAll handleSyscallExit).regs
          ++ [(s.execAll handleSyscallExit).rip]
        = readWords (writeU64 s.mem (s.regs .r15) (s.regs .rax)) (s.regs .rsp) 7 ∧
      (s.execAll handleSyscallExit).regs .rsp = above (s.regs .rsp) 56 := by
  have hcode : s.execAll handleSyscallExit
      = ((s.exec (.store .rax .r15)).execAll (handlerRegs.map .pop)).exec .ret := rfl
  have hmem := s.store_mem .rax .r15
  have hregs := s.store_regs .rax .r15
  rw [hcode, ← hmem, ← congrFun hregs .rsp]
  generalize s.exec (.store .rax .r15) = e
  have hpop := e.popAll_spec handlerRegs (by decide) (by decide)
    (length_readWords e.mem (e.regs .rsp) 6) (words_readWords _ _ _)
  generalize e.execAll (handlerRegs.map .pop) = p at hpop
  refine ⟨by rw [Cpu.ret_mem, hpop.mem], ?_, ?_⟩
  · rw [Cpu.ret_rip, Cpu.map_regs_congr p.ret_regs (by decide), hpop.popped, hpop.mem, hpop.rsp]
    exact (readWords_add e.mem (e.regs .rsp) 6 1).symm
  · rw [Cpu.ret_rsp, hpop.rsp, above_above]
    rfl

/-- The frame of the handler, as words: the area of 160 bytes, and the vector registers where nine
registers were pushed. -/
lemma Saved.frame {s a : Cpu} (h : Saved s a syscallRegs) :
    Words a.mem (a.regs .rsp) (readWords a.mem (a.regs .rsp) 20 ++ vectorWords s.fpu 9) := by
  rw [← h.words 9 (by decide), ← readWords_add a.mem (a.regs .rsp) 20 9]
  exact words_readWords a.mem (a.regs .rsp) (20 + 9)

/-- The call of `handle_syscall`: the pointer in `rdi` is that of the frame, and the return address
lies in front of it. -/
structure CallsHandler (ret : U64) (s a c : Cpu) : Prop where
  saved : Saved s a syscallRegs
  code : atDispatch ret s = c.execAll handleSyscallEntry
  rsp : above (c.regs .rsp) 8 = a.regs .rsp
  rdi : c.regs .rdi = a.regs .rsp
  regs : handlerRegs.map c.regs = handlerRegs.map s.regs
  words : Words c.mem (c.regs .rsp)
    (ret :: (readWords a.mem (a.regs .rsp) 20 ++ vectorWords s.fpu 9))

lemma callsHandler (ret : U64) (s : Cpu) : ∃ a c, CallsHandler ret s a c := by
  have hsave : Saved s _ syscallRegs := save_spec s syscallRegs (by decide) (by decide)
  have hcode : atDispatch ret s = (((s.execAll (saveCode syscallRegs)).exec
      (.mov .rsp .rdi)).pushWord ret).execAll handleSyscallEntry := by
    simp only [atDispatch, Cpu.execAll_append, Cpu.execAll_cons, Cpu.execAll_nil]
    rfl
  generalize s.execAll (saveCode syscallRegs) = a at hsave hcode
  have hrsp : (a.exec (.mov .rsp .rdi)).regs .rsp = a.regs .rsp :=
    Cpu.setReg_other a _ (by decide)
  refine ⟨a, _, hsave, hcode, ?_, ?_, List.map_congr_left fun r hr => ?_, ?_⟩
  · rw [Cpu.pushWord_rsp, hrsp]
    exact above_sub _ 8
  · rw [Cpu.pushWord_regs _ _ (by decide)]
    exact Cpu.setReg_self a .rdi _
  · have hne : r ≠ .rsp ∧ r ≠ .rdi := by
      constructor <;> rintro rfl <;> exact absurd hr (by decide)
    rw [Cpu.pushWord_regs _ _ hne.1, ← hsave.regs r hne.1]
    exact Cpu.setReg_other a _ hne.2
  · refine Cpu.words_pushWord ?_ ret ?_
    · rw [hrsp]
      exact hsave.frame
    · rw [List.length_append, length_readWords, length_vectorWords]
      decide

/-- **The stack at the call of `syscall_dispatch`**: the saved registers, the return address, and
above them the frame of the handler, which begins where `r15` points to. -/
lemma atDispatch_spec (ret : U64) (s : Cpu) :
    above ((atDispatch ret s).regs .rsp) 56 = (atDispatch ret s).regs .r15 ∧
      above ((atDispatch ret s).regs .r15) 232 = s.regs .rsp ∧
      readWords (atDispatch ret s).mem ((atDispatch ret s).regs .rsp) 7
        = handlerRegs.map s.regs ++ [ret] ∧
      readWords (atDispatch ret s).mem (above ((atDispatch ret s).regs .r15) 160) 9
        = vectorWords s.fpu 9 := by
  obtain ⟨a, c, h⟩ := callsHandler ret s
  have hentry := handleSyscallEntry_spec c h.words (by
    rw [List.length_cons, List.length_append, length_readWords, length_vectorWords]
    decide)
  rw [← h.code, h.regs, List.append_cons, words_append, h.rdi] at hentry
  obtain ⟨htop, h15, hstack, hframe⟩ := hentry
  have hbase : above ((atDispatch ret s).regs .rsp) 56 = a.regs .rsp := by
    rw [show 56 = 48 + 8 from rfl, ← above_above, htop, h.rsp]
  have hlen : 8 * (handlerRegs.map s.regs ++ [ret]).length = 56 := rfl
  rw [hlen, hbase, words_append, length_readWords] at hframe
  have hvectors := words_iff.mp hframe.2
  rw [length_vectorWords] at hvectors
  rw [h15]
  exact ⟨hbase, h.saved.rsp, words_iff.mp hstack, hvectors⟩

/-- The store of the result misses all the words that are popped later: it goes to the first word of
the area of 160 bytes. -/
lemma storedResult_words (dispatch : SyscallDispatch) (t : Cpu) (w : U64)
    (hbase : above (t.regs .rsp) 56 = t.regs .r15) :
    readWords (writeU64 (dispatch.run t).mem (t.regs .r15) w) (t.regs .rsp) 7
        = readWords t.mem (t.regs .rsp) 7 ∧
      readWords (writeU64 (dispatch.run t).mem (t.regs .r15) w) (above (t.regs .r15) 160) 9
        = readWords t.mem (above (t.regs .r15) 160) 9 := by
  rw [← hbase]
  constructor
  · refine readWords_congr (by decide) fun x hx => ?_
    have hin : Within (above (t.regs .rsp) 0) 56 x := by rwa [above_zero]
    rw [writeU64, writeRange_other (hin.not_after (by decide) (by decide))]
    exact dispatch.frame t x (hin.of_above (by decide) (by decide))
  · refine readWords_congr (by decide) fun x hx => ?_
    rw [above_above] at hx
    rw [writeU64, writeRange_other (hx.not_before (by decide) (by decide))]
    exact dispatch.frame t x (hx.of_above (by decide) (by decide))

/-- **What a system call returns with**: the vector registers in the nine pushed registers, and the
callee-saved registers as they were. -/
lemma syscallHandler_words (dispatch : SyscallDispatch) (ret : U64) (s : Cpu) :
    ∃ t, syscallHandler dispatch ret s = some t ∧
      syscallRegs.reverse.map t.regs = vectorWords s.fpu 9 ∧
      ∀ r ∈ calleeSaved, t.regs r = s.regs r := by
  obtain ⟨hbase, htop, hstack, hframe⟩ := atDispatch_spec ret s
  have hsaved := dispatch.saved (atDispatch ret s)
  obtain ⟨hmem, hpopped, hrsp⟩ := handleSyscallExit_spec (dispatch.run (atDispatch ret s))
  rw [hsaved .r15 (by decide)] at hmem hpopped
  rw [hsaved .rsp (by decide)] at hpopped hrsp
  obtain ⟨hlow, hhigh⟩ := storedResult_words dispatch (atDispatch ret s)
    ((dispatch.run (atDispatch ret s)).regs .rax) hbase
  rw [hlow, hstack] at hpopped
  rw [hbase] at hrsp
  rw [← List.reverse_reverse handlerRegs] at hpopped
  obtain ⟨hregs, hrip⟩ := regs_and_iff.mpr hpopped
  rw [syscallHandler]
  generalize (dispatch.run (atDispatch ret s)).execAll handleSyscallExit = v at hmem hrsp hregs hrip
  have hrestore := restore_spec v syscallRegs (by decide) (by decide)
  refine ⟨_, if_pos (List.singleton_inj.mp hrip), ?_, fun r hr => ?_⟩
  · rw [hrestore.words, hmem, hrsp, ← hframe, ← hhigh]
    rfl
  · by_cases h : r = .rsp
    · rw [h, hrestore.rsp, hrsp, ← htop]
      rfl
    · have hkept : r ∈ handlerRegs ∧ r ∉ syscallRegs := by
        revert h hr
        cases r <;> decide
      rw [hrestore.regs r hkept.2 h, hregs r (List.mem_reverse.mpr hkept.1)]

/-- **When a system call returns its result.**  `syscall_handler` reaches its `sysretq`, whatever
`syscall_dispatch` does within the calling convention.  There `rax` is what `syscall_dispatch`
returned, and all other registers are as they were on entry, exactly when the vector registers held
on entry the eight caller-saved registers and the result. -/
theorem syscall_result_iff (dispatch : SyscallDispatch) (ret : U64) (s : Cpu) :
    ∃ t, syscallHandler dispatch ret s = some t ∧
      (t.regs .rax = dispatched dispatch ret s ∧
          (∀ r ∈ [Reg.rcx, .rdx, .rsi, .rdi, .r8, .r9, .r10, .r11], t.regs r = s.regs r) ∧
          (∀ r ∈ calleeSaved, t.regs r = s.regs r) ↔
        VectorsHold s.fpu
          ([Reg.r11, .r10, .r9, .r8, .rdi, .rsi, .rdx, .rcx].map s.regs
            ++ [dispatched dispatch ret s])) := by
  obtain ⟨t, hreached, hwords, hsaved⟩ := syscallHandler_words dispatch ret s
  refine ⟨t, hreached, ?_⟩
  have hsplit : syscallRegs.reverse.map t.regs
      = [Reg.rcx, .rdx, .rsi, .rdi, .r8, .r9, .r10, .r11].reverse.map t.regs ++ [t.regs .rax] := rfl
  have hlen : ([Reg.r11, .r10, .r9, .r8, .rdi, .rsi, .rdx, .rcx].map s.regs
      ++ [dispatched dispatch ret s]).length = 9 := rfl
  rw [VectorsHold, hlen, ← hwords, hsplit, and_iff_left hsaved, and_comm, ← List.singleton_inj]
  exact regs_and_iff

/-- A system call whose result is 42, with zeros in the vector registers: `rax` is zero, and so is
`rdi`. -/
theorem callingTask_syscall :
    ∃ t, syscallHandler (.returning 288 42#64) 0#64 (callingTask fun _ => 0#8) = some t ∧
      dispatched (.returning 288 42#64) 0#64 (callingTask fun _ => 0#8) = 42#64 ∧
      t.regs .rax = 0#64 ∧
      (callingTask fun _ => 0#8).regs .rdi = 0x100#64 ∧ t.regs .rdi = 0#64 := by
  obtain ⟨t, hreached, hwords, -⟩ :=
    syscallHandler_words (.returning 288 42#64) 0#64 (callingTask fun _ => 0#8)
  have hrax := congrArg (fun ws : List U64 => ws[8]?) hwords
  have hrdi := congrArg (fun ws : List U64 => ws[4]?) hwords
  exact ⟨t, hreached, Cpu.setReg_self _ .rax _, Option.some.inj hrax, rfl, Option.some.inj hrdi⟩

end Masika
