import Masika.Arch.Machine
import Masika.Core.Progress

/-!
# The routines with loops

`user_copy_safe`, `memset_safe`, `strlen_safe` and `strcmp_safe` of `arch/entry.s`.  Unlike the code
in `EntryCode` they have labels and jumps, so a routine is a list of lines, as in the source, and
the CPU is at one of them until it returns.  Of the flags only ZF is read.

All four keep to the calling convention: they save what they use, and nothing that they write
reaches the saved words or the return address (`Returned`), provided that the memory they work on
is apart from the few words that they push.  Under this condition

* `userCopySafe_correct`: `user_copy_safe` copies, also when the destination lies in front of an
  overlapping source;
* `memsetSafe_correct`: `memset_safe` fills the range with the low byte of its argument;
* `strlenSafe_correct`: `strlen_safe` returns the number of bytes before the first zero;
* `strcmpSafe_correct`: the result of `strcmp_safe` is zero, or negative as a signed number, exactly
  when the strings are equal, or the first one is smaller.
-/

namespace Masika

/-! ## Lines -/

/-- The labels of the routines. -/
inductive Label
  | copyLoop | copyDone
  | memsetLoop | memsetDone
  | strlenLoop | strlenEnd
  | strcmpLoop | strcmpEqual | strcmpDiff | strcmpExit
  deriving DecidableEq, Repr

/-- A line of assembly. -/
inductive Line
  | label (l : Label)
  | instr (i : Instr)
  /-- `movb (%base), %dst`, for the low byte of `dst` -/
  | movbLoad (base dst : Reg)
  /-- `movb %src, (%base)`, for the low byte of `src` -/
  | movbStore (src base : Reg)
  /-- `movzbq %src, %dst`, from the low byte of `src` -/
  | movzbq (src dst : Reg)
  /-- `movzbq (%base), %dst` -/
  | movzbqLoad (base dst : Reg)
  /-- `movq $n, %dst` -/
  | movqImm (n : ℕ) (dst : Reg)
  | incq (r : Reg)
  | decq (r : Reg)
  /-- `subq %src, %dst` -/
  | subq (src dst : Reg)
  /-- `cmp $0, %r` -/
  | cmpZero (r : Reg)
  /-- `cmpb $0, %r`, for the low byte of `r` -/
  | cmpbZero (r : Reg)
  /-- `cmpb $0, (%base)` -/
  | cmpbZeroMem (base : Reg)
  /-- `cmpb %r, (%base)`, for the low byte of `r` -/
  | cmpbMem (r base : Reg)
  | cld
  | je (l : Label)
  /-- `jne` and `jnz`, which are the same instruction -/
  | jne (l : Label)
  | jmp (l : Label)
  | ret

/-- The line is this label. -/
def Line.isLabel (l : Label) : Line → Bool
  | .label l' => l' = l
  | _ => false

/-- The low byte of a word. -/
def lowByte (w : U64) : U8 := w.setWidth 8

/-- A word with another low byte. -/
def setLowByte (w : U64) (b : U8) : U64 := (w &&& ~~~0xFF#64) ||| b.setWidth 64

@[simp] lemma lowByte_setLowByte (w : U64) (b : U8) : lowByte (setLowByte w b) = b := by
  apply BitVec.eq_of_getLsbD_eq
  intro j hj
  rw [lowByte, setLowByte, BitVec.getLsbD_setWidth, BitVec.getLsbD_or, BitVec.getLsbD_and,
    BitVec.getLsbD_not, BitVec.getLsbD_setWidth]
  have hmask : (0xFF#64).getLsbD j = true := by
    revert j
    decide
  have hlt : j < 64 := by omega
  simp [hj, hlt, hmask]

/-- The CPU in a routine: the line it is at, or `none` once it has returned. -/
@[ext] structure Running where
  cpu : Cpu
  zf : Bool
  line : Option ℕ

namespace Running

/-- The next line, with another state of the CPU. -/
def next (s : Running) (k : ℕ) (cpu : Cpu) : Running := ⟨cpu, s.zf, some (k + 1)⟩

/-- The same for an instruction that sets ZF. -/
def nextFlag (k : ℕ) (cpu : Cpu) (zf : Bool) : Running := ⟨cpu, zf, some (k + 1)⟩

/-- Go to a label if `taken`, and else to the next line. -/
def jump (s : Running) (code : List Line) (k : ℕ) (l : Label) (taken : Bool) : Running :=
  { s with line := some (if taken then code.findIdx (Line.isLabel l) else k + 1) }

/-- Line `k` is executed. -/
def exec (code : List Line) (s : Running) (k : ℕ) : Line → Running
  | .label _ => s.next k s.cpu
  | .instr i => s.next k (s.cpu.exec i)
  | .movbLoad base dst =>
    s.next k (s.cpu.setReg dst (setLowByte (s.cpu.regs dst) (s.cpu.mem (s.cpu.regs base))))
  | .movbStore src base =>
    s.next k { s.cpu with
      mem := Function.update s.cpu.mem (s.cpu.regs base) (lowByte (s.cpu.regs src)) }
  | .movzbq src dst => s.next k (s.cpu.setReg dst ((lowByte (s.cpu.regs src)).setWidth 64))
  | .movzbqLoad base dst =>
    s.next k (s.cpu.setReg dst ((s.cpu.mem (s.cpu.regs base)).setWidth 64))
  | .movqImm n dst => s.next k (s.cpu.setReg dst (BitVec.ofNat 64 n))
  | .incq r => nextFlag k (s.cpu.setReg r (s.cpu.regs r + 1#64)) (s.cpu.regs r + 1#64 = 0#64)
  | .decq r => nextFlag k (s.cpu.setReg r (s.cpu.regs r - 1#64)) (s.cpu.regs r - 1#64 = 0#64)
  | .subq src dst =>
    nextFlag k (s.cpu.setReg dst (s.cpu.regs dst - s.cpu.regs src))
      (s.cpu.regs dst - s.cpu.regs src = 0#64)
  | .cmpZero r => nextFlag k s.cpu (s.cpu.regs r = 0#64)
  | .cmpbZero r => nextFlag k s.cpu (lowByte (s.cpu.regs r) = 0#8)
  | .cmpbZeroMem base => nextFlag k s.cpu (s.cpu.mem (s.cpu.regs base) = 0#8)
  | .cmpbMem r base =>
    nextFlag k s.cpu (s.cpu.mem (s.cpu.regs base) = lowByte (s.cpu.regs r))
  | .cld => s.next k { s.cpu with rflags := s.cpu.rflags &&& ~~~0x400#64 }
  | .je l => s.jump code k l s.zf
  | .jne l => s.jump code k l !s.zf
  | .jmp l => s.jump code k l true
  | .ret => ⟨s.cpu.exec .ret, s.zf, none⟩

/-- One line of a routine; a CPU that has returned is no longer in it. -/
def step (code : List Line) (s : Running) : Option Running :=
  s.line.bind fun k => code[k]?.map (s.exec code k)

end Running

/-- The CPU at the first line of a routine. -/
def Cpu.enter (s : Cpu) (zf : Bool) : Running := ⟨s, zf, some 0⟩

/-! ## The source -/

/-- `user_copy_safe`. -/
def userCopySafe : List Line :=
  ([.push .rbp, .mov .rsp .rbp, .push .rbx, .push .r12, .push .r13, .push .r14, .push .r15,
    .mov .rdi .r15, .mov .rsi .r14, .mov .rdx .r13] : List Instr).map Line.instr ++
  [.cld, .cmpZero .r13, .je .copyDone,
   .label .copyLoop, .movbLoad .r14 .rbx, .movbStore .rbx .r15, .incq .r15, .incq .r14,
    .decq .r13, .jne .copyLoop,
   .label .copyDone] ++
  ([.pop .r15, .pop .r14, .pop .r13, .pop .r12, .pop .rbx,
    .pop .rbp] : List Instr).map Line.instr ++
  [.ret]

/-- `memset_safe`. -/
def memsetSafe : List Line :=
  ([.push .rbp, .mov .rsp .rbp, .push .rbx, .push .r12, .push .r13,
    .mov .rdi .r12, .mov .rsi .rbx, .mov .rdx .r13] : List Instr).map Line.instr ++
  [.cmpZero .r13, .je .memsetDone,
   .label .memsetLoop, .movbStore .rbx .r12, .incq .r12, .decq .r13, .jne .memsetLoop,
   .label .memsetDone] ++
  ([.pop .r13, .pop .r12, .pop .rbx, .pop .rbp] : List Instr).map Line.instr ++
  [.ret]

/-- `strlen_safe`. -/
def strlenSafe : List Line :=
  ([.push .rbp, .mov .rsp .rbp, .mov .rdi .rax] : List Instr).map Line.instr ++
  [.label .strlenLoop, .cmpbZeroMem .rax, .je .strlenEnd, .incq .rax, .jmp .strlenLoop,
   .label .strlenEnd, .subq .rdi .rax] ++
  ([.pop .rbp] : List Instr).map Line.instr ++
  [.ret]

/-- `strcmp_safe`. -/
def strcmpSafe : List Line :=
  ([.push .rbp, .mov .rsp .rbp, .push .rbx, .push .r12, .push .r13,
    .mov .rdi .r12, .mov .rsi .r13] : List Instr).map Line.instr ++
  [.label .strcmpLoop, .movbLoad .r12 .rbx, .cmpbMem .rbx .r13, .jne .strcmpDiff,
    .cmpbZero .rbx, .je .strcmpEqual, .incq .r12, .incq .r13, .jmp .strcmpLoop,
   .label .strcmpEqual, .movqImm 0 .rax, .jmp .strcmpExit,
   .label .strcmpDiff, .movzbq .rbx .rax, .movzbqLoad .r13 .r12, .subq .r12 .rax,
   .label .strcmpExit] ++
  ([.pop .r13, .pop .r12, .pop .rbx, .pop .rbp] : List Instr).map Line.instr ++
  [.ret]

/-! ## Straight pieces -/

/-- **Instructions without jumps** are executed one after the other. -/
lemma stepsTo_instrs (before : List Line) (is : List Instr) (after : List Line) (c : Cpu)
    (zf : Bool) :
    StepsTo (Running.step (before ++ is.map .instr ++ after)) ⟨c, zf, some before.length⟩
      ⟨c.execAll is, zf, some (before.length + is.length)⟩ := by
  induction is generalizing before c with
  | nil => exact Relation.ReflTransGen.refl
  | cons i is ih =>
    have hline : (before ++ (i :: is).map Line.instr ++ after)[before.length]?
        = some (.instr i) := by simp
    have hcode : before ++ (i :: is).map Line.instr ++ after
        = (before ++ [.instr i]) ++ is.map .instr ++ after := by simp
    have hrest := ih (before ++ [.instr i]) (c.exec i)
    rw [← hcode, List.length_append, List.length_singleton, Nat.add_assoc,
      Nat.add_comm 1] at hrest
    refine StepsTo.cons ?_ hrest
    simp only [Running.step, Option.bind_some, hline, Option.map_some]
    rfl

/-! ## Frames -/

/-- What a routine leaves to its caller. -/
structure Returned (s t : Cpu) : Prop where
  rip : t.rip = readU64 s.mem (s.regs .rsp)
  rsp : t.regs .rsp = above (s.regs .rsp) 8
  saved : ∀ r ∈ calleeSaved, r ≠ .rsp → t.regs r = s.regs r

/-- Where the stack ends once a routine has pushed `n` words. -/
def pushedBase (s : Cpu) (n : ℕ) : U64 := s.regs .rsp - BitVec.ofNat 64 (8 * n)

lemma above_pushedBase (s : Cpu) (n : ℕ) : above (pushedBase s n) (8 * n) = s.regs .rsp :=
  above_sub _ _

/-- The registers that a routine pops after having pushed `rbp` and `rs`. -/
def frameRegs (rs : List Reg) : List Reg := rs.reverse ++ [.rbp]

@[simp] lemma length_frameRegs (rs : List Reg) : (frameRegs rs).length = rs.length + 1 := by
  simp [frameRegs]

@[simp] lemma mem_frameRegs {rs : List Reg} {r : Reg} : r ∈ frameRegs rs ↔ r ∈ rs ∨ r = .rbp := by
  simp [frameRegs]

lemma nodup_frameRegs {rs : List Reg} (h : rs.Nodup) (hrbp : .rbp ∉ rs) : (frameRegs rs).Nodup := by
  rw [frameRegs, List.nodup_append, List.nodup_reverse]
  refine ⟨h, List.nodup_singleton _, fun r hr r' hr' => ?_⟩
  rintro rfl
  rw [List.mem_singleton] at hr'
  exact hrbp (hr' ▸ List.mem_reverse.mp hr)

/-- What a routine finds on the stack when it leaves: the registers it has pushed, and its return
address. -/
def frameWords (s : Cpu) (rs : List Reg) : List U64 :=
  (frameRegs rs).map s.regs ++ [readU64 s.mem (s.regs .rsp)]

@[simp] lemma length_frameWords (s : Cpu) (rs : List Reg) :
    (frameWords s rs).length = rs.length + 2 := by simp [frameWords]

/-- The routine called in state `s` has pushed `rbp` and `rs`, and the words are still there; it has
not touched the other registers that belong to its caller. -/
structure InFrame (s : Cpu) (rs : List Reg) (c : Cpu) : Prop where
  rsp : c.regs .rsp = pushedBase s (rs.length + 1)
  words : Words c.mem (pushedBase s (rs.length + 1)) (frameWords s rs)
  kept : ∀ r ∈ calleeSaved, r ∉ rs → r ≠ .rbp → r ≠ .rsp → c.regs r = s.regs r

/-- The memory that the pushes change. -/
def Pushes (s : Cpu) (rs : List Reg) (x : U64) : Prop :=
  Within (pushedBase s (rs.length + 1)) (8 * (rs.length + 1)) x

/-- The memory that a routine needs in order to return: the pushed words and the return address. -/
def Needs (s : Cpu) (rs : List Reg) (x : U64) : Prop :=
  Within (pushedBase s (rs.length + 1)) (8 * (rs.length + 2)) x

lemma Pushes.needs {s : Cpu} {rs : List Reg} {x : U64} (h : Pushes s rs x) : Needs s rs x :=
  Nat.lt_of_lt_of_le h (by omega)

/-- Registers that do not belong to the caller, or that have been pushed, may change. -/
lemma InFrame.setReg {s c : Cpu} {rs : List Reg} (h : InFrame s rs c) {r : Reg} (w : U64)
    (hrsp : r ≠ .rsp) (hr : r ∉ calleeSaved ∨ r ∈ rs) : InFrame s rs (c.setReg r w) where
  rsp := (c.setReg_other w hrsp.symm).trans h.rsp
  words := h.words
  kept r' hr' hrs hrbp hne := by
    rw [c.setReg_other w, h.kept r' hr' hrs hrbp hne]
    rintro rfl
    rcases hr with hr | hr
    · exact hr hr'
    · exact hrs hr

/-- A byte may be written that is not needed for the return. -/
lemma InFrame.write {s c : Cpu} {rs : List Reg} (h : InFrame s rs c) {a : U64} (b : U8)
    (ha : ¬ Needs s rs a) (hlen : rs.length ≤ 14) :
    InFrame s rs { c with mem := Function.update c.mem a b } where
  rsp := h.rsp
  words := by
    refine h.words.congr (by rw [length_frameWords]; omega) fun x hx => ?_
    rw [length_frameWords] at hx
    refine Function.update_of_ne ?_ ..
    rintro rfl
    exact ha hx
  kept := h.kept

/-- The first instructions of a routine. -/
def entryCode (rs : List Reg) : List Instr := .push .rbp :: .mov .rsp .rbp :: rs.map .push

/-- The routine has entered its frame, and done nothing else. -/
structure Entered (s : Cpu) (rs : List Reg) (p : Cpu) : Prop where
  frame : InFrame s rs p
  regs : ∀ r ≠ .rsp, r ≠ .rbp → p.regs r = s.regs r
  mem : ∀ x, ¬ Pushes s rs x → p.mem x = s.mem x

lemma entered_entryCode (s : Cpu) (rs : List Reg) (hrsp : .rsp ∉ rs) (hrbp : .rbp ∉ rs)
    (hlen : rs.length ≤ 14) : Entered s rs (s.execAll (entryCode rs)) := by
  set e := (s.exec (.push .rbp)).exec (.mov .rsp .rbp) with he
  have hcode : s.execAll (entryCode rs) = e.execAll (rs.map .push) := rfl
  have hersp : e.regs .rsp = s.regs .rsp - 8#64 := by
    exact (Cpu.setReg_other _ _ (by decide)).trans (s.pushWord_rsp _)
  have heregs : ∀ r ≠ Reg.rsp, r ≠ Reg.rbp → e.regs r = s.regs r := fun r hr hr' =>
    (Cpu.setReg_other _ _ hr').trans (s.pushWord_regs _ hr)
  have hemem : e.mem = writeU64 s.mem (s.regs .rsp - 8#64) (s.regs .rbp) := rfl
  have hpush := e.pushAll_spec rs hrsp (by omega)
  set p := e.execAll (rs.map .push)
  have hbase : p.regs .rsp = pushedBase s (rs.length + 1) := by
    rw [pushedBase, eq_sub_of_above hpush.rsp, hersp]
    bv_omega
  have hsplit : above (pushedBase s (rs.length + 1)) (8 * rs.length) = e.regs .rsp := by
    rw [← hbase, hpush.rsp]
  have hewords : Words e.mem (e.regs .rsp) [s.regs .rbp, readU64 s.mem (s.regs .rsp)] := by
    rw [hemem, hersp]
    refine Words.push (words_cons.mpr ⟨?_, words_nil _ _⟩) _ (by simp)
    exact congrArg (readU64 s.mem) (above_sub _ 8)
  have hregs : ∀ r ≠ Reg.rsp, r ≠ Reg.rbp → p.regs r = s.regs r := fun r hr hr' =>
    (hpush.regs r hr).trans (heregs r hr hr')
  rw [hcode]
  refine ⟨⟨hbase, ?_, fun r _ _ hr' hr => hregs r hr hr'⟩, hregs, fun x hx => ?_⟩
  · have hwords := hpush.words_above hewords
      (by simp only [List.length_cons, List.length_nil]; omega)
    rw [hbase] at hwords
    have hsame : rs.reverse.map e.regs = rs.reverse.map s.regs := by
      refine List.map_congr_left fun r hr => heregs r ?_ ?_ <;> rintro rfl
      · exact hrsp (List.mem_reverse.mp hr)
      · exact hrbp (List.mem_reverse.mp hr)
    rw [hsame] at hwords
    rw [frameWords, frameRegs, List.map_append, List.append_assoc]
    exact hwords
  · rw [hpush.other x ?_, hemem]
    · refine writeRange_other fun hw => hx ?_
      rw [← hersp, ← hsplit] at hw
      exact hw.of_above (by omega) (by omega)
    · rw [hbase]
      exact fun hw => hx (Nat.lt_of_lt_of_le hw (by omega))

/-- **Entering.** -/
lemma stepsTo_entered (s : Cpu) (zf : Bool) (rs : List Reg) (rest : List Line)
    (hrsp : .rsp ∉ rs) (hrbp : .rbp ∉ rs) (hlen : rs.length ≤ 14) :
    ∃ p, StepsTo (Running.step ((entryCode rs).map .instr ++ rest)) (s.enter zf)
        ⟨p, zf, some (rs.length + 2)⟩ ∧ Entered s rs p := by
  have hsteps := stepsTo_instrs [] (entryCode rs) rest s zf
  have hlines : ([] : List Line).length + (entryCode rs).length = rs.length + 2 := by
    simp [entryCode]
  rw [hlines] at hsteps
  exact ⟨_, hsteps, entered_entryCode s rs hrsp hrbp hlen⟩

/-- The last lines of a routine. -/
def exitCode (rs : List Reg) : List Line :=
  ((frameRegs rs).map .pop : List Instr).map .instr ++ [.ret]

/-- The routine called in state `s` has returned from `c`, and done nothing else since. -/
structure Left (s : Cpu) (rs : List Reg) (c t : Cpu) : Prop where
  returned : Returned s t
  mem : t.mem = c.mem
  regs : ∀ r ∉ rs, r ≠ .rbp → r ≠ .rsp → t.regs r = c.regs r

lemma InFrame.left_exitCode {s c : Cpu} {rs : List Reg} (h : InFrame s rs c) (hrsp : .rsp ∉ rs)
    (hrbp : .rbp ∉ rs) (hnodup : rs.Nodup) :
    Left s rs c ((c.execAll ((frameRegs rs).map .pop)).exec .ret) := by
  have hwords := h.words
  rw [frameWords, words_append, List.length_map, length_frameRegs, above_pushedBase] at hwords
  obtain ⟨hregs, hret⟩ := hwords
  rw [← h.rsp] at hregs
  have hpop := c.popAll_spec (frameRegs rs) (by simp [hrsp]) (nodup_frameRegs hnodup hrbp)
    (List.length_map _) hregs
  set p := c.execAll ((frameRegs rs).map .pop)
  have hprsp : p.regs .rsp = s.regs .rsp := by
    rw [hpop.rsp, h.rsp, length_frameRegs, above_pushedBase]
  have hother : ∀ r ∉ rs, r ≠ Reg.rbp → r ≠ Reg.rsp → (p.exec .ret).regs r = c.regs r := by
    intro r hr hr' hne
    rw [p.ret_regs r hne, hpop.regs r (by simp [hr, hr']) hne]
  refine ⟨⟨?_, ?_, fun r hr hne => ?_⟩, by rw [p.ret_mem, hpop.mem], hother⟩
  · have hrip : (p.exec .ret).rip = readU64 p.mem (p.regs .rsp) := rfl
    rw [hrip, hpop.mem, hprsp]
    exact (words_cons.mp hret).1
  · rw [p.ret_rsp, hprsp]
  · by_cases hin : r ∈ rs ∨ r = .rbp
    · rw [p.ret_regs r hne]
      exact List.map_inj_left.mp hpop.popped r (mem_frameRegs.mpr hin)
    · rw [not_or] at hin
      rw [hother r hin.1 hin.2 hne, h.kept r hr hin.1 hin.2 hne]

/-- **Leaving.**  The registers come back, and the CPU goes on at the return address. -/
lemma InFrame.leave {s c : Cpu} {rs : List Reg} (h : InFrame s rs c) (before : List Line)
    (zf : Bool) (hrsp : .rsp ∉ rs) (hrbp : .rbp ∉ rs) (hnodup : rs.Nodup) :
    ∃ t, StepsTo (Running.step (before ++ exitCode rs)) ⟨c, zf, some before.length⟩
        ⟨t, zf, none⟩ ∧ Left s rs c t := by
  have hsteps := stepsTo_instrs before ((frameRegs rs).map .pop) [.ret] c zf
  rw [List.append_assoc] at hsteps
  refine ⟨_, hsteps.trans (StepsTo.cons ?_ .refl), h.left_exitCode hrsp hrbp hnodup⟩
  simp [Running.step, Running.exec]

/-! ## Loops that fill a range -/

/-- A counter that is decremented to zero. -/
lemma ofNat_sub_one {n i : ℕ} (hn : n < 2 ^ 64) (hi : i < n) :
    BitVec.ofNat 64 (n - i) - 1#64 = BitVec.ofNat 64 (n - (i + 1)) ∧
      (BitVec.ofNat 64 (n - i) - 1#64 = 0#64 ↔ ¬ i + 1 < n) := by
  simp only [← BitVec.toNat_inj, BitVec.toNat_sub, BitVec.toNat_ofNat]
  omega

lemma above_succ (a : U64) (i : ℕ) : above a i + 1#64 = above a (i + 1) := above_above a i 1

/-- Before round `i` of a loop that fills `rdx` bytes from `rdi` on with those of `f`, or behind the
loop when all rounds are done.  The next byte goes to where `dst` points, and `r13` counts down. -/
structure FillState (s : Cpu) (rs : List Reg) (head done : ℕ) (dst : Reg) (f : ℕ → U8) (i : ℕ)
    (e : Running) : Prop where
  line : e.line = some (if i < (s.regs .rdx).toNat then head else done)
  target : e.cpu.regs dst = above (s.regs .rdi) i
  left : e.cpu.regs .r13 = BitVec.ofNat 64 ((s.regs .rdx).toNat - i)
  frame : InFrame s rs e.cpu
  filled : FilledUpTo s.mem e.cpu.mem (s.regs .rdi) f (Pushes s rs) i

/-- What one round has to do. -/
structure FillRound (rs : List Reg) (head done : ℕ) (dst : Reg) (b : U8) (c : Cpu)
    (e : Running) : Prop where
  line : e.line = some (if c.regs .r13 - 1#64 = 0#64 then done else head)
  target : e.cpu.regs dst = c.regs dst + 1#64
  left : e.cpu.regs .r13 = c.regs .r13 - 1#64
  mem : e.cpu.mem = Function.update c.mem (c.regs dst) b
  rsp : e.cpu.regs .rsp = c.regs .rsp
  kept : ∀ r ∈ calleeSaved, r ∉ rs → e.cpu.regs r = c.regs r

/-- **A round of such a loop** writes the next byte, which is none of those that are needed for the
return. -/
lemma FillState.next {s : Cpu} {rs : List Reg} {head done : ℕ} {dst : Reg} {f : ℕ → U8}
    {i : ℕ} {e e' : Running} (h : FillState s rs head done dst f i e) (hi : i < (s.regs .rdx).toNat)
    (hapart : ∀ x, Within (s.regs .rdi) (s.regs .rdx).toNat x → ¬ Needs s rs x)
    (hlen : rs.length ≤ 14) (hround : FillRound rs head done dst (f i) e.cpu e') :
    FillState s rs head done dst f (i + 1) e' := by
  have hn : (s.regs .rdx).toNat < 2 ^ 64 := (s.regs .rdx).isLt
  obtain ⟨hleft, hzero⟩ := ofNat_sub_one hn hi
  have hmem := hround.mem
  rw [h.target] at hmem
  have hneeded : ¬ Needs s rs (above (s.regs .rdi) i) :=
    hapart _ ((within_above (by omega)).mpr hi)
  have hframe := h.frame.write (f i) hneeded hlen
  refine ⟨?_, ?_, ?_, ⟨hround.rsp.trans h.frame.rsp, hmem ▸ hframe.words, ?_⟩, ?_⟩
  · rw [hround.line, h.left]
    simp only [hzero, ite_not]
  · rw [hround.target, h.target, above_succ]
  · rw [hround.left, h.left, hleft]
  · intro r hr hrs hrbp hne
    rw [hround.kept r hr hrs, h.frame.kept r hr hrs hrbp hne]
  · rw [hmem]
    exact h.filled.next (by omega)

/-- The start of such a loop; with nothing to fill it is skipped. -/
lemma filling_zero {s p : Cpu} {rs : List Reg} {head done : ℕ} {dst : Reg} (f : ℕ → U8)
    {e : Running} (hp : Entered s rs p) (hframe : InFrame s rs e.cpu) (hmem : e.cpu.mem = p.mem)
    (hline : e.line = some (if decide (p.regs .rdx = 0#64) = true then done else head))
    (hdst : e.cpu.regs dst = p.regs .rdi) (hleft : e.cpu.regs .r13 = p.regs .rdx) :
    FillState s rs head done dst f 0 e := by
  have hrdx : p.regs .rdx = s.regs .rdx := hp.regs .rdx (by decide) (by decide)
  refine ⟨?_, ?_, ?_, hframe, filledUpTo_zero _ _ fun x hx => hmem ▸ hp.mem x hx⟩
  · have hzero : 0 < (s.regs .rdx).toNat ↔ ¬ s.regs .rdx = 0#64 := by bv_omega
    rw [hline, hrdx]
    simp only [hzero, ite_not, decide_eq_true_eq]
  · rw [hdst, hp.regs .rdi (by decide) (by decide), above_zero]
  · rw [hleft, hrdx, Nat.sub_zero, BitVec.ofNat_toNat, BitVec.setWidth_eq]

/-- **Such a loop, from its first round to the return**, where `I` is what holds before each round.
The loop is followed by a label, the pops and `ret`. -/
lemma filling_returns {s : Cpu} {rs : List Reg} {head : ℕ} {dst : Reg} {f : ℕ → U8}
    (before : List Line) (l : Label) {I : ℕ → Running → Prop} {e : Running}
    (hI : ∀ i e, I i e → FillState s rs head before.length dst f i e)
    (hround : ∀ i < (s.regs .rdx).toNat,
      LeadsTo (Running.step (before ++ [.label l] ++ exitCode rs)) (I i) (I (i + 1)))
    (hrsp : .rsp ∉ rs) (hrbp : .rbp ∉ rs) (hnodup : rs.Nodup) (he : I 0 e) :
    ∃ t zf, StepsTo (Running.step (before ++ [.label l] ++ exitCode rs)) e ⟨t, zf, none⟩ ∧
      Returned s t ∧
      (∀ k < (s.regs .rdx).toNat, t.mem (above (s.regs .rdi) k) = f k) ∧
      ∀ x, ¬ Within (s.regs .rdi) (s.regs .rdx).toNat x → ¬ Pushes s rs x → t.mem x = s.mem x := by
  obtain ⟨⟨c, zf, line⟩, hloop, hd⟩ := LeadsTo.rounds hround e he
  have hfilling := hI _ _ hd
  have hline := hfilling.line
  rw [if_neg (Nat.lt_irrefl _)] at hline
  subst hline
  obtain ⟨t, hexit, ht⟩ :=
    hfilling.frame.leave (before ++ [.label l]) zf hrsp hrbp hnodup
  rw [List.length_append, List.length_singleton] at hexit
  refine ⟨t, zf, hloop.trans (StepsTo.cons ?_ hexit), ht.returned, ?_, ?_⟩
  · simp [Running.step, Running.exec, Running.next]
  · rw [ht.mem]
    exact hfilling.filled.filled
  · rw [ht.mem]
    exact hfilling.filled.other

/-! ## `user_copy_safe` -/

/-- The registers that `user_copy_safe` pushes after `rbp`. -/
def copyRegs : List Reg := [.rbx, .r12, .r13, .r14, .r15]

/-- The destination is apart from the pushed words and the return address, the source from the
pushed words, and no byte of the source is overwritten before it is read. -/
structure CopyApart (s : Cpu) : Prop where
  dst : ∀ x, Within (s.regs .rdi) (s.regs .rdx).toNat x → ¬ Needs s copyRegs x
  src : ∀ x, Within (s.regs .rsi) (s.regs .rdx).toNat x → ¬ Pushes s copyRegs x
  forward : ∀ k < (s.regs .rdx).toNat, ¬ Within (s.regs .rdi) k (above (s.regs .rsi) k)

/-- Before round `i` of the loop. -/
def CopyState (s : Cpu) (i : ℕ) (e : Running) : Prop :=
  FillState s copyRegs 13 20 .r15 (fun k => s.mem (above (s.regs .rsi) k)) i e ∧
    e.cpu.regs .r14 = above (s.regs .rsi) i

/-- The seven lines of the loop. -/
lemma userCopyRound (c : Cpu) (zf : Bool) :
    ∃ e, StepsTo (Running.step userCopySafe) ⟨c, zf, some 13⟩ e ∧
      FillRound copyRegs 13 20 .r15 (c.mem (c.regs .r14)) c e ∧
      e.cpu.regs .r14 = c.regs .r14 + 1#64 := by
  refine ⟨_, StepsTo.compute 7 rfl, ⟨?_, rfl, rfl, ?_, rfl, fun r hr hrs => ?_⟩, rfl⟩
  · change some (if (!decide (c.regs .r13 - 1#64 = 0#64)) = true then 13 else 20) = _
    by_cases h : c.regs .r13 - 1#64 = 0#64 <;> simp [h]
  · exact congrArg (Function.update c.mem (c.regs .r15)) (lowByte_setLowByte _ _)
  · revert hr hrs
    cases r <;> first | exact fun _ _ => rfl | exact fun _ h => absurd (by decide) h

/-- **A round of the loop** copies one byte.  The byte that is read is still that of the source:
neither the pushes nor the earlier rounds have changed it. -/
lemma CopyState.round {s : Cpu} (h : CopyApart s) {i : ℕ} (hi : i < (s.regs .rdx).toNat) :
    LeadsTo (Running.step userCopySafe) (CopyState s i) (CopyState s (i + 1)) := by
  rintro ⟨c, zf, line⟩ ⟨he, hsrc⟩
  have hline := he.line
  rw [if_pos hi] at hline
  subst hline
  obtain ⟨e', hsteps, hround, hnext⟩ := userCopyRound c zf
  have hw : Within (s.regs .rsi) (s.regs .rdx).toNat (above (s.regs .rsi) i) :=
    (within_above (by omega)).mpr hi
  have hbyte : c.mem (c.regs .r14) = s.mem (above (s.regs .rsi) i) := by
    rw [hsrc]
    exact he.filled.other _ (h.forward i hi) (h.src _ hw)
  rw [hbyte] at hround
  refine ⟨e', hsteps, he.next hi h.dst (by decide) hround, ?_⟩
  rw [hnext, hsrc, above_succ]

/-- The lines between the pushes and the loop. -/
lemma copying_start {s p : Cpu} (zf : Bool) (hp : Entered s copyRegs p) :
    ∃ e, StepsTo (Running.step userCopySafe) ⟨p, zf, some 7⟩ e ∧ CopyState s 0 e := by
  have hinner := ((hp.frame.setReg (r := .r15) (p.regs .rdi) (by decide) (.inr (by decide))).setReg
    (r := .r14) (p.regs .rsi) (by decide) (.inr (by decide))).setReg
    (r := .r13) (p.regs .rdx) (by decide) (.inr (by decide))
  exact ⟨_, StepsTo.compute 6 rfl,
    filling_zero _ hp ⟨hinner.rsp, hinner.words, hinner.kept⟩ rfl rfl rfl rfl,
    (hp.regs .rsi (by decide) (by decide)).trans (above_zero _).symm⟩

/-- **`user_copy_safe` copies.**  Called with the destination, the source and the number of bytes,
it returns to its caller with the callee-saved registers as they were; the bytes of the destination
are then those that the source had, and apart from the words below the stack pointer nothing else
has changed. -/
theorem userCopySafe_correct (s : Cpu) (zf : Bool) (h : CopyApart s) :
    ∃ t zf', StepsTo (Running.step userCopySafe) (s.enter zf) ⟨t, zf', none⟩ ∧ Returned s t ∧
      (∀ k < (s.regs .rdx).toNat,
        t.mem (above (s.regs .rdi) k) = s.mem (above (s.regs .rsi) k)) ∧
      ∀ x, ¬ Within (s.regs .rdi) (s.regs .rdx).toNat x → ¬ Pushes s copyRegs x →
        t.mem x = s.mem x := by
  obtain ⟨p, hentry, hp⟩ :=
    stepsTo_entered s zf copyRegs (userCopySafe.drop 7) (by decide) (by decide) (by decide)
  obtain ⟨e, hstart, he⟩ := copying_start zf hp
  obtain ⟨t, zf', hrest, ht⟩ := filling_returns (userCopySafe.take 20) .copyDone
    (I := CopyState s) (fun _ _ h => h.1) (fun i hi => CopyState.round h hi) (by decide) (by decide)
    (by decide) he
  exact ⟨t, zf', (Relation.ReflTransGen.trans hentry hstart).trans hrest, ht⟩

/-- A call with three arguments; the stack ends at `0x10000`, and the memory holds `0, 1, 2, ..`
from `0x6000` on. -/
def callWith (rdi rsi rdx : U64) : Cpu where
  regs
    | .rsp => 0x10000#64
    | .rdi => rdi
    | .rsi => rsi
    | .rdx => rdx
    | _ => 0#64
  rip := 0#64
  cs := 0#64
  rflags := 0#64
  ss := 0#64
  fpu _ := 0#8
  mem x := if 0x6000#64 ≤ x ∧ x < 0x6100#64 then (x - 0x6000#64).setWidth 8 else 0#8

/-- The stack is apart from the bytes. -/
lemma callWith_apart {rdi rsi rdx a : U64} {rs : List Reg} {n : ℕ} (hlen : rs.length ≤ 5)
    (ha : a.toNat ≤ 0x6100) (hn : n ≤ 3) :
    ∀ x, Within a n x → ¬ Needs (callWith rdi rsi rdx) rs x := by
  intro x hx hneeds
  have hstack : (x - (0x10000#64 - BitVec.ofNat 64 (8 * (rs.length + 1)))).toNat
      < 8 * (rs.length + 2) := hneeds
  rw [Within] at hx
  bv_omega

/-- Three bytes are moved down by one. -/
theorem userCopySafe_overlapping :
    ∃ t zf', StepsTo (Running.step userCopySafe)
        ((callWith 0x6000#64 0x6001#64 3#64).enter false) ⟨t, zf', none⟩ ∧
      t.mem (above 0x6000#64 2) = 3#8 := by
  have h : CopyApart (callWith 0x6000#64 0x6001#64 3#64) := by
    refine ⟨callWith_apart (by decide) (by decide) (by decide), fun x hx hp => ?_, fun k hk => ?_⟩
    · exact callWith_apart (by decide) (by decide) (by decide) x hx hp.needs
    · have hthree : k < 3 := hk
      simp only [Within, above, callWith, BitVec.toNat_sub, BitVec.toNat_add, BitVec.toNat_ofNat]
      omega
  obtain ⟨t, zf', hsteps, -, hcopied, -⟩ := userCopySafe_correct _ false h
  exact ⟨t, zf', hsteps, (hcopied 2 (by decide)).trans (by decide)⟩

/-! ## `memset_safe` -/

/-- The registers that `memset_safe` and `strcmp_safe` push after `rbp`. -/
def scratchRegs : List Reg := [.rbx, .r12, .r13]

/-- Before round `i` of the loop. -/
def Setting (s : Cpu) (i : ℕ) (e : Running) : Prop :=
  FillState s scratchRegs 10 15 .r12 (fun _ => lowByte (s.regs .rsi)) i e ∧
    e.cpu.regs .rbx = s.regs .rsi

/-- The five lines of the loop. -/
lemma memsetRound (c : Cpu) (zf : Bool) :
    ∃ e, StepsTo (Running.step memsetSafe) ⟨c, zf, some 10⟩ e ∧
      FillRound scratchRegs 10 15 .r12 (lowByte (c.regs .rbx)) c e ∧
      e.cpu.regs .rbx = c.regs .rbx := by
  refine ⟨_, StepsTo.compute 5 rfl, ⟨?_, rfl, rfl, rfl, rfl, fun r hr hrs => ?_⟩, rfl⟩
  · change some (if (!decide (c.regs .r13 - 1#64 = 0#64)) = true then 10 else 15) = _
    by_cases h : c.regs .r13 - 1#64 = 0#64 <;> simp [h]
  · revert hr hrs
    cases r <;> first | exact fun _ _ => rfl | exact fun _ h => absurd (by decide) h

lemma Setting.round {s : Cpu}
    (h : ∀ x, Within (s.regs .rdi) (s.regs .rdx).toNat x → ¬ Needs s scratchRegs x) {i : ℕ}
    (hi : i < (s.regs .rdx).toNat) :
    LeadsTo (Running.step memsetSafe) (Setting s i) (Setting s (i + 1)) := by
  rintro ⟨c, zf, line⟩ ⟨he, hrbx⟩
  have hline := he.line
  rw [if_pos hi] at hline
  subst hline
  obtain ⟨e', hsteps, hround, hnext⟩ := memsetRound c zf
  rw [hrbx] at hround hnext
  exact ⟨e', hsteps, he.next hi h (by decide) hround, hnext⟩

/-- The lines between the pushes and the loop. -/
lemma setting_start {s p : Cpu} (zf : Bool) (hp : Entered s scratchRegs p) :
    ∃ e, StepsTo (Running.step memsetSafe) ⟨p, zf, some 5⟩ e ∧ Setting s 0 e := by
  have hinner := ((hp.frame.setReg (r := .r12) (p.regs .rdi) (by decide) (.inr (by decide))).setReg
    (r := .rbx) (p.regs .rsi) (by decide) (.inr (by decide))).setReg
    (r := .r13) (p.regs .rdx) (by decide) (.inr (by decide))
  exact ⟨_, StepsTo.compute 5 rfl, filling_zero _ hp hinner rfl rfl rfl rfl,
    hp.regs .rsi (by decide) (by decide)⟩

/-- **`memset_safe` fills.**  Called with the address, the byte and the number of bytes, it returns
to its caller with the callee-saved registers as they were; every byte of the range is then the low
byte of the second argument, and apart from the words below the stack pointer nothing else has
changed. -/
theorem memsetSafe_correct (s : Cpu) (zf : Bool)
    (h : ∀ x, Within (s.regs .rdi) (s.regs .rdx).toNat x → ¬ Needs s scratchRegs x) :
    ∃ t zf', StepsTo (Running.step memsetSafe) (s.enter zf) ⟨t, zf', none⟩ ∧ Returned s t ∧
      (∀ k < (s.regs .rdx).toNat, t.mem (above (s.regs .rdi) k) = lowByte (s.regs .rsi)) ∧
      ∀ x, ¬ Within (s.regs .rdi) (s.regs .rdx).toNat x → ¬ Pushes s scratchRegs x →
        t.mem x = s.mem x := by
  obtain ⟨p, hentry, hp⟩ :=
    stepsTo_entered s zf scratchRegs (memsetSafe.drop 5) (by decide) (by decide) (by decide)
  obtain ⟨e, hstart, he⟩ := setting_start zf hp
  obtain ⟨t, zf', hrest, ht⟩ := filling_returns (memsetSafe.take 15) .memsetDone
    (I := Setting s) (fun _ _ h => h.1) (fun i hi => Setting.round h hi) (by decide) (by decide)
    (by decide) he
  exact ⟨t, zf', (Relation.ReflTransGen.trans hentry hstart).trans hrest, ht⟩

/-- Three bytes. -/
theorem memsetSafe_three :
    ∃ t zf', StepsTo (Running.step memsetSafe)
        ((callWith 0x6000#64 0x2AA#64 3#64).enter false) ⟨t, zf', none⟩ ∧
      t.mem (above 0x6000#64 2) = 0xAA#8 := by
  obtain ⟨t, zf', hsteps, -, hset, -⟩ := memsetSafe_correct (callWith 0x6000#64 0x2AA#64 3#64) false
    (callWith_apart (by decide) (by decide) (by decide))
  exact ⟨t, zf', hsteps, (hset 2 (by decide)).trans (by decide)⟩

/-! ## `strlen_safe` -/

/-- The test at the head of the loop. -/
lemma strlenTest (c : Cpu) (zf : Bool) :
    StepsTo (Running.step strlenSafe) ⟨c, zf, some 3⟩
      ⟨c, c.mem (c.regs .rax) = 0#8, some (if c.mem (c.regs .rax) = 0#8 then 8 else 6)⟩ := by
  have hsteps : StepsTo (Running.step strlenSafe) ⟨c, zf, some 3⟩ _ := StepsTo.compute 3 rfl
  convert hsteps using 1
  refine Running.ext rfl rfl ?_
  change _ = some (if decide (c.mem (c.regs .rax) = 0#8) = true then 8 else 6)
  simp only [decide_eq_true_eq]

/-- The loop of `strlen_safe`, by induction on the string that is left. -/
lemma strlenLoop (bs : List U8) {c : Cpu} (zf : Bool) (h : CString c.mem (c.regs .rax) bs) :
    ∃ zf', StepsTo (Running.step strlenSafe) ⟨c, zf, some 3⟩
      ⟨c.setReg .rax (above (c.regs .rax) bs.length), zf', some 8⟩ := by
  induction bs generalizing c zf with
  | nil =>
    have hzero : c.mem (c.regs .rax) = 0#8 := h
    have htest := strlenTest c zf
    rw [if_pos hzero] at htest
    have hsame : c.setReg .rax (above (c.regs .rax) 0) = c := by
      rw [above_zero, Cpu.setReg, Function.update_eq_self]
    rw [List.length_nil, hsame]
    exact ⟨_, htest⟩
  | cons b bs ih =>
    obtain ⟨hb, hne, hrest⟩ := h
    have htest := strlenTest c zf
    rw [if_neg (by rwa [hb])] at htest
    -- `incq` and `jmp`: the loop goes on with the rest of the string
    have hround : StepsTo (Running.step strlenSafe) ⟨c, c.mem (c.regs .rax) = 0#8, some 6⟩
        ⟨c.setReg .rax (c.regs .rax + 1#64), c.regs .rax + 1#64 = 0#64, some 3⟩ :=
      StepsTo.compute 2 rfl
    obtain ⟨zf', hloop⟩ := ih (c := c.setReg .rax (c.regs .rax + 1#64))
      (c.regs .rax + 1#64 = 0#64) (by rwa [Cpu.setReg_self])
    have hend : (c.setReg .rax (c.regs .rax + 1#64)).setReg .rax
          (above ((c.setReg .rax (c.regs .rax + 1#64)).regs .rax) bs.length)
        = c.setReg .rax (above (c.regs .rax) (b :: bs).length) := by
      have hnext : above (c.regs .rax + 1#64) bs.length = above (c.regs .rax) (b :: bs).length := by
        rw [List.length_cons, Nat.add_comm, ← above_above]
        rfl
      rw [Cpu.setReg_self, hnext]
      simp only [Cpu.setReg, Function.update_idem]
    rw [hend] at hloop
    exact ⟨zf', (htest.trans hround).trans hloop⟩

/-- **`strlen_safe` measures.**  Called with a string, it returns the number of bytes before the
terminator, with the callee-saved registers as they were; only the word below the stack pointer has
changed. -/
theorem strlenSafe_correct (s : Cpu) (zf : Bool) (bs : List U8)
    (hs : CString s.mem (s.regs .rdi) bs)
    (h : ∀ x, Within (s.regs .rdi) (bs.length + 1) x → ¬ Pushes s [] x) :
    ∃ t zf', StepsTo (Running.step strlenSafe) (s.enter zf) ⟨t, zf', none⟩ ∧ Returned s t ∧
      t.regs .rax = BitVec.ofNat 64 bs.length ∧ ∀ x, ¬ Pushes s [] x → t.mem x = s.mem x := by
  obtain ⟨p, hentry, hp⟩ :=
    stepsTo_entered s zf [] (strlenSafe.drop 2) (by decide) (by decide) (by decide)
  have hrdi : p.regs .rdi = s.regs .rdi := hp.regs .rdi (by decide) (by decide)
  have hmov : StepsTo (Running.step strlenSafe) ⟨p, zf, some 2⟩
      ⟨p.setReg .rax (p.regs .rdi), zf, some 3⟩ := StepsTo.compute 1 rfl
  obtain ⟨zf', hloop⟩ := strlenLoop bs (c := p.setReg .rax (p.regs .rdi)) zf (by
    rw [Cpu.setReg_self, hrdi]
    exact hs.congr fun x hx => hp.mem x (h x hx))
  have hinner := (hp.frame.setReg (r := .rax) (p.regs .rdi) (by decide) (.inl (by decide))).setReg
    (r := .rax) (above (p.regs .rdi) bs.length) (by decide) (.inl (by decide))
  rw [Cpu.setReg_self] at hloop
  set c := (p.setReg .rax (p.regs .rdi)).setReg .rax (above (p.regs .rdi) bs.length)
  have hsub : StepsTo (Running.step strlenSafe) ⟨c, zf', some 8⟩
      ⟨c.setReg .rax (c.regs .rax - c.regs .rdi), c.regs .rax - c.regs .rdi = 0#64, some 10⟩ :=
    StepsTo.compute 2 rfl
  obtain ⟨t, hexit, ht⟩ := (hinner.setReg (r := .rax) (c.regs .rax - c.regs .rdi)
    (by decide) (.inl (by decide))).leave (strlenSafe.take 10) (c.regs .rax - c.regs .rdi = 0#64)
    (by decide) (by decide) (by decide)
  refine ⟨t, _, (Relation.ReflTransGen.trans hentry hmov).trans ((hloop.trans hsub).trans hexit),
    ht.returned, ?_, fun x hx => ?_⟩
  · rw [ht.regs .rax (by decide) (by decide) (by decide), Cpu.setReg_self]
    change above (p.regs .rdi) bs.length - p.regs .rdi = _
    rw [above, BitVec.add_comm, BitVec.add_sub_cancel]
  · rw [ht.mem]
    exact hp.mem x hx

/-- The two bytes from `0x60FE` on are not zero, and the third one is. -/
theorem strlenSafe_two :
    ∃ t zf', StepsTo (Running.step strlenSafe)
        ((callWith 0x60FE#64 0#64 0#64).enter false) ⟨t, zf', none⟩ ∧ t.regs .rax = 2#64 := by
  have hs : CString (callWith 0x60FE#64 0#64 0#64).mem 0x60FE#64 [0xFE#8, 0xFF#8] := by
    simp only [CString, callWith]
    decide
  obtain ⟨t, zf', hsteps, -, hlen, -⟩ := strlenSafe_correct _ false [0xFE#8, 0xFF#8] hs
    fun x hx hp => callWith_apart (by decide) (by decide) (by decide) x hx hp.needs
  exact ⟨t, zf', hsteps, hlen⟩

/-! ## `strcmp_safe` -/

/-- The difference of the first bytes that differ, where a terminator counts as zero. -/
def strcmpValue : List U8 → List U8 → U64
  | [], [] => 0#64
  | [], b :: _ => 0#64 - b.setWidth 64
  | a :: _, [] => a.setWidth 64 - 0#64
  | a :: as, b :: bs => if a = b then strcmpValue as bs else a.setWidth 64 - b.setWidth 64

/-- The CPU is behind the loop with a result, and has changed no memory. -/
structure Compared (s c : Cpu) (w : U64) (e : Running) : Prop where
  line : e.line = some 23
  frame : InFrame s scratchRegs e.cpu
  mem : e.cpu.mem = c.mem
  result : e.cpu.regs .rax = w

/-- The byte of the first string has been loaded and compared with that of the second. -/
def strcmpLoaded (c : Cpu) : Cpu :=
  c.setReg .rbx (setLowByte (c.regs .rbx) (c.mem (c.regs .r12)))

lemma lowByte_strcmpLoaded (c : Cpu) :
    lowByte ((strcmpLoaded c).regs .rbx) = c.mem (c.regs .r12) := by
  rw [strcmpLoaded, Cpu.setReg_self, lowByte_setLowByte]

lemma strcmpTest (c : Cpu) (zf : Bool) :
    StepsTo (Running.step strcmpSafe) ⟨c, zf, some 7⟩
      ⟨strcmpLoaded c, c.mem (c.regs .r13) = c.mem (c.regs .r12),
        some (if c.mem (c.regs .r13) = c.mem (c.regs .r12) then 11 else 19)⟩ := by
  have hsteps : StepsTo (Running.step strcmpSafe) ⟨c, zf, some 7⟩ _ := StepsTo.compute 4 rfl
  have hflag : decide (c.mem (c.regs .r13) = lowByte ((strcmpLoaded c).regs .rbx))
      = decide (c.mem (c.regs .r13) = c.mem (c.regs .r12)) := by rw [lowByte_strcmpLoaded]
  convert hsteps using 1
  refine Running.ext rfl hflag.symm ?_
  change _ = some (if (!decide (c.mem (c.regs .r13) = lowByte ((strcmpLoaded c).regs .rbx))) = true
    then 19 else 11)
  rw [hflag]
  by_cases h : c.mem (c.regs .r13) = c.mem (c.regs .r12) <;> simp [h]

/-- Registers that `strcmp_safe` uses. -/
lemma InFrame.setScratch {s c : Cpu} (h : InFrame s scratchRegs c) {r : Reg} (w : U64)
    (hr : r ∈ [Reg.rax, .rbx, .r12, .r13]) : InFrame s scratchRegs (c.setReg r w) := by
  refine h.setReg w ?_ ?_ <;> revert hr <;> cases r <;> decide

/-- The bytes differ. -/
lemma strcmpDiff {s c : Cpu} (zf : Bool) (hframe : InFrame s scratchRegs c)
    (h : c.mem (c.regs .r13) ≠ c.mem (c.regs .r12)) :
    ∃ e, StepsTo (Running.step strcmpSafe) ⟨c, zf, some 7⟩ e ∧
      Compared s c ((c.mem (c.regs .r12)).setWidth 64 - (c.mem (c.regs .r13)).setWidth 64) e := by
  have htest := strcmpTest c zf
  rw [if_neg h] at htest
  refine ⟨_, htest.trans (StepsTo.compute 4 rfl), rfl, ?_, rfl, ?_⟩
  · exact (((hframe.setScratch _ (by decide)).setScratch _ (by decide)).setScratch _
      (by decide)).setScratch _ (by decide)
  · rw [← lowByte_strcmpLoaded c]
    rfl

/-- The bytes are equal: the loop ends at a terminator, or goes on. -/
lemma strcmpSame (c : Cpu) (zf : Bool) (h : c.mem (c.regs .r13) = c.mem (c.regs .r12)) :
    StepsTo (Running.step strcmpSafe) ⟨c, zf, some 7⟩
      ⟨strcmpLoaded c, c.mem (c.regs .r12) = 0#8,
        some (if c.mem (c.regs .r12) = 0#8 then 16 else 13)⟩ := by
  have htest := strcmpTest c zf
  rw [if_pos h] at htest
  have hsteps : StepsTo (Running.step strcmpSafe) _ _ := htest.trans (StepsTo.compute 2 rfl)
  convert hsteps using 1
  have hflag : decide (lowByte ((strcmpLoaded c).regs .rbx) = 0#8)
      = decide (c.mem (c.regs .r12) = 0#8) := by rw [lowByte_strcmpLoaded]
  refine Running.ext rfl hflag.symm ?_
  change _ = some (if decide (lowByte ((strcmpLoaded c).regs .rbx) = 0#8) = true then 16 else 13)
  rw [hflag]
  simp only [decide_eq_true_eq]

/-- **The loop of `strcmp_safe`**, by induction on the first string. -/
lemma strcmpLoop (as bs : List U8) {s c : Cpu} (zf : Bool)
    (hframe : InFrame s scratchRegs c) (has : CString c.mem (c.regs .r12) as)
    (hbs : CString c.mem (c.regs .r13) bs) :
    ∃ e, StepsTo (Running.step strcmpSafe) ⟨c, zf, some 7⟩ e ∧
      Compared s c (strcmpValue as bs) e := by
  induction as generalizing bs c zf with
  | nil =>
    have hzero : c.mem (c.regs .r12) = 0#8 := has
    cases bs with
    | nil =>
      have hsame := strcmpSame c zf (Eq.trans hbs hzero.symm)
      rw [if_pos hzero] at hsame
      refine ⟨_, hsame.trans (StepsTo.compute 3 rfl), rfl, ?_, rfl, rfl⟩
      exact (hframe.setScratch _ (by decide)).setScratch _ (by decide)
    | cons b bs =>
      have hdiff := strcmpDiff zf hframe (by rw [hbs.1, hzero]; exact hbs.2.1)
      rw [hzero, hbs.1] at hdiff
      exact hdiff
  | cons a as ih =>
    cases bs with
    | nil =>
      have hzero : c.mem (c.regs .r13) = 0#8 := hbs
      have hdiff := strcmpDiff zf hframe (by rw [hzero, has.1]; exact has.2.1.symm)
      rw [hzero, has.1] at hdiff
      exact hdiff
    | cons b bs =>
      by_cases heq : a = b
      · have hsame := strcmpSame c zf (by rw [has.1, hbs.1, heq])
        rw [if_neg (by rw [has.1]; exact has.2.1)] at hsame
        have hnext : InFrame s scratchRegs (((strcmpLoaded c).setReg .r12
            (c.regs .r12 + 1#64)).setReg .r13 (c.regs .r13 + 1#64)) :=
          ((hframe.setScratch _ (by decide)).setScratch _ (by decide)).setScratch _ (by decide)
        obtain ⟨e, hloop, he⟩ := ih bs (c.regs .r13 + 1#64 = 0#64) hnext has.2.2 hbs.2.2
        refine ⟨e, (hsame.trans (StepsTo.compute 3 rfl)).trans hloop, he.line, he.frame,
          he.mem, ?_⟩
        rw [he.result, strcmpValue, if_pos heq]
      · have hdiff := strcmpDiff zf hframe (by
          rw [has.1, hbs.1]
          exact Ne.symm heq)
        rw [has.1, hbs.1] at hdiff
        rw [strcmpValue, if_neg heq]
        exact hdiff

/-- Bytes are compared as unsigned numbers. -/
lemma toInt_byte_sub (a b : U8) :
    (a.setWidth 64 - b.setWidth 64).toInt = (a.toNat : ℤ) - b.toNat := by
  have ha := a.isLt
  have hb := b.isLt
  rw [BitVec.toInt_eq_toNat_cond]
  simp only [BitVec.toNat_sub, BitVec.toNat_setWidth]
  split_ifs <;> omega

/-- **What the result of a comparison says.** -/
lemma strcmpValue_spec {as bs : List U8} (has : ∀ a ∈ as, a ≠ 0#8) (hbs : ∀ b ∈ bs, b ≠ 0#8) :
    ((strcmpValue as bs).toInt = 0 ↔ as = bs) ∧ ((strcmpValue as bs).toInt < 0 ↔ as < bs) := by
  have hpos : ∀ b : U8, b ≠ 0#8 → 0 < b.toNat := fun b hb => by bv_omega
  induction as generalizing bs with
  | nil =>
    cases bs with
    | nil => simp [strcmpValue]
    | cons b bs =>
      have hb := hpos b (hbs b (by simp))
      have hval : (strcmpValue [] (b :: bs)).toInt = ((0#8).toNat : ℤ) - b.toNat :=
        toInt_byte_sub 0#8 b
      simp only [hval, BitVec.toNat_ofNat, Nat.zero_mod, reduceCtorEq, iff_false,
        List.nil_lt_cons, iff_true]
      omega
  | cons a as ih =>
    cases bs with
    | nil =>
      have ha := hpos a (has a (by simp))
      have hval : (strcmpValue (a :: as) []).toInt = (a.toNat : ℤ) - (0#8).toNat :=
        toInt_byte_sub a 0#8
      simp only [hval, BitVec.toNat_ofNat, Nat.zero_mod, reduceCtorEq, iff_false,
        List.not_lt_nil]
      omega
    | cons b bs =>
      rw [List.cons_lt_cons_iff, List.cons.injEq, strcmpValue]
      split_ifs with heq
      · subst heq
        simpa using ih (fun x hx => has x (by simp [hx])) (fun x hx => hbs x (by simp [hx]))
      · rw [toInt_byte_sub, BitVec.lt_def]
        have hne : a.toNat ≠ b.toNat := fun h => heq (BitVec.eq_of_toNat_eq h)
        simp only [heq, false_and, iff_false, or_false]
        omega

/-- **`strcmp_safe` compares.**  Called with two strings, it returns with the callee-saved registers
as they were.  As a signed number its result is zero exactly when the strings are equal, and
negative exactly when the first one comes first in the lexicographic order of unsigned bytes; only
the words below the stack pointer have changed. -/
theorem strcmpSafe_correct (s : Cpu) (zf : Bool) (as bs : List U8)
    (has : CString s.mem (s.regs .rdi) as) (hbs : CString s.mem (s.regs .rsi) bs)
    (ha : ∀ x, Within (s.regs .rdi) (as.length + 1) x → ¬ Pushes s scratchRegs x)
    (hb : ∀ x, Within (s.regs .rsi) (bs.length + 1) x → ¬ Pushes s scratchRegs x) :
    ∃ t zf', StepsTo (Running.step strcmpSafe) (s.enter zf) ⟨t, zf', none⟩ ∧ Returned s t ∧
      ((t.regs .rax).toInt = 0 ↔ as = bs) ∧ ((t.regs .rax).toInt < 0 ↔ as < bs) ∧
      ∀ x, ¬ Pushes s scratchRegs x → t.mem x = s.mem x := by
  obtain ⟨p, hentry, hp⟩ :=
    stepsTo_entered s zf scratchRegs (strcmpSafe.drop 5) (by decide) (by decide) (by decide)
  have hrdi : p.regs .rdi = s.regs .rdi := hp.regs .rdi (by decide) (by decide)
  have hrsi : p.regs .rsi = s.regs .rsi := hp.regs .rsi (by decide) (by decide)
  have hmovs : StepsTo (Running.step strcmpSafe) ⟨p, zf, some 5⟩
      ⟨(p.setReg .r12 (p.regs .rdi)).setReg .r13 (p.regs .rsi), zf, some 7⟩ :=
    StepsTo.compute 2 rfl
  obtain ⟨⟨c, zf', line⟩, hloop, hc⟩ := strcmpLoop as bs zf
    ((hp.frame.setScratch (r := .r12) (p.regs .rdi) (by decide)).setScratch (r := .r13)
      (p.regs .rsi) (by decide))
    (by
      change CString p.mem (p.regs .rdi) as
      rw [hrdi]
      exact has.congr fun x hx => hp.mem x (ha x hx))
    (by
      change CString p.mem (p.regs .rsi) bs
      rw [hrsi]
      exact hbs.congr fun x hx => hp.mem x (hb x hx))
  obtain rfl : line = some 23 := hc.line
  obtain ⟨t, hexit, ht⟩ :=
    hc.frame.leave (strcmpSafe.take 24) zf' (by decide) (by decide) (by decide)
  have hresult := ht.regs .rax (by decide) (by decide) (by decide)
  obtain ⟨hequal, hless⟩ := strcmpValue_spec has.ne_zero hbs.ne_zero
  refine ⟨t, zf', ((Relation.ReflTransGen.trans hentry hmovs).trans hloop).trans
    (StepsTo.cons rfl hexit), ht.returned, ?_, ?_, fun x hx => ?_⟩
  · rw [hresult, hc.result, hequal]
  · rw [hresult, hc.result, hless]
  · rw [ht.mem, hc.mem]
    exact hp.mem x hx

/-- Two strings that differ in their first byte, one of which lies inside the other. -/
theorem strcmpSafe_two :
    ∃ t zf', StepsTo (Running.step strcmpSafe)
        ((callWith 0x60FE#64 0x60FF#64 0#64).enter false) ⟨t, zf', none⟩ ∧
      (t.regs .rax).toInt < 0 := by
  have has : CString (callWith 0x60FE#64 0x60FF#64 0#64).mem 0x60FE#64 [0xFE#8, 0xFF#8] := by
    simp only [CString, callWith]
    decide
  obtain ⟨t, zf', hsteps, -, -, hless, -⟩ := strcmpSafe_correct _ false _ _ has has.2.2
    (fun x hx hp => callWith_apart (by decide) (by decide) (by decide) x hx hp.needs)
    (fun x hx hp => callWith_apart (by decide) (by decide) (by decide) x hx hp.needs)
  exact ⟨t, zf', hsteps, hless.mpr (by decide)⟩

end Masika
