import Mathlib.Tactic.Common
import Masika.Core.WordMemory

/-!
# The instructions of the entry code

The part of an x86-64 CPU that `arch/entry.s` uses: sixteen registers, the bytes of memory, and the
floating-point state as the image that FXSAVE stores, of which it writes bytes 0 to 415.  Code is
straight-line, so that a routine is a list of instructions; `call` pushes its return address, and
what a callee outside of this code does is an `AbiFunction`.  The alignment that FXSAVE asks for is
not checked.

A push puts the word of a register in front of the words on the stack and a pop takes it off.
`pushAll_spec` and `popAll_spec` say this for lists of registers; proofs about routines use them and
never follow single instructions through a save or a restore.
-/

namespace Masika

/-- The general registers. -/
inductive Reg
  | rax | rbx | rcx | rdx | rsi | rdi | rbp | rsp | r8 | r9 | r10 | r11 | r12 | r13 | r14 | r15
  deriving DecidableEq, Repr

/-- The registers, flags and memory. -/
structure Cpu where
  regs : Reg → U64
  rip : U64
  cs : U64
  rflags : U64
  ss : U64
  /-- the image of the floating-point and vector registers -/
  fpu : ℕ → U8
  mem : Memory64

/-- The bytes of its operand that FXSAVE writes. -/
def fxBytes : ℕ := 416

/-- The instructions that the code uses. -/
inductive Instr
  | push (r : Reg)
  | pop (r : Reg)
  | subRsp (n : ℕ)
  | addRsp (n : ℕ)
  /-- `fxsave (%rsp)` -/
  | fxsave
  /-- `fxrstor (%rsp)` -/
  | fxrstor
  | mov (src dst : Reg)
  /-- `movq %src, (%base)` -/
  | store (src base : Reg)
  /-- `movq (%base), %dst` -/
  | load (base dst : Reg)
  /-- a call with its return address; the code of the callee follows -/
  | call (ret : U64)
  | ret
  | iretq

namespace Cpu

/-- Set a register. -/
def setReg (s : Cpu) (r : Reg) (w : U64) : Cpu := { s with regs := Function.update s.regs r w }

/-- Push a word. -/
def pushWord (s : Cpu) (w : U64) : Cpu :=
  { s.setReg .rsp (s.regs .rsp - 8#64) with mem := writeU64 s.mem (s.regs .rsp - 8#64) w }

/-- One instruction. -/
def exec (s : Cpu) : Instr → Cpu
  | .push r => s.pushWord (s.regs r)
  | .pop r => (s.setReg .rsp (above (s.regs .rsp) 8)).setReg r (readU64 s.mem (s.regs .rsp))
  | .subRsp n => s.setReg .rsp (s.regs .rsp - BitVec.ofNat 64 n)
  | .addRsp n => s.setReg .rsp (above (s.regs .rsp) n)
  | .fxsave => { s with mem := writeRange s.mem (s.regs .rsp) fxBytes s.fpu }
  | .fxrstor => { s with fpu := fun i => s.mem (above (s.regs .rsp) i) }
  | .mov src dst => s.setReg dst (s.regs src)
  | .store src base => { s with mem := writeU64 s.mem (s.regs base) (s.regs src) }
  | .load base dst => s.setReg dst (readU64 s.mem (s.regs base))
  | .call ret => s.pushWord ret
  | .ret =>
    { s.setReg .rsp (above (s.regs .rsp) 8) with rip := readU64 s.mem (s.regs .rsp) }
  | .iretq =>
    let word := fun i => readU64 s.mem (above (s.regs .rsp) (8 * i))
    { s.setReg .rsp (word 3) with rip := word 0, cs := word 1, rflags := word 2, ss := word 4 }

/-- One after the other. -/
def execAll (s : Cpu) (code : List Instr) : Cpu := code.foldl exec s

end Cpu

/-- The registers that a function has to leave as they were. -/
def calleeSaved : List Reg := [.rbx, .rbp, .rsp, .r12, .r13, .r14, .r15]

/-- A function that obeys the calling convention, from its call to its return.  It keeps the
callee-saved registers and the `n` bytes of its callers' frames above the stack pointer. -/
structure AbiFunction (n : ℕ) where
  run : Cpu → Cpu
  saved : ∀ s, ∀ r ∈ calleeSaved, (run s).regs r = s.regs r
  frame : ∀ s x, Within (s.regs .rsp) n x → (run s).mem x = s.mem x

namespace Cpu

@[simp] lemma execAll_nil (s : Cpu) : s.execAll [] = s := rfl

@[simp] lemma execAll_cons (s : Cpu) (i : Instr) (code : List Instr) :
    s.execAll (i :: code) = (s.exec i).execAll code := rfl

lemma execAll_append (s : Cpu) (code code' : List Instr) :
    s.execAll (code ++ code') = (s.execAll code).execAll code' := List.foldl_append

@[simp] lemma setReg_self (s : Cpu) (r : Reg) (w : U64) : (s.setReg r w).regs r = w :=
  Function.update_self ..

lemma setReg_other (s : Cpu) {r r' : Reg} (w : U64) (h : r' ≠ r) :
    (s.setReg r w).regs r' = s.regs r' := Function.update_of_ne h ..

@[simp] lemma setReg_mem (s : Cpu) (r : Reg) (w : U64) : (s.setReg r w).mem = s.mem := rfl

lemma pushWord_rsp (s : Cpu) (w : U64) : (s.pushWord w).regs .rsp = s.regs .rsp - 8#64 :=
  setReg_self s .rsp _

lemma pushWord_regs (s : Cpu) (w : U64) {r : Reg} (h : r ≠ .rsp) :
    (s.pushWord w).regs r = s.regs r := setReg_other s _ h

lemma store_mem (s : Cpu) (src base : Reg) :
    (s.exec (.store src base)).mem = writeU64 s.mem (s.regs base) (s.regs src) := rfl

lemma store_regs (s : Cpu) (src base : Reg) : (s.exec (.store src base)).regs = s.regs := rfl

lemma load_mem (s : Cpu) (base dst : Reg) : (s.exec (.load base dst)).mem = s.mem := rfl

lemma load_self (s : Cpu) (base dst : Reg) :
    (s.exec (.load base dst)).regs dst = readU64 s.mem (s.regs base) := setReg_self s dst _

lemma ret_mem (s : Cpu) : (s.exec .ret).mem = s.mem := rfl

lemma ret_regs (s : Cpu) (r : Reg) (h : r ≠ .rsp) : (s.exec .ret).regs r = s.regs r := by
  dsimp only [exec]
  exact setReg_other s _ h

lemma ret_rsp (s : Cpu) : (s.exec .ret).regs .rsp = above (s.regs .rsp) 8 := by
  dsimp only [exec]
  exact setReg_self s .rsp _

lemma ret_rip (s : Cpu) : [(s.exec .ret).rip] = readWords s.mem (s.regs .rsp) 1 := by
  rw [readWords, List.range_one, List.map_singleton, Nat.mul_zero, above_zero]
  rfl

lemma iretq_regs (s : Cpu) (r : Reg) (h : r ≠ .rsp) : (s.exec .iretq).regs r = s.regs r := by
  dsimp only [exec]
  exact setReg_other s _ h

/-- Registers other than the stack pointer. -/
lemma map_regs_congr {s t : Cpu} {rs : List Reg} (h : ∀ r ≠ .rsp, t.regs r = s.regs r)
    (hrs : .rsp ∉ rs) : rs.map t.regs = rs.map s.regs := by
  refine List.map_congr_left fun r hr => h r ?_
  rintro rfl
  exact hrs hr

/-! ## Pushing registers -/

/-- What pushing some registers does: the stack pointer goes down, the words lie above it, and
everything else is as before. -/
structure Pushed (s t : Cpu) (rs : List Reg) : Prop where
  rsp : above (t.regs .rsp) (8 * rs.length) = s.regs .rsp
  regs : ∀ r ≠ .rsp, t.regs r = s.regs r
  fpu : t.fpu = s.fpu
  words : Words t.mem (t.regs .rsp) (rs.reverse.map s.regs)
  other : ∀ x, ¬ Within (t.regs .rsp) (8 * rs.length) x → t.mem x = s.mem x

lemma pushed_nil (s : Cpu) : Pushed s s [] where
  rsp := above_zero _
  regs _ _ := rfl
  fpu := rfl
  words := words_nil _ _
  other _ _ := rfl

/-- One register is pushed, and then others. -/
lemma Pushed.cons {s t : Cpu} {r : Reg} {rs : List Reg} (h : Pushed (s.exec (.push r)) t rs)
    (hrs : .rsp ∉ rs) (hlen : 8 * rs.length + 8 ≤ 2 ^ 64) : Pushed s t (r :: rs) := by
  have hlow : (s.exec (.push r)).regs .rsp = s.regs .rsp - 8#64 := pushWord_rsp s _
  have hmem : (s.exec (.push r)).mem = writeU64 s.mem (s.regs .rsp - 8#64) (s.regs r) := rfl
  have htop : above (t.regs .rsp) (8 * rs.length) = s.regs .rsp - 8#64 := h.rsp.trans hlow
  have hregs : ∀ r' ≠ Reg.rsp, (s.exec (.push r)).regs r' = s.regs r' :=
    fun r' hr' => pushWord_regs s _ hr'
  refine ⟨?_, fun r' hr' => (h.regs r' hr').trans (hregs r' hr'), h.fpu, ?_, fun x hx => ?_⟩
  · rw [List.length_cons, Nat.mul_succ, ← above_above, htop]
    exact above_sub _ 8
  · -- the words of the others lie below the first one, which they leave alone
    have hrest : rs.reverse.map (s.exec (.push r)).regs = rs.reverse.map s.regs :=
      map_regs_congr hregs (by rwa [List.mem_reverse])
    have hwords := h.words
    rw [hrest] at hwords
    rw [List.reverse_cons, List.map_append, words_append]
    refine ⟨hwords, ?_⟩
    rw [List.length_map, List.length_reverse, htop]
    refine words_cons.mpr ⟨?_, words_nil _ _⟩
    have hkeep : ∀ x, Within (s.regs .rsp - 8#64) 8 x → t.mem x = (s.exec (.push r)).mem x := by
      intro x hx
      rw [← htop] at hx
      have hnot := hx.not_before (i := 0) (n := 8 * rs.length) (by omega) hlen
      rw [above_zero] at hnot
      exact h.other x hnot
    rw [readU64_congr hkeep, hmem, readU64_writeU64]
  · rw [List.length_cons, Nat.mul_succ] at hx
    have hbelow : ¬ Within (t.regs .rsp) (8 * rs.length) x := fun hw => hx (Nat.lt_add_right 8 hw)
    have hfirst : ¬ Within (s.regs .rsp - 8#64) 8 x := by
      rw [← htop]
      exact fun hw => hx (hw.of_above (Nat.le_refl _) hlen)
    rw [h.other x hbelow, hmem]
    exact writeRange_other hfirst

/-- **Pushing a list of registers.** -/
lemma pushAll_spec (s : Cpu) (rs : List Reg) (hrs : .rsp ∉ rs) (hlen : 8 * rs.length ≤ 2 ^ 64) :
    Pushed s (s.execAll (rs.map .push)) rs := by
  induction rs generalizing s with
  | nil => exact pushed_nil s
  | cons r rs ih =>
    rw [List.length_cons, Nat.mul_succ] at hlen
    rw [List.mem_cons, not_or] at hrs
    rw [List.map_cons, execAll_cons]
    exact (ih (s.exec (.push r)) hrs.2 (by omega)).cons hrs.2 hlen

/-- A word is pushed in front of those on the stack. -/
lemma words_pushWord {s : Cpu} {ws : List U64} (h : Words s.mem (s.regs .rsp) ws) (w : U64)
    (hlen : 8 * ws.length + 8 ≤ 2 ^ 64) :
    Words (s.pushWord w).mem ((s.pushWord w).regs .rsp) (w :: ws) := by
  rw [pushWord_rsp]
  refine Words.push ?_ w hlen
  rwa [show (8#64 : U64) = BitVec.ofNat 64 8 from rfl, above_sub]

/-- The words that were on the stack before are still there. -/
lemma Pushed.words_above {s t : Cpu} {rs : List Reg} {ws : List U64} (h : Pushed s t rs)
    (hws : Words s.mem (s.regs .rsp) ws) (hlen : 8 * rs.length + 8 * ws.length ≤ 2 ^ 64) :
    Words t.mem (t.regs .rsp) (rs.reverse.map s.regs ++ ws) := by
  refine words_append.mpr ⟨h.words, ?_⟩
  rw [List.length_map, List.length_reverse, h.rsp]
  refine hws.congr (by omega) fun x hx => h.other x ?_
  rw [← h.rsp] at hx
  have hnot := hx.not_before (i := 0) (n := 8 * rs.length) (by omega) hlen
  rwa [above_zero] at hnot

/-! ## Popping registers -/

/-- What popping some registers does, when the words `ws` are on the stack. -/
structure Popped (s t : Cpu) (rs : List Reg) (ws : List U64) : Prop where
  popped : rs.map t.regs = ws
  rsp : t.regs .rsp = above (s.regs .rsp) (8 * rs.length)
  regs : ∀ r ∉ rs, r ≠ .rsp → t.regs r = s.regs r
  mem : t.mem = s.mem
  fpu : t.fpu = s.fpu

/-- **Popping a list of registers**, by induction on the list: a register keeps what was popped into
it since it does not come again. -/
lemma popAll_spec (s : Cpu) (rs : List Reg) {ws : List U64} (hrs : .rsp ∉ rs) (hnodup : rs.Nodup)
    (hlen : ws.length = rs.length) (hwords : Words s.mem (s.regs .rsp) ws) :
    Popped s (s.execAll (rs.map .pop)) rs ws := by
  induction rs generalizing s ws with
  | nil =>
    rw [List.length_nil, List.length_eq_zero_iff] at hlen
    subst hlen
    exact ⟨rfl, (above_zero _).symm, fun _ _ _ => rfl, rfl, rfl⟩
  | cons r rs ih =>
    obtain ⟨w, ws, rfl⟩ :=
      List.exists_cons_of_length_eq_add_one (hlen.trans (List.length_cons ..))
    rw [List.mem_cons, not_or] at hrs
    obtain ⟨hnot, hnodup⟩ := List.nodup_cons.mp hnodup
    obtain ⟨hfirst, hrest⟩ := words_cons.mp hwords
    have hrsp : (s.exec (.pop r)).regs .rsp = above (s.regs .rsp) 8 := by
      rw [exec, setReg_other _ _ hrs.1, setReg_self]
    have hword : (s.exec (.pop r)).regs r = w := by
      rw [exec, setReg_self, hfirst]
    rw [← hrsp] at hrest
    have h := ih (s.exec (.pop r)) hrs.2 hnodup (Nat.succ.inj hlen) hrest
    rw [List.map_cons, execAll_cons]
    refine ⟨?_, ?_, fun r' hr' hne => ?_, h.mem, h.fpu⟩
    · rw [List.map_cons, h.popped, h.regs r hnot (Ne.symm hrs.1), hword]
    · rw [h.rsp, hrsp, above_above, List.length_cons, Nat.mul_succ, Nat.add_comm 8]
    · rw [List.mem_cons, not_or] at hr'
      rw [h.regs r' hr'.2 hne, exec, setReg_other _ _ hr'.1, setReg_other _ _ hne]

end Cpu

/-- A function that only returns a value. -/
def AbiFunction.returning (n : ℕ) (w : U64) : AbiFunction n where
  run s := s.setReg .rax w
  saved s r hr := s.setReg_other w (by rintro rfl; exact absurd hr (by decide))
  frame _ _ _ := rfl

end Masika
