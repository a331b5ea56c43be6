import Mathlib.Data.List.FinRange
import Masika.Core.Accesses
import Masika.Core.BitPacked

/-!
# The redirection tables of the interrupt controllers

An I/O APIC has a redirection entry for each of its interrupts, in two registers of 32 bits, and it
is responsible for a range of global interrupt numbers.  `IoApics` is the table `IOAPIC_INFO`
together with `IOAPIC_COUNT`.  A register is accessed in two steps, by writing its number to the
select register of the controller and then using the window; the programs here record both.

`setup_irq`, `mask_irq` and `unmask_irq` look for the controller that is responsible for an
interrupt.  They should touch its entry there and nothing else (`TouchesOwnEntry`), but

* the entry is computed from the interrupt number, not from its place in the range, and
* an interrupt that no controller is responsible for is taken to belong to the first one.

So they are right for the interrupts of a controller whose range begins at 0, and if there is no
controller at all (`touchesOwnEntry_iff`).
-/

namespace Masika

/-! ## The programs -/

/-- An I/O APIC. -/
structure IoApicInfo where
  addr : U64
  gsiBase : U32
  maxRedir : U8
deriving DecidableEq, Repr

/-- `IOAPIC_INFO` and `IOAPIC_COUNT`. -/
structure IoApics where
  info : Fin 8 → IoApicInfo
  count : ℕ
  count_le : count ≤ 8

/-- What is accessed in the controller at `addr`: its select register, or a register through the
window. -/
inductive IoApicPort where
  | select (addr : U64)
  | register (addr : U64) (number : U32)
deriving DecidableEq, Repr

/-- Nothing here stops early. -/
abbrev IoApicProgram (α : Type) := Accessing Unit IoApicPort U32 Empty α

/-- `reg_base`, the first of the two registers that are used for an interrupt. -/
def regBase (irq : U8) : U32 := 0x10#32 + irq.setWidth 32 * 2#32

/-- The index of the first controller, `0`. -/
def firstIoapic : Fin 8 := 0

namespace IoApics

variable (t : IoApics)

/-- The window shows the register that has just been selected. -/
def readIoapicRegAt (idx : Fin 8) (offset : U32) : IoApicProgram U32 := do
  Accessing.store () (.select (t.info idx).addr) offset
  Accessing.load () (.register (t.info idx).addr offset)

/-- Select a register, and write it. -/
def writeIoapicRegAt (idx : Fin 8) (offset value : U32) : IoApicProgram Unit := do
  Accessing.store () (.select (t.info idx).addr) offset
  Accessing.store () (.register (t.info idx).addr offset) value

/-- The sum does not overflow: it is computed for a base of at most `gsi`, which is an interrupt
number below 256. -/
def findIoapicByGsi (gsi : U32) (defaultIdx : Fin 8) : Fin 8 :=
  (((List.finRange 8).take t.count).find? fun i =>
    decide (gsi ≥ (t.info i).gsiBase) &&
      decide (gsi ≤ (t.info i).gsiBase + (t.info i).maxRedir.setWidth 32)).getD defaultIdx

/-- Read a register and write it back changed. -/
def modifyReg (idx : Fin 8) (offset : U32) (f : U32 → U32) :
    IoApicProgram Unit := do
  let val ← t.readIoapicRegAt idx offset
  t.writeIoapicRegAt idx offset (f val)

/-- `let idx = find_ioapic_by_gsi(gsi, ioapic_idx)` with `ioapic_idx = 0`. -/
def ioapicOf (irq : U8) : Fin 8 := t.findIoapicByGsi (irq.setWidth 32) firstIoapic

/-- What the three functions begin with: the controller is looked up. -/
def withIoapic (irq : U8) (body : Fin 8 → IoApicProgram Unit) : IoApicProgram Unit :=
  if (t.ioapicOf irq).val ≥ t.count then pure () else body (t.ioapicOf irq)

/-- Write both words of an entry. -/
def setupIrq (lapicId irq vector : U8) : IoApicProgram Unit :=
  t.withIoapic irq fun idx => do
    t.writeIoapicRegAt idx (regBase irq) (vector.setWidth 32 &&& 0xFF#32)
    t.writeIoapicRegAt idx (regBase irq + 1#32) ((lapicId.setWidth 32 <<< 24) &&& 0xFF000000#32)

/-- Set the mask bit. -/
def maskIrq (irq : U8) : IoApicProgram Unit :=
  t.withIoapic irq fun idx => t.modifyReg idx (regBase irq) fun val => val ||| (1#32 <<< 16)

/-- Clear the mask bit. -/
def unmaskIrq (irq : U8) : IoApicProgram Unit :=
  t.withIoapic irq fun idx => t.modifyReg idx (regBase irq) fun val => val &&& ~~~(1#32 <<< 16)

end IoApics

/-! ## The property -/

/-- The range of a controller. -/
def IoApicInfo.Covers (info : IoApicInfo) (gsi : ℕ) : Prop :=
  info.gsiBase.toNat ≤ gsi ∧ gsi ≤ info.gsiBase.toNat + info.maxRedir.toNat

namespace IoApics

variable (t : IoApics)

/-- No interrupt belongs to two of them. -/
def DisjointRanges : Prop :=
  ∀ i j : Fin 8, i.val < t.count → j.val < t.count → ∀ gsi, (t.info i).Covers gsi →
    (t.info j).Covers gsi → i = j

/-- One of the two registers of the entry for `irq`, in the controller that is responsible for
it. -/
def OwnRegister (irq : U8) (addr : U64) (number : U32) : Prop :=
  ∃ i : Fin 8, i.val < t.count ∧ (t.info i).Covers irq.toNat ∧ addr = (t.info i).addr ∧
    (number.toNat = 0x10 + 2 * (irq.toNat - (t.info i).gsiBase.toNat) ∨
      number.toNat = 0x10 + 2 * (irq.toNat - (t.info i).gsiBase.toNat) + 1)

/-- The only registers that are written are those of the entry of `irq`.  Hence none are written if
no controller is responsible for it. -/
def WritesOwn (irq : U8) (m : IoApicProgram Unit) : Prop :=
  ∀ mem, ∀ a ∈ (m mem).trace, a.kind = .write →
    ∀ addr number, a.addr = .register addr number → t.OwnRegister irq addr number

/-- **The operations touch only the entry of their interrupt.** -/
structure TouchesOwnEntry (irq : U8) : Prop where
  setup : ∀ lapicId vector, t.WritesOwn irq (t.setupIrq lapicId irq vector)
  mask : t.WritesOwn irq (t.maskIrq irq)
  unmask : t.WritesOwn irq (t.unmaskIrq irq)

/-! ## Looking for the controller -/

variable {t} {irq : U8}

lemma toNat_regBase (irq : U8) : (regBase irq).toNat = 0x10 + 2 * irq.toNat := by
  have := irq.isLt
  rw [regBase, BitVec.toNat_add, BitVec.toNat_mul, BitVec.toNat_setWidth, BitVec.toNat_ofNat,
    BitVec.toNat_ofNat]
  omega

lemma toNat_regBase_add_one (irq : U8) : (regBase irq + 1#32).toNat = 0x10 + 2 * irq.toNat + 1 := by
  have := irq.isLt
  rw [BitVec.toNat_add, toNat_regBase, BitVec.toNat_ofNat]
  omega

/-- What the loop tests. -/
lemma covers_iff (info : IoApicInfo) (irq : U8) :
    (decide (irq.setWidth 32 ≥ info.gsiBase) &&
      decide (irq.setWidth 32 ≤ info.gsiBase + info.maxRedir.setWidth 32)) = true ↔
        info.Covers irq.toNat := by
  have hirq := irq.isLt
  have hmax := info.maxRedir.isLt
  have hgsi : (irq.setWidth 32).toNat = irq.toNat := BitVec.toNat_setWidth_of_le (by decide)
  have hredir : (info.maxRedir.setWidth 32).toNat = info.maxRedir.toNat :=
    BitVec.toNat_setWidth_of_le (by decide)
  rw [Bool.and_eq_true, decide_eq_true_eq, decide_eq_true_eq, ge_iff_le, BitVec.le_def,
    BitVec.le_def, hgsi, BitVec.toNat_add, hredir, IoApicInfo.Covers]
  refine and_congr_right fun hbase => ?_
  rw [Nat.mod_eq_of_lt (by omega)]

lemma mem_take_finRange {i : Fin 8} {n : ℕ} : i ∈ (List.finRange 8).take n ↔ i.val < n := by
  rw [List.mem_take_iff_getElem]
  simp only [List.getElem_finRange, List.length_finRange]
  constructor
  · rintro ⟨k, hk, rfl⟩
    simp only [Fin.val_cast]
    omega
  · intro hi
    exact ⟨i.val, by omega, rfl⟩

/-- The controller that is found is in the table, unless it is empty, and it is responsible for the
interrupt, if any controller is. -/
lemma ioapicOf_spec (irq : U8) (hcount : 0 < t.count) :
    (t.ioapicOf irq).val < t.count ∧
      ∀ i : Fin 8, i.val < t.count → (t.info i).Covers irq.toNat →
        (t.info (t.ioapicOf irq)).Covers irq.toNat := by
  rw [ioapicOf, findIoapicByGsi]
  cases hfind : ((List.finRange 8).take t.count).find? fun i =>
      decide (irq.setWidth 32 ≥ (t.info i).gsiBase) &&
        decide (irq.setWidth 32 ≤ (t.info i).gsiBase + (t.info i).maxRedir.setWidth 32) with
  | none =>
    refine ⟨hcount, fun i hi hcovers => ?_⟩
    rw [List.find?_eq_none] at hfind
    exact absurd ((covers_iff _ _).mpr hcovers) (hfind i (mem_take_finRange.mpr hi))
  | some j =>
    have hmem := List.mem_of_find?_eq_some hfind
    have htest := List.find?_some hfind
    exact ⟨mem_take_finRange.mp hmem, fun _ _ _ => (covers_iff (t.info j) irq).mp htest⟩

/-! ## What is written -/

/-- Accesses that are permitted when `irq` has registers of its own. -/
def Own (t : IoApics) (irq : U8) (_ : Unit) (p : IoApicPort) : Prop :=
  ∀ addr number, p = .register addr number → t.OwnRegister irq addr number

section Confinement

variable {idx : Fin 8} {number : U32}

lemma own_select (addr : U64) : t.Own irq () (.select addr) := by
  intro addr number h
  cases h

lemma own_register {addr : U64} (h : t.OwnRegister irq addr number) :
    t.Own irq () (.register addr number) := by
  intro addr' number' heq
  cases heq
  exact h

lemma confined_write (h : t.OwnRegister irq (t.info idx).addr number) (value : U32) :
    (t.writeIoapicRegAt idx number value).Confined (t.Own irq) :=
  .bind (.store _ (own_select _)) fun _ => .store _ (own_register h)

lemma confined_modify (h : t.OwnRegister irq (t.info idx).addr number)
    (f : U32 → U32) : (t.modifyReg idx number f).Confined (t.Own irq) := by
  refine .bind (.bind (.store _ (own_select _)) fun _ => .load (own_register h)) fun val => ?_
  exact confined_write h (f val)

lemma WritesOwn.of_confined {m : IoApicProgram Unit} (h : m.Confined (t.Own irq)) :
    t.WritesOwn irq m := fun mem a ha _ => h mem a ha

lemma confined_withIoapic {body : Fin 8 → IoApicProgram Unit} (hbody : t.ioapicOf irq < t.count →
      (body (t.ioapicOf irq)).Confined (t.Own irq)) :
    (t.withIoapic irq body).Confined (t.Own irq) :=
  .ite (fun _ => .pure ()) fun hlt => hbody (Nat.lt_of_not_le hlt)

end Confinement

/-- **If the registers that are used are those of the interrupt**, nothing else is touched. -/
lemma touchesOwnEntry_of_own (h : (t.ioapicOf irq).val < t.count →
      t.OwnRegister irq (t.info (t.ioapicOf irq)).addr (regBase irq) ∧
        t.OwnRegister irq (t.info (t.ioapicOf irq)).addr (regBase irq + 1#32)) :
    t.TouchesOwnEntry irq := by
  refine ⟨fun lapicId vector => ?_, ?_, ?_⟩
  · refine .of_confined (confined_withIoapic fun hlt => ?_)
    exact .bind (confined_write (h hlt).1 _) fun _ => confined_write (h hlt).2 _
  · exact .of_confined (confined_withIoapic fun hlt => confined_modify (h hlt).1 _)
  · exact .of_confined (confined_withIoapic fun hlt => confined_modify (h hlt).1 _)

/-- The first register that `setup_irq` writes. -/
lemma own_of_touchesOwnEntry (h : t.TouchesOwnEntry irq) (hlt : (t.ioapicOf irq).val < t.count) :
    t.OwnRegister irq (t.info (t.ioapicOf irq)).addr (regBase irq) := by
  have hsetup := h.setup 0#8 0#8 (fun _ => 0#32)
  rw [setupIrq, withIoapic, if_neg (Nat.not_le_of_lt hlt)] at hsetup
  exact hsetup ⟨(), .write, .register _ (regBase irq)⟩ (.tail _ (.head _)) rfl _ _ rfl

end IoApics

/-- **When only the entry of the interrupt is touched.**  An interrupt has to belong to a controller
whose range begins at 0, or there has to be no controller. -/
theorem touchesOwnEntry_iff {t : IoApics} (hranges : t.DisjointRanges) (irq : U8) :
    t.TouchesOwnEntry irq ↔
      t.count = 0 ∨ ∃ i : Fin 8, i.val < t.count ∧ (t.info i).gsiBase = 0#32 ∧
        irq.toNat ≤ (t.info i).maxRedir.toNat := by
  constructor
  · intro h
    rcases Nat.eq_zero_or_pos t.count with hzero | hpos
    · exact .inl hzero
    · obtain ⟨i, hi, hcovers, -, hnumber⟩ :=
        IoApics.own_of_touchesOwnEntry h (IoApics.ioapicOf_spec irq hpos).1
      rw [IoApics.toNat_regBase] at hnumber
      have hbase : (t.info i).gsiBase.toNat = 0 := by
        have := hcovers.1
        omega
      refine .inr ⟨i, hi, BitVec.eq_of_toNat_eq hbase, ?_⟩
      have := hcovers.2
      omega
  · rintro (hzero | ⟨i, hi, hbase, hmax⟩)
    · exact IoApics.touchesOwnEntry_of_own fun hlt => absurd hlt (by omega)
    · have hzero : (t.info i).gsiBase.toNat = 0 := by rw [hbase]; rfl
      have hcovers : (t.info i).Covers irq.toNat := ⟨by omega, by omega⟩
      obtain ⟨hfound, hfits⟩ := IoApics.ioapicOf_spec irq (Nat.zero_lt_of_lt hi)
      have hsame := hranges _ i hfound hi _ (hfits i hi hcovers) hcovers
      refine IoApics.touchesOwnEntry_of_own fun _ => ?_
      rw [hsame]
      refine ⟨⟨i, hi, hcovers, rfl, .inl ?_⟩, ⟨i, hi, hcovers, rfl, .inr ?_⟩⟩
      · rw [IoApics.toNat_regBase, hzero, Nat.sub_zero]
      · rw [IoApics.toNat_regBase_add_one, hzero, Nat.sub_zero]

/-- Two controllers with 24 interrupts each. -/
def twoIoApics : IoApics where
  info i := if i.val = 0 then ⟨0xFEC00000#64, 0#32, 23#8⟩ else ⟨0xFEC01000#64, 24#32, 23#8⟩
  count := 2
  count_le := by decide

lemma twoIoApics_disjointRanges : twoIoApics.DisjointRanges := by
  intro i j hi hj gsi hcovers hcovers'
  simp only [twoIoApics, IoApicInfo.Covers] at hi hj hcovers hcovers'
  refine Fin.ext ?_
  split_ifs at hcovers hcovers' with h h' h' <;> simp at hcovers hcovers' <;> omega

/-- The interrupts of the first controller. -/
theorem touchesOwnEntry_first_range : twoIoApics.TouchesOwnEntry 23#8 :=
  (touchesOwnEntry_iff twoIoApics_disjointRanges 23#8).mpr
    (.inr ⟨0, by decide, by decide, by decide⟩)

/-- **An interrupt of the second controller**: 30 is the seventh, with the registers `0x1C` and
`0x1D`, but `0x4C` is written.  Interrupt 100 belongs to neither, and a register of the first one is
written. -/
theorem maskIrq_wrong_register :
    ⟨(), .write, .register 0xFEC01000#64 0x4C#32⟩ ∈
        (twoIoApics.maskIrq 30#8 fun _ => 0#32).trace ∧
      ¬ twoIoApics.TouchesOwnEntry 30#8 ∧
      ⟨(), .write, .register 0xFEC00000#64 0xD8#32⟩ ∈
        (twoIoApics.maskIrq 100#8 fun _ => 0#32).trace ∧
      ¬ twoIoApics.TouchesOwnEntry 100#8 := by
  have hsecond : ⟨(), .write, .register 0xFEC01000#64 0x4C#32⟩ ∈
      (twoIoApics.maskIrq 30#8 fun _ => 0#32).trace := by decide
  have hnone : ⟨(), .write, .register 0xFEC00000#64 0xD8#32⟩ ∈
      (twoIoApics.maskIrq 100#8 fun _ => 0#32).trace := by decide
  refine ⟨hsecond, fun h => ?_, hnone, fun h => ?_⟩
  · obtain ⟨i, hi, hcovers, -, hnumber⟩ := h.mask _ _ hsecond rfl _ _ rfl
    simp only [twoIoApics, IoApicInfo.Covers] at hi hcovers hnumber
    split_ifs at hcovers hnumber <;> simp at hcovers hnumber
  · obtain ⟨i, hi, hcovers, -⟩ := h.mask _ _ hnone rfl _ _ rfl
    simp only [twoIoApics, IoApicInfo.Covers] at hi hcovers
    split_ifs at hcovers <;> simp at hcovers

end Masika
