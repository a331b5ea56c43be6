import Masika.Core.BitFields
import Masika.Core.Runs
import Masika.Irq.IoApic

/-!
# The settings of an interrupt

The redirection entry of an interrupt holds its mask, trigger mode, polarity, delivery mode and
destination mode in the low word, and the destination in the high word.  Each has an operation of
its own, most of which read the low word, change one bit and write it back.  So the settings should
be independent: each is what it was set to last (`SettingsIndependent`).

They are, but for two operations (`settingsIndependent_iff`).

* `route_irq_to_cpu` does not only set the destination: it writes a new low word, in which all other
  settings are 0.  In particular it unmasks the interrupt.
* `configure_irq_delivery_mode` stores three bits of its argument.
-/

namespace Masika

/-! ## The operations -/

namespace IoApics

variable (t : IoApics)

/-- Write both words of an entry of the first I/O APIC. -/
def routeIrqToCpu (irq cpuId : U8) : IoApicProgram Unit := do
  t.writeIoapicRegAt firstIoapic (regBase irq) ((0x20#32 + irq.setWidth 32) &&& 0xFF#32)
  t.writeIoapicRegAt firstIoapic (regBase irq + 1#32) ((cpuId.setWidth 32 <<< 24) &&& 0xFF000000#32)

/-- Bit 15. -/
def configureIrqTriggerMode (irq : U8) (levelTriggered : Bool) : IoApicProgram Unit :=
  t.modifyReg firstIoapic (regBase irq) (putBit 15 levelTriggered)

/-- Bit 13. -/
def configureIrqPolarity (irq : U8) (activeLow : Bool) : IoApicProgram Unit :=
  t.modifyReg firstIoapic (regBase irq) (putBit 13 activeLow)

/-- Bits 8 to 10. -/
def configureIrqDeliveryMode (irq mode : U8) : IoApicProgram Unit :=
  t.modifyReg firstIoapic (regBase irq) (putField 8 3 (mode.setWidth 32))

/-- Both words. -/
def readIrqEntry (irq : U8) : IoApicProgram (U32 × U32) := do
  let lo ← t.readIoapicRegAt firstIoapic (regBase irq)
  let hi ← t.readIoapicRegAt firstIoapic (regBase irq + 1#32)
  pure (lo, hi)

/-- Bit 16. -/
def setIrqMask (irq : U8) (masked : Bool) : IoApicProgram Unit :=
  t.modifyReg firstIoapic (regBase irq) (putBit 16 masked)

/-- Bit 11. -/
def configureIrqDestinationMode (irq : U8) (logical : Bool) : IoApicProgram Unit :=
  t.modifyReg firstIoapic (regBase irq) (putBit 11 logical)

end IoApics

/-- An interrupt of the first controller, which is the one whose table the operations use. -/
@[ext] structure ValidIrq (t : IoApics) where
  val : U8
  count_pos : 0 < t.count
  covered : (t.info firstIoapic).Covers val.toNat
deriving DecidableEq

/-- What an operation does to an interrupt. -/
inductive RouteOp where
  | maskIrq
  | unmaskIrq
  | setIrqMask (masked : Bool)
  | configureIrqTriggerMode (levelTriggered : Bool)
  | configureIrqPolarity (activeLow : Bool)
  | configureIrqDeliveryMode (mode : U8)
  | configureIrqDestinationMode (logical : Bool)
  | routeIrqToCpu (cpuId : U8)
deriving DecidableEq, Repr

/-- An operation on a valid interrupt. -/
structure RouteCall (t : IoApics) where
  irq : ValidIrq t
  op : RouteOp

/-- The function that is called. -/
def RouteCall.program {t : IoApics} (call : RouteCall t) : IoApicProgram Unit :=
  match call.op with
  | .maskIrq => t.maskIrq call.irq.val
  | .unmaskIrq => t.unmaskIrq call.irq.val
  | .setIrqMask masked => t.setIrqMask call.irq.val masked
  | .configureIrqTriggerMode level => t.configureIrqTriggerMode call.irq.val level
  | .configureIrqPolarity low => t.configureIrqPolarity call.irq.val low
  | .configureIrqDeliveryMode mode => t.configureIrqDeliveryMode call.irq.val mode
  | .configureIrqDestinationMode logical => t.configureIrqDestinationMode call.irq.val logical
  | .routeIrqToCpu cpu => t.routeIrqToCpu call.irq.val cpu

/-- The contents of all registers. -/
abbrev IoApicMemory := IoApicPort → U32

/-- One call. -/
def routeStep {t : IoApics} (mem : IoApicMemory) (call : RouteCall t) : Option IoApicMemory :=
  some (call.program mem).mem

/-! ## Settings -/

/-- The settings in an entry. -/
structure IrqSettings where
  masked : Bool
  levelTriggered : Bool
  activeLow : Bool
  deliveryMode : U8
  logical : Bool
  cpu : U8
deriving DecidableEq, Repr

/-- The settings in an entry. -/
def decodeEntry (entry : U32 × U32) : IrqSettings where
  masked := entry.1.getLsbD 16
  levelTriggered := entry.1.getLsbD 15
  activeLow := entry.1.getLsbD 13
  deliveryMode := (entry.1.extractLsb' 8 3).setWidth 8
  logical := entry.1.getLsbD 11
  cpu := entry.2.extractLsb' 24 8

/-- The setting that an operation is for. -/
def RouteOp.set (s : IrqSettings) : RouteOp → IrqSettings
  | .maskIrq => { s with masked := true }
  | .unmaskIrq => { s with masked := false }
  | .setIrqMask masked => { s with masked := masked }
  | .configureIrqTriggerMode level => { s with levelTriggered := level }
  | .configureIrqPolarity low => { s with activeLow := low }
  | .configureIrqDeliveryMode mode => { s with deliveryMode := mode }
  | .configureIrqDestinationMode logical => { s with logical := logical }
  | .routeIrqToCpu cpu => { s with cpu := cpu }

section Settings

variable {t : IoApics}

/-- One more setting. -/
def settingStep (settings : ValidIrq t → IrqSettings) (call : RouteCall t) :
    ValidIrq t → IrqSettings :=
  Function.update settings call.irq (call.op.set (settings call.irq))

/-- `read_irq_entry` shows the settings. -/
def Shown (mem : IoApicMemory) (settings : ValidIrq t → IrqSettings) : Prop :=
  ∀ irq, ∃ entry, (t.readIrqEntry irq.val mem).result = .ok entry ∧
    decodeEntry entry = settings irq

/-- The two registers of an interrupt in the table of the first controller. -/
def entryOf (t : IoApics) (mem : IoApicMemory) (irq : U8) : U32 × U32 :=
  (mem (.register (t.info firstIoapic).addr (regBase irq)),
    mem (.register (t.info firstIoapic).addr (regBase irq + 1#32)))

/-- **Settings are independent**: at every point of the sequence, each is what it was set to last,
or what it was in the beginning; and an operation on one interrupt leaves the entries of all others
as they are. -/
structure SettingsIndependent (mem : IoApicMemory) (calls : List (RouteCall t)) : Prop where
  follows : Follows Shown routeStep settingStep mem
    (fun irq => decodeEntry (entryOf t mem irq.val)) calls
  apart : ∀ call ∈ calls, ∀ mem irq, irq ≠ call.irq.val →
    (t.readIrqEntry irq (call.program mem).mem).result = (t.readIrqEntry irq mem).result

/-- All settings but the destination are 0. -/
def IrqSettings.Cleared (s : IrqSettings) : Prop :=
  s.masked = false ∧ s.levelTriggered = false ∧ s.activeLow = false ∧ s.deliveryMode = 0#8 ∧
    s.logical = false

/-- The operation changes no other setting, of those that `s` shows, and stores its own. -/
def RouteOp.Harmless (s : IrqSettings) : RouteOp → Prop
  | .routeIrqToCpu _ => s.Cleared
  | .configureIrqDeliveryMode mode => mode.toNat < 8
  | _ => True

/-! ## Entries -/

/-- What an operation does to the entry. -/
def RouteOp.onEntry (irq : U8) (entry : U32 × U32) :
    RouteOp → U32 × U32
  | .maskIrq => (putBit 16 true entry.1, entry.2)
  | .unmaskIrq => (putBit 16 false entry.1, entry.2)
  | .setIrqMask masked => (putBit 16 masked entry.1, entry.2)
  | .configureIrqTriggerMode level => (putBit 15 level entry.1, entry.2)
  | .configureIrqPolarity low => (putBit 13 low entry.1, entry.2)
  | .configureIrqDeliveryMode mode => (putField 8 3 (mode.setWidth 32) entry.1, entry.2)
  | .configureIrqDestinationMode logical => (putBit 11 logical entry.1, entry.2)
  | .routeIrqToCpu cpu =>
    ((0x20#32 + irq.setWidth 32) &&& 0xFF#32, (cpu.setWidth 32 <<< 24) &&& 0xFF000000#32)

lemma readIrqEntry_result (mem : IoApicMemory) (irq : U8) :
    (t.readIrqEntry irq mem).result = .ok (entryOf t mem irq) := rfl

lemma shown_iff {mem : IoApicMemory} {settings : ValidIrq t → IrqSettings} :
    Shown mem settings ↔ ∀ irq, decodeEntry (entryOf t mem irq.val) = settings irq := by
  simp [Shown, readIrqEntry_result]

lemma regBase_inj {i j : U8} : regBase i = regBase j ↔ i = j := by
  rw [← BitVec.toNat_inj, ← BitVec.toNat_inj, IoApics.toNat_regBase, IoApics.toNat_regBase]
  omega

/-- The first register of one interrupt is not the second of another. -/
lemma regBase_ne_add_one (i j : U8) : regBase i ≠ regBase j + 1#32 := by
  rw [Ne, ← BitVec.toNat_inj, IoApics.toNat_regBase, IoApics.toNat_regBase_add_one]
  omega

lemma entryOf_write_low (mem : IoApicMemory) (irq j : U8) (value : U32) :
    entryOf t (t.writeIoapicRegAt firstIoapic (regBase irq) value mem).mem j =
      if j = irq then (value, (entryOf t mem j).2) else entryOf t mem j := by
  change entryOf t (Function.update (Function.update mem _ _) _ _) j = _
  split_ifs with hj
  · simp [entryOf, hj, (regBase_ne_add_one irq irq).symm]
  · simp [entryOf, regBase_inj, hj, (regBase_ne_add_one irq j).symm]

lemma entryOf_write_high (mem : IoApicMemory) (irq j : U8) (value : U32) :
    entryOf t (t.writeIoapicRegAt firstIoapic (regBase irq + 1#32) value mem).mem j =
      if j = irq then ((entryOf t mem j).1, value) else entryOf t mem j := by
  change entryOf t (Function.update (Function.update mem _ _) _ _) j = _
  split_ifs with hj
  · simp [entryOf, hj, regBase_ne_add_one irq irq]
  · simp [entryOf, regBase_inj, hj, regBase_ne_add_one j irq]

/-- **The operations that change the low word.** -/
lemma entryOf_modify (mem : IoApicMemory) (irq j : U8) (f : U32 → U32) :
    entryOf t (t.modifyReg firstIoapic (regBase irq) f mem).mem j =
      if j = irq then (f (entryOf t mem j).1, (entryOf t mem j).2) else entryOf t mem j := by
  change entryOf t (t.writeIoapicRegAt firstIoapic (regBase irq) (f (mem _))
    (Function.update mem _ _)).mem j = _
  rw [entryOf_write_low]
  split_ifs with hj
  · subst hj
    rfl
  · rfl

/-- The first controller is found for its interrupts. -/
lemma ioapicOf_valid (irq : ValidIrq t) : t.ioapicOf irq.val = firstIoapic := by
  obtain ⟨n, hn⟩ := Nat.exists_eq_succ_of_ne_zero irq.count_pos.ne'
  have hlist : (List.finRange 8).take t.count =
      firstIoapic :: ((List.finRange 7).map Fin.succ).take n := by
    rw [hn, List.finRange_succ, List.take_succ_cons]
    rfl
  rw [IoApics.ioapicOf, IoApics.findIoapicByGsi, hlist, List.find?_cons,
    (IoApics.covers_iff (t.info firstIoapic) irq.val).mpr irq.covered]
  rfl

lemma withIoapic_valid (irq : ValidIrq t) (body : Fin 8 → IoApicProgram Unit) :
    t.withIoapic irq.val body = body firstIoapic := by
  have hlt : ¬ firstIoapic.val ≥ t.count := Nat.not_le_of_lt irq.count_pos
  rw [IoApics.withIoapic, ioapicOf_valid, if_neg hlt]

/-- **What one operation does to all entries.** -/
lemma entryOf_program (call : RouteCall t) (mem : IoApicMemory) (j : U8) :
    entryOf t (call.program mem).mem j =
      if j = call.irq.val then call.op.onEntry j (entryOf t mem j) else entryOf t mem j := by
  obtain ⟨irq, op⟩ := call
  cases op with
  | maskIrq =>
    simp only [RouteCall.program, IoApics.maskIrq, withIoapic_valid]
    exact entryOf_modify mem irq.val j _
  | unmaskIrq =>
    simp only [RouteCall.program, IoApics.unmaskIrq, withIoapic_valid]
    exact entryOf_modify mem irq.val j _
  | routeIrqToCpu cpu =>
    change entryOf t (t.writeIoapicRegAt firstIoapic (regBase irq.val + 1#32) _
      (t.writeIoapicRegAt firstIoapic (regBase irq.val) _ mem).mem).mem j = _
    rw [entryOf_write_high, entryOf_write_low]
    split_ifs with hj
    · subst hj
      rfl
    · rfl
  | _ => exact entryOf_modify mem irq.val j _

/-! ## Settings in an entry -/

lemma decodeEntry_putBit {k : ℕ} (hk : k < 32) (hout : k < 8 ∨ 8 + 3 ≤ k) (b : Bool)
    (entry : U32 × U32) :
    decodeEntry (putBit k b entry.1, entry.2) =
      { decodeEntry entry with
        masked := if 16 = k then b else (decodeEntry entry).masked
        levelTriggered := if 15 = k then b else (decodeEntry entry).levelTriggered
        activeLow := if 13 = k then b else (decodeEntry entry).activeLow
        logical := if 11 = k then b else (decodeEntry entry).logical } := by
  simp only [decodeEntry, getLsbD_putBit hk, extractLsb'_putBit hk hout]

lemma decodeEntry_deliveryMode (mode : U8) (entry : U32 × U32) :
    decodeEntry (putField 8 3 (mode.setWidth 32) entry.1, entry.2) =
      { decodeEntry entry with deliveryMode := (mode.extractLsb' 0 3).setWidth 8 } := by
  have hfield : (putField 8 3 (mode.setWidth 32) entry.1).extractLsb' 8 3 =
      mode.extractLsb' 0 3 := by
    refine BitVec.eq_of_getLsbD_eq fun i hi => ?_
    rw [BitVec.getLsbD_extractLsb', BitVec.getLsbD_extractLsb', getLsbD_putField (by decide),
      if_pos (by omega), BitVec.getLsbD_setWidth]
    simp only [Nat.add_sub_cancel_left, Nat.zero_add]
    have hlt : i < 32 := by omega
    simp [hlt]
  have hbits : ∀ j, 8 + 3 ≤ j →
      (putField 8 3 (mode.setWidth 32) entry.1).getLsbD j = entry.1.getLsbD j := by
    intro j hj
    rw [getLsbD_putField (by decide), if_neg (by omega)]
  simp only [decodeEntry, hfield, hbits 16 (by decide), hbits 15 (by decide), hbits 13 (by decide),
    hbits 11 (by decide)]

lemma setWidth_extract_eq_iff (mode : U8) :
    (mode.extractLsb' 0 3).setWidth 8 = mode ↔ mode.toNat < 8 := by
  rw [← BitVec.toNat_inj, BitVec.toNat_setWidth_of_le (by decide), BitVec.extractLsb'_toNat,
    Nat.shiftRight_zero]
  omega

/-- A new low word and a new destination. -/
lemma decodeEntry_route (irq cpu : U8) :
    decodeEntry ((0x20#32 + irq.setWidth 32) &&& 0xFF#32,
      (cpu.setWidth 32 <<< 24) &&& 0xFF000000#32) = ⟨false, false, false, 0#8, false, cpu⟩ := by
  have hfield : ((0x20#32 + irq.setWidth 32) &&& 0xFF#32).extractLsb' 8 3 = 0#3 := by
    have hmask : (0xFF#32).extractLsb' 8 3 = 0#3 := by decide
    rw [BitVec.extractLsb'_and, hmask, BitVec.and_zero]
  have hcpu : ((cpu.setWidth 32 <<< 24) &&& 0xFF000000#32).extractLsb' 24 8 = cpu := by
    have hmask : (0xFF000000#32).extractLsb' 24 8 = BitVec.allOnes 8 := by decide
    rw [BitVec.extractLsb'_and, hmask, BitVec.and_allOnes]
    refine BitVec.eq_of_getLsbD_eq fun i hi => ?_
    have hlt : 24 + i < 32 := by omega
    simp [hi, hlt]
  simp [decodeEntry, hfield, hcpu]

/-- **Which operations change only their own setting**, and store it. -/
lemma harmless_iff (irq : U8) (entry : U32 × U32) (op : RouteOp) :
    op.Harmless (decodeEntry entry) ↔
      decodeEntry (op.onEntry irq entry) = op.set (decodeEntry entry) := by
  cases op with
  | configureIrqDeliveryMode mode =>
    rw [RouteOp.onEntry, decodeEntry_deliveryMode, RouteOp.set, RouteOp.Harmless,
      ← setWidth_extract_eq_iff, IrqSettings.mk.injEq]
    simp
  | routeIrqToCpu cpu =>
    rw [RouteOp.onEntry, decodeEntry_route, RouteOp.set, RouteOp.Harmless, IrqSettings.Cleared,
      @eq_comm IrqSettings, IrqSettings.mk.injEq]
    simp
  | _ =>
    refine iff_of_true trivial ?_
    rw [RouteOp.onEntry, decodeEntry_putBit (by decide) (by decide)]
    rfl

/-- One operation, as a step. -/
lemma harmless_iff_shown {mem : IoApicMemory} {settings : ValidIrq t → IrqSettings}
    (h : Shown mem settings) (call : RouteCall t) :
    call.op.Harmless (settings call.irq) ↔
      ∃ mem', routeStep mem call = some mem' ∧ Shown mem' (settingStep settings call) := by
  rw [shown_iff] at h
  simp only [routeStep, Option.some.injEq, exists_eq_left', shown_iff, entryOf_program, settingStep]
  rw [← h call.irq, harmless_iff call.irq.val]
  constructor
  · intro hop irq
    by_cases hirq : irq = call.irq
    · subst hirq
      rw [if_pos rfl, Function.update_self, hop]
    · rw [if_neg fun hval => hirq (ValidIrq.ext hval), Function.update_of_ne hirq]
      exact h irq
  · intro hall
    have hown := hall call.irq
    rwa [if_pos rfl, Function.update_self] at hown

end Settings

/-- **When settings are independent**, whatever the table contains in the beginning. -/
theorem settingsIndependent_iff {t : IoApics} (mem : IoApicMemory) (calls : List (RouteCall t)) :
    SettingsIndependent mem calls ↔
      EachMeets (fun settings call => call.op.Harmless (settings call.irq)) settingStep
        (fun irq => decodeEntry (entryOf t mem irq.val)) calls := by
  have hstart : Shown mem fun irq : ValidIrq t => decodeEntry (entryOf t mem irq.val) :=
    shown_iff.mpr fun _ => rfl
  have hexact : ∀ call ∈ calls, ∀ (mem : IoApicMemory) (settings : ValidIrq t → IrqSettings),
      Shown mem settings → (call.op.Harmless (settings call.irq) ↔
        ∃ mem', routeStep mem call = some mem' ∧ Shown mem' (settingStep settings call)) :=
    fun call _ _ _ h => harmless_iff_shown h call
  rw [← follows_iff_eachMeets hexact hstart]
  constructor
  · intro h
    exact h.follows
  · intro h
    refine ⟨h, fun call _ mem irq hirq => ?_⟩
    rw [readIrqEntry_result, readIrqEntry_result, entryOf_program, if_neg hirq]

/-- Controllers of which the first has 24 interrupts. -/
def oneIoApic : IoApics where
  info _ := ⟨0xFEC00000#64, 0#32, 23#8⟩
  count := 1
  count_le := by decide

/-- IRQ 5. -/
def fifthIrq : ValidIrq oneIoApic := ⟨5#8, by decide, by decide, by decide⟩

/-- **Routing an interrupt unmasks it.** -/
theorem routing_unmasks :
    (oneIoApic.readIrqEntry 5#8 ((oneIoApic.routeIrqToCpu 5#8 1#8)
        ((oneIoApic.maskIrq 5#8) fun _ => 0#32).mem).mem).result = .ok (0x25#32, 0x1000000#32) ∧
      ¬ SettingsIndependent (fun _ => 0#32)
        [⟨fifthIrq, .maskIrq⟩, ⟨fifthIrq, .routeIrqToCpu 1#8⟩] := by
  refine ⟨by decide, fun h => ?_⟩
  obtain ⟨mem, hmem, hshown⟩ := h.follows _ List.prefix_rfl
  obtain rfl := Option.some.inj hmem
  obtain ⟨entry, hentry, hdecode⟩ := hshown fifthIrq
  obtain rfl := Except.ok.inj hentry
  exact absurd (congrArg IrqSettings.masked hdecode) (by decide)

end Masika
