import Mathlib.Data.List.Basic
import Masika.Core.Runs
import Masika.Core.Usize

/-!
# Interrupt handlers and the interrupt controller

`handle_irq` of `irq/handler.rs` calls the registered handler of an interrupt, or the default one,
and then acknowledges the interrupt: command `0x20` to port `0x20`, and before that to port `0xA0`
for the interrupts of the second controller.  The default handlers acknowledge as well.

The state is the table of handlers, the interrupt counters and the port writes so far; which
interrupts were handled, and which of them by default, is kept beside it.  `run_commands` counts the
commands of every run exactly: there is one too many for each interrupt that had no registered
handler.  `eoi_exact_iff` is the consequence for the acknowledgement protocol.
-/

namespace Masika

/-- `outb(port, value)`. -/
structure Outb where
  port : U16
  value : U8
  deriving DecidableEq, Repr

/-- How many end-of-interrupt commands are written to a port. -/
def commands (port : U16) (writes : List Outb) : ℕ :=
  writes.countP fun w => w.port == port && w.value == 0x20#8

/-! ## The handlers -/

/-- The body of fifteen of the default handlers, and of the last arm of `default_irq_handler`. -/
def ackMaster : List Outb := [⟨0x20#16, 0x20#8⟩]

/-- IRQ 0. -/
def handleTimer : List Outb := ackMaster

/-- IRQ 1. -/
def handleKeyboard : List Outb := ackMaster

/-- IRQ 2. -/
def handleCascade : List Outb := ackMaster

/-- IRQ 3. -/
def handleCom2 : List Outb := ackMaster

/-- IRQ 4. -/
def handleCom1 : List Outb := ackMaster

/-- IRQ 5. -/
def handleLpt2 : List Outb := ackMaster

/-- IRQ 6. -/
def handleFloppy : List Outb := ackMaster

/-- IRQ 7. -/
def handleLpt1 : List Outb := ackMaster

/-- IRQ 8. -/
def handleRtc : List Outb := ackMaster

/-- IRQ 9. -/
def handlePci1 : List Outb := ackMaster

/-- IRQ 10. -/
def handlePci2 : List Outb := ackMaster

/-- IRQ 11. -/
def handlePci3 : List Outb := ackMaster

/-- IRQ 13. -/
def handleFpu : List Outb := ackMaster

/-- IRQ 14. -/
def handleIde1 : List Outb := ackMaster

/-- IRQ 15. -/
def handleIde2 : List Outb := ackMaster

/-- The only default handler that acknowledges to the second controller, too. -/
def handleMouse : List Outb := [⟨0x20#16, 0x20#8⟩, ⟨0xA0#16, 0x20#8⟩]

/-- The handler of a vector. -/
def defaultIrqHandler (irq : U8) : List Outb :=
  match irq.toNat with
  | 32 => handleTimer
  | 33 => handleKeyboard
  | 34 => handleCascade
  | 35 => handleCom2
  | 36 => handleCom1
  | 37 => handleLpt2
  | 38 => handleFloppy
  | 39 => handleLpt1
  | 40 => handleRtc
  | 41 => handlePci1
  | 42 => handlePci2
  | 43 => handlePci3
  | 44 => handleMouse
  | 45 => handleFpu
  | 46 => handleIde1
  | 47 => handleIde2
  | _ => ackMaster

/-- A registered handler, as the port writes it makes.  It leaves the command ports of the two
controllers alone. -/
structure IrqHandler where
  handler : U8 → List Outb
  quiet : ∀ irq, ∀ w ∈ handler irq, w.port ≠ 0x20#16 ∧ w.port ≠ 0xA0#16

/-- The writes that `handle_irq` ends with. -/
def eoiIrq (irq : U8) : List Outb :=
  (if 40 ≤ irq.toNat then [⟨0xA0#16, 0x20#8⟩] else []) ++ [⟨0x20#16, 0x20#8⟩]

/-- Counters, handlers and what was written to ports. -/
structure IrqState where
  irqCounts : U8 → U32
  handlers : U8 → Option IrqHandler
  writes : List Outb
  /-- the interrupts handled so far -/
  handled : List U8
  /-- those of them that had no registered handler -/
  defaulted : List U8

namespace IrqState

/-- Nothing has happened yet; some handlers may be registered. -/
def start (handlers : U8 → Option IrqHandler) : IrqState :=
  ⟨fun _ => 0#32, handlers, [], [], []⟩

/-- Count, and call the handler. -/
def handleIrq (s : IrqState) (irq : U8) : IrqState :=
  { s with
    irqCounts := Function.update s.irqCounts irq (s.irqCounts irq + 1#32)
    writes := s.writes ++
      (match s.handlers irq with
        | some info => info.handler irq
        | none => defaultIrqHandler irq) ++ eoiIrq irq
    handled := s.handled ++ [irq]
    defaulted := match s.handlers irq with
      | some _ => s.defaulted
      | none => s.defaulted ++ [irq] }

/-- Store a handler. -/
def registerHandler (s : IrqState) (irq : U8) (handler : IrqHandler) : IrqState :=
  { s with handlers := Function.update s.handlers irq (some handler) }

/-- Remove a handler. -/
def unregisterHandler (s : IrqState) (irq : U8) : IrqState :=
  { s with handlers := Function.update s.handlers irq none }

/-- The counter of a vector. -/
def getIrqCount (s : IrqState) (irq : U8) : U32 := s.irqCounts irq

end IrqState

/-- The sixteen interrupts of the two controllers. -/
abbrev IrqLine := { irq : U8 // 32 ≤ irq.toNat ∧ irq.toNat ≤ 47 }

/-- Interrupts, and calls. -/
inductive IrqEvent where
  | handle (irq : IrqLine)
  | register (irq : U8) (handler : IrqHandler)
  | unregister (irq : U8)

/-- One event. -/
def irqEvent (s : IrqState) : IrqEvent → Option IrqState
  | .handle irq => some (s.handleIrq irq.val)
  | .register irq handler => some (s.registerHandler irq handler)
  | .unregister irq => some (s.unregisterHandler irq)

/-! ## Commands of one call -/

@[simp] lemma commands_nil (port : U16) : commands port [] = 0 := rfl

@[simp] lemma commands_append (port : U16) (ws vs : List Outb) :
    commands port (ws ++ vs) = commands port ws + commands port vs := List.countP_append

lemma IrqHandler.commands_eq_zero (info : IrqHandler) (irq : U8) {port : U16}
    (hport : port = 0x20#16 ∨ port = 0xA0#16) : commands port (info.handler irq) = 0 := by
  refine List.countP_eq_zero.mpr fun w hw hcommand => ?_
  obtain ⟨h20, hA0⟩ := info.quiet irq w hw
  rw [Bool.and_eq_true, beq_iff_eq] at hcommand
  rcases hport with rfl | rfl
  · exact h20 hcommand.1
  · exact hA0 hcommand.1

/-- Every default handler acknowledges to the first controller, once. -/
lemma commands_defaultIrqHandler_master (irq : U8) :
    commands 0x20#16 (defaultIrqHandler irq) = 1 := by
  rw [defaultIrqHandler]
  split <;> rfl

/-- Only the handler of the mouse acknowledges to the second. -/
lemma commands_defaultIrqHandler_slave (irq : U8) :
    commands 0xA0#16 (defaultIrqHandler irq) = if irq = 44#8 then 1 else 0 := by
  have hmouse : irq = 44#8 ↔ irq.toNat = 44 := by rw [← BitVec.toNat_inj]; rfl
  rw [defaultIrqHandler]
  simp only [hmouse]
  split <;> simp_all <;> rfl

lemma commands_eoiIrq_master (irq : U8) : commands 0x20#16 (eoiIrq irq) = 1 := by
  rw [eoiIrq]
  split_ifs <;> rfl

lemma commands_eoiIrq_slave (irq : U8) :
    commands 0xA0#16 (eoiIrq irq) = if 40 ≤ irq.toNat then 1 else 0 := by
  rw [eoiIrq]
  split_ifs <;> rfl

/-! ## Commands of a run -/

/-- The books of a run: every handled interrupt accounts for one acknowledgement, every default
handler for another one, and the counters count. -/
structure Tallied (s : IrqState) : Prop where
  master : commands 0x20#16 s.writes = s.handled.length + s.defaulted.length
  slave : commands 0xA0#16 s.writes
    = s.handled.countP (fun irq => 40 ≤ irq.toNat) + s.defaulted.count 44#8
  counts : ∀ irq, s.getIrqCount irq = BitVec.ofNat 32 (s.handled.count irq)

variable {s s' : IrqState}

/-- One interrupt is counted once, with or without a handler. -/
lemma Tallied.counts_handleIrq (h : Tallied s) (irq irq' : U8) :
    (s.handleIrq irq).getIrqCount irq'
      = BitVec.ofNat 32 ((s.handleIrq irq).handled.count irq') := by
  simp only [IrqState.getIrqCount, IrqState.handleIrq, List.count_append, List.count_singleton,
    Function.update_apply]
  have hcount := h.counts irq'
  rw [IrqState.getIrqCount] at hcount
  by_cases heq : irq' = irq
  · subst heq
    simp [hcount, BitVec.ofNat_add]
  · have hne : ¬ irq = irq' := fun h => heq h.symm
    simp [heq, hne, hcount]

lemma Tallied.handleIrq (h : Tallied s) (irq : U8) : Tallied (s.handleIrq irq) := by
  have hmaster := h.master
  have hslave := h.slave
  refine ⟨?_, ?_, h.counts_handleIrq irq⟩
  · simp only [IrqState.handleIrq, commands_append, commands_eoiIrq_master, List.length_append,
      List.length_singleton]
    cases s.handlers irq with
    | some info =>
      simp only [info.commands_eq_zero irq (.inl rfl)]
      omega
    | none =>
      simp only [commands_defaultIrqHandler_master, List.length_append, List.length_singleton]
      omega
  · simp only [IrqState.handleIrq, commands_append, commands_eoiIrq_slave, List.countP_append,
      List.countP_singleton, decide_eq_true_eq]
    cases s.handlers irq with
    | some info =>
      simp only [info.commands_eq_zero irq (.inr rfl)]
      omega
    | none =>
      simp only [commands_defaultIrqHandler_slave, List.count_append, List.count_singleton,
        beq_iff_eq]
      omega

lemma Tallied.step {event : IrqEvent} (h : Tallied s) (hstep : irqEvent s event = some s') :
    Tallied s' := by
  cases event with
  | handle irq =>
    rw [← Option.some.inj hstep]
    exact h.handleIrq irq.val
  | register irq handler =>
    rw [← Option.some.inj hstep]
    exact ⟨h.master, h.slave, h.counts⟩
  | unregister irq =>
    rw [← Option.some.inj hstep]
    exact ⟨h.master, h.slave, h.counts⟩

/-- **The commands of a run, counted**: one to the first controller for every interrupt, and a
second one for every interrupt without a registered handler; to the second controller one for each
of its interrupts, and a second one for each interrupt of the mouse without a handler. -/
theorem run_commands {handlers : U8 → Option IrqHandler} {events : List IrqEvent}
    (hrun : run irqEvent (.start handlers) events = some s) : Tallied s := by
  refine run_invariant (fun _ _ _ h hstep => h.step hstep) ?_ hrun
  exact ⟨rfl, rfl, fun _ => rfl⟩

/-- One acknowledgement for every interrupt, at each controller. -/
def Acknowledged (s : IrqState) : Prop :=
  commands 0x20#16 s.writes = s.handled.length ∧
    commands 0xA0#16 s.writes = s.handled.countP fun irq => 40 ≤ irq.toNat

lemma Tallied.acknowledged_iff (h : Tallied s) : Acknowledged s ↔ s.defaulted = [] := by
  rw [Acknowledged, h.master, h.slave]
  constructor
  · rintro ⟨hmaster, -⟩
    exact List.length_eq_zero_iff.mp (by omega)
  · intro hnone
    rw [hnone]
    exact ⟨rfl, rfl⟩

/-- An interrupt that is handled has a registered handler. -/
def HasHandler (s : IrqState) : IrqEvent → Prop
  | .handle irq => s.handlers irq.val ≠ none
  | .register _ _ => True
  | .unregister _ => True

lemma defaulted_step_iff {event : IrqEvent} (hstep : irqEvent s event = some s') :
    s'.defaulted = [] ↔ s.defaulted = [] ∧ HasHandler s event := by
  cases event with
  | handle irq =>
    rw [← Option.some.inj hstep]
    simp only [IrqState.handleIrq, HasHandler]
    cases s.handlers irq.val with
    | some info => simp
    | none => simp
  | register irq handler =>
    rw [← Option.some.inj hstep]
    exact (and_iff_left trivial).symm
  | unregister irq =>
    rw [← Option.some.inj hstep]
    exact (and_iff_left trivial).symm

/-- No handler is missing at the end exactly when none was missing at the start or on the way. -/
lemma defaulted_run_iff : ∀ (events : List IrqEvent) (s : IrqState),
    ∃ t, run irqEvent s events = some t ∧
      (t.defaulted = [] ↔ s.defaulted = [] ∧ Meets HasHandler irqEvent s events) := by
  intro events
  induction events with
  | nil => exact fun s => ⟨s, rfl, (and_iff_left trivial).symm⟩
  | cons event events ih =>
    intro s
    obtain ⟨s', hstep⟩ : ∃ s', irqEvent s event = some s' := by
      cases event <;> exact ⟨_, rfl⟩
    obtain ⟨t, hrun, hiff⟩ := ih s'
    refine ⟨t, run_cons_eq_some.mpr ⟨s', hstep, hrun⟩, ?_⟩
    rw [hiff, defaulted_step_iff hstep, Meets, hstep, and_assoc]
    simp only [Option.some.injEq, forall_eq']

/-- **When every interrupt is acknowledged once.**  After every sequence of interrupts and
registrations, whatever was registered at first, the number of commands at each controller is the
number of its interrupts exactly when each of them had a registered handler as it was handled. -/
theorem eoi_exact_iff (handlers : U8 → Option IrqHandler) (events : List IrqEvent) :
    ∃ s, run irqEvent (.start handlers) events = some s ∧
      (Acknowledged s ↔ Meets HasHandler irqEvent (.start handlers) events) := by
  obtain ⟨s, hrun, hiff⟩ := defaulted_run_iff events (.start handlers)
  refine ⟨s, hrun, ?_⟩
  rw [(run_commands hrun).acknowledged_iff, hiff]
  exact and_iff_right rfl

/-- The timer, without a registered handler. -/
def timerLine : IrqLine := ⟨32#8, by decide⟩

/-- One interrupt of the timer is acknowledged twice. -/
theorem timer_acknowledged_twice :
    ∃ s, run irqEvent (.start fun _ => none) [.handle timerLine] = some s ∧
      s.handled.length = 1 ∧ commands 0x20#16 s.writes = 2 ∧ ¬ Acknowledged s :=
  ⟨_, rfl, rfl, rfl, fun h => absurd h.1 (by decide)⟩

end Masika
