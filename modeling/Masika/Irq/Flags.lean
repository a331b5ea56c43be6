import Masika.Core.BitPacked
import Masika.Core.Runs

/-!
# Saving and restoring the interrupt flag

`local_irq_save` returns the flag register and then disables interrupts; `local_irq_restore` enables
them again if they were enabled in the flags it is given, and otherwise does nothing.  So a pair of
the two can stand inside another one: the inner save sees that interrupts are disabled, and its
restore leaves them so.

A sequence of operations is well nested when every restore has a save that it belongs to
(`WellNested`).  Two lemmas, both by induction on the nesting, are behind the result.

* `WellNested.run_flag` — a well-nested sequence leaves the interrupt flag as it was.
* `WellNested.off_inside` — if interrupts are disabled before it, they are disabled at every point
  of it.
-/

namespace Masika

/-! ## The flag register -/

/-- Clear the interrupt flag. -/
def cli (rflags : U64) : U64 := rflags &&& ~~~0x200#64

/-- Set the interrupt flag. -/
def sti (rflags : U64) : U64 := rflags ||| 0x200#64

/-- The flags that are returned, and the register afterwards. -/
def localIrqSave (rflags : U64) : U64 × U64 := (rflags, cli rflags)

/-- `sti`, if the flag was set when it was saved. -/
def localIrqRestore (flags rflags : U64) : U64 :=
  if flags &&& 0x200#64 ≠ 0#64 then sti rflags else rflags

/-- The interrupt flag. -/
def interruptsOn (rflags : U64) : Bool := rflags.getLsbD 9

lemma interruptsOn_cli (rflags : U64) : interruptsOn (cli rflags) = false := by
  simp [interruptsOn, cli]

lemma interruptsOn_sti (rflags : U64) : interruptsOn (sti rflags) = true := by
  simp [interruptsOn, sti]

/-- What is restored while interrupts are disabled. -/
lemma interruptsOn_localIrqRestore (flags : U64) {rflags : U64}
    (hoff : interruptsOn rflags = false) :
    interruptsOn (localIrqRestore flags rflags) = interruptsOn flags := by
  have htest : (flags &&& 0x200#64 != 0#64) = interruptsOn flags :=
    and_one_shl_ne_zero flags (show 9 < 64 by decide)
  rw [← htest, localIrqRestore]
  split_ifs with h
  · rw [interruptsOn_sti]
    exact (bne_iff_ne.mpr h).symm
  · rw [hoff]
    exact (bne_eq_false_iff_eq.mpr (not_not.mp h)).symm

/-! ## Sequences of operations -/

/-- Anything that does not touch the interrupt flag. -/
structure FlagKeeping where
  effect : U64 → U64
  keeps : ∀ rflags, interruptsOn (effect rflags) = interruptsOn rflags

/-- The calls, and other code. -/
inductive FlagOp where
  | save
  | restore
  | other (op : FlagKeeping)

/-- The flag register, and the flags returned by the saves that have not been restored, the last one
first. -/
structure FlagState where
  rflags : U64
  saved : List U64

/-- A restore is given the flags of the last save that is open. -/
def flagStep (s : FlagState) : FlagOp → Option FlagState
  | .save => some ⟨(localIrqSave s.rflags).2, (localIrqSave s.rflags).1 :: s.saved⟩
  | .restore =>
    match s.saved with
    | [] => none
    | flags :: saved => some ⟨localIrqRestore flags s.rflags, saved⟩
  | .other op => some { s with rflags := op.effect s.rflags }

lemma flagStep_save (s : FlagState) :
    flagStep s .save = some ⟨cli s.rflags, s.rflags :: s.saved⟩ := rfl

/-- Every restore matches a save. -/
inductive WellNested : List FlagOp → Prop
  | nil : WellNested []
  | other (op : FlagKeeping) {rest : List FlagOp} (hrest : WellNested rest) :
      WellNested (.other op :: rest)
  | pair {body rest : List FlagOp} (hbody : WellNested body) (hrest : WellNested rest) :
      WellNested (.save :: (body ++ .restore :: rest))

section Nesting

variable {ops body inside rest : List FlagOp}

/-- The points of a pair and what follows it. -/
lemma begins_pair (h : inside <+: .save :: (body ++ .restore :: rest)) :
    inside = [] ∨ (∃ inside', inside = .save :: inside' ∧ inside' <+: body) ∨
      ∃ inside', inside = .save :: (body ++ .restore :: inside') ∧ inside' <+: rest := by
  rcases List.prefix_cons_iff.mp h with rfl | ⟨tail, rfl, htail⟩
  · exact .inl rfl
  · rcases List.prefix_or_prefix_of_prefix htail (List.prefix_append body _) with hin | ⟨q, rfl⟩
    · exact .inr (.inl ⟨tail, rfl, hin⟩)
    · rw [List.prefix_append_right_inj] at htail
      rcases List.prefix_cons_iff.mp htail with rfl | ⟨tail', rfl, htail'⟩
      · exact .inr (.inl ⟨body ++ [], rfl, by rw [List.append_nil]⟩)
      · exact .inr (.inr ⟨tail', rfl, htail'⟩)

/-- **A well-nested sequence leaves the interrupt flag as it was**, and the open saves, too. -/
lemma WellNested.run_flag (h : WellNested ops) (s : FlagState) :
    ∃ s', run flagStep s ops = some s' ∧ s'.saved = s.saved ∧
      interruptsOn s'.rflags = interruptsOn s.rflags := by
  induction h generalizing s with
  | nil => exact ⟨s, rfl, rfl, rfl⟩
  | other op _ ih =>
    obtain ⟨s', hrun, hsaved, hflag⟩ := ih { s with rflags := op.effect s.rflags }
    exact ⟨s', hrun, hsaved, hflag.trans (op.keeps s.rflags)⟩
  | pair _ _ ihbody ihrest =>
    obtain ⟨inner, hinner, hsaved, hflag⟩ := ihbody ⟨cli s.rflags, s.rflags :: s.saved⟩
    -- the body ends with interrupts disabled, so the restore decides
    have hoff : interruptsOn inner.rflags = false := hflag.trans (interruptsOn_cli s.rflags)
    obtain ⟨s', hrun, hsaved', hflag'⟩ := ihrest ⟨localIrqRestore s.rflags inner.rflags, s.saved⟩
    refine ⟨s', ?_, hsaved', hflag'.trans (interruptsOn_localIrqRestore s.rflags hoff)⟩
    refine run_cons_eq_some.mpr ⟨_, flagStep_save s, ?_⟩
    rw [run_append, hinner]
    refine run_cons_eq_some.mpr ⟨_, ?_, hrun⟩
    simp only [flagStep, hsaved]

/-- **Interrupts stay disabled at every point of a well-nested sequence**, and every restore on the
way finds the flags of its save. -/
lemma WellNested.off_inside (h : WellNested ops) (hin : inside <+: ops) (s : FlagState) :
    ∃ s', run flagStep s inside = some s' ∧
      (interruptsOn s.rflags = false → interruptsOn s'.rflags = false) := by
  induction h generalizing s inside with
  | nil =>
    rw [List.prefix_nil] at hin
    subst hin
    exact ⟨s, rfl, id⟩
  | other op _ ih =>
    rcases List.prefix_cons_iff.mp hin with rfl | ⟨tail, rfl, htail⟩
    · exact ⟨s, rfl, id⟩
    · obtain ⟨s', hrun, hoff⟩ := ih htail { s with rflags := op.effect s.rflags }
      exact ⟨s', hrun, fun h => hoff ((op.keeps s.rflags).trans h)⟩
  | @pair body rest hbody _ ihbody ihrest =>
    rcases begins_pair hin with rfl | ⟨inside', rfl, hin'⟩ | ⟨inside', rfl, hin'⟩
    · exact ⟨s, rfl, id⟩
    · obtain ⟨s', hrun, hoff⟩ := ihbody hin' ⟨cli s.rflags, s.rflags :: s.saved⟩
      exact ⟨s', hrun, fun _ => hoff (interruptsOn_cli s.rflags)⟩
    · -- the pair as a whole leaves the flag as it was
      have hpair : WellNested (.save :: (body ++ .restore :: [])) := .pair hbody .nil
      obtain ⟨between, hbetween, -, hflag⟩ := hpair.run_flag s
      obtain ⟨s', hrun, hoff⟩ := ihrest hin' between
      refine ⟨s', ?_, fun h => hoff (hflag.trans h)⟩
      have hsplit : FlagOp.save :: (body ++ .restore :: inside') =
          (.save :: (body ++ .restore :: [])) ++ inside' := by simp
      rw [hsplit, run_append, hbetween]
      exact hrun

end Nesting

/-- **Saved flags nest**, in a sequence that begins with the flags `rflags`. -/
structure FlagsNest (rflags : U64) (ops : List FlagOp) : Prop where
  /-- Interrupts are disabled at every point between a save and its restore. -/
  disabled : ∀ before body after, ops = before ++ .save :: (body ++ .restore :: after) →
    WellNested body → ∀ inside, inside <+: body →
      ∃ s, run flagStep ⟨rflags, []⟩ (before ++ .save :: inside) = some s ∧
        interruptsOn s.rflags = false
  /-- Wherever all pairs are closed, the flag is what it was in the beginning. -/
  restored : ∀ closed, closed <+: ops → WellNested closed →
    ∃ s, run flagStep ⟨rflags, []⟩ closed = some s ∧ interruptsOn s.rflags = interruptsOn rflags

/-- **Pairs nest**, however deep. -/
theorem wellNested_flagsNest {ops : List FlagOp} (h : WellNested ops) (rflags : U64) :
    FlagsNest rflags ops := by
  constructor
  · intro before body after hops hbody inside hin
    have hbefore : before <+: ops := by
      rw [hops]
      exact List.prefix_append before _
    obtain ⟨s, hrun, -⟩ := h.off_inside hbefore ⟨rflags, []⟩
    obtain ⟨s', hrun', hoff⟩ := hbody.off_inside hin ⟨cli s.rflags, s.rflags :: s.saved⟩
    refine ⟨s', ?_, hoff (interruptsOn_cli s.rflags)⟩
    rw [run_append, hrun]
    exact run_cons_eq_some.mpr ⟨_, flagStep_save s, hrun'⟩
  · intro closed _ hclosed
    obtain ⟨s, hrun, -, hflag⟩ := hclosed.run_flag ⟨rflags, []⟩
    exact ⟨s, hrun, hflag⟩

/-- A pair in a pair. -/
theorem wellNested_flagsNest_inner :
    FlagsNest 0x202#64 [.save, .save, .restore, .other ⟨id, fun _ => rfl⟩, .restore] :=
  wellNested_flagsNest (.pair (.pair .nil (.other _ .nil)) .nil) 0x202#64

end Masika
