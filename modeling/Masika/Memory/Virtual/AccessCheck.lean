import Masika.Core.Loops
import Masika.Memory.Virtual.Refinement
import Masika.Memory.Virtual.Rounds

/-!
# `verify_access`

`verify_access` is asked whether a process may read, or write, a range of memory.  It checks that
the range is user memory and that `translate` has an answer for every byte of it.  But `translate`
only tells used entries from unused ones, and the parameter `write` is not looked at.  An entry can
be used and not present: `mark_page_cow` clears the present bit of pages, and `map_page` and
`protect_memory` store whatever flags they are given.

* `GivenFlags` is the record of the flags that each page was given last.  It follows from the
  operations and their results alone.
* `Recorded` ties it to the entries, and every operation keeps it (`Recorded.step`).
* So the answer of `verify_access` can be compared with what the caller has asked for
  (`verifyAccess_sound_iff`).
-/

namespace Masika

open PageTableEntry VirtualMemoryManager

/-- `verify_access`, which does not use its last argument. -/
def VirtualMemoryManager.verifyAccess (E : PageEntryApi) (vmm : VirtualMemoryManager)
    (s : TableMem) (addr size : U64) (_write : Bool) : Bool :=
  if ¬ validateUserRange addr size then false
  else (List.range size.toNat).all fun i =>
    (vmm.translate E s (addr + BitVec.ofNat 64 i)).isSome

/-! ## The record -/

/-- The flags that the pages were given last. -/
abbrev GivenFlags := BitVec 36 → Option U64

namespace GivenFlags

/-- The first `k` pages from `start` on are given other flags, those of them that are mapped. -/
def protect (g : GivenFlags) (start flags : U64) (k : ℕ) : GivenFlags := fun p =>
  if ∃ i < k, pageNumber (pageAddr start i) = p then (g p).map fun _ => flags else g p

/-- What an operation with a certain result does to the record. -/
def after (g : GivenFlags) : VmmOp → Except VmmError Unit → GivenFlags
  | .mapPage _ virt _ flags, .ok () => Function.update g (pageNumber virt) (some flags)
  | .mapKernelPage _ virt _ flags, .ok () => Function.update g (pageNumber virt) (some flags)
  | .unmapPage virt, .ok () => Function.update g (pageNumber virt) none
  | .protectMemory start size flags, .ok () => g.protect start flags (pagesOf size)
  | .markPageCow addr, .ok () =>
    Function.update g (pageNumber addr)
      ((g (pageNumber addr)).map fun flags => flags &&& ~~~0x01#64 ||| 0x20#64)
  | _, .error _ => g

/-- All bytes of the range are in pages that were last given the present bit, and the writable bit
if it is asked for. -/
def Permits (g : GivenFlags) (addr size : U64) (write : Bool) : Prop :=
  ∀ i < size.toNat, ∃ flags, g (pageNumber (addr + BitVec.ofNat 64 i)) = some flags ∧
    flags.getLsbD 0 = true ∧ (write = true → flags.getLsbD 1 = true)

lemma protect_succ (g : GivenFlags) (start flags : U64) (k : ℕ) (p : BitVec 36) :
    g.protect start flags (k + 1) p
      = if p = pageNumber (pageAddr start k) then (g p).map fun _ => flags
        else g.protect start flags k p := by
  simp only [protect]
  by_cases hp : p = pageNumber (pageAddr start k)
  · rw [if_pos ⟨k, Nat.lt_succ_self k, hp.symm⟩, if_pos hp]
  · rw [if_neg hp]
    refine if_congr ⟨?_, ?_⟩ rfl rfl
    · rintro ⟨i, hi, hpage⟩
      refine ⟨i, ?_, hpage⟩
      have hik : i ≠ k := by
        rintro rfl
        exact hp hpage.symm
      omega
    · rintro ⟨i, hi, hpage⟩
      exact ⟨i, Nat.lt_succ_of_lt hi, hpage⟩

lemma protect_zero (g : GivenFlags) (start flags : U64) : g.protect start flags 0 = g := by
  funext p
  simp [protect]

/-- Being given the flags once more changes nothing. -/
lemma map_protect (g : GivenFlags) (start flags : U64) (k : ℕ) (p : BitVec 36) :
    (g p).map (fun _ => flags) = (g.protect start flags k p).map fun _ => flags := by
  simp only [protect]
  split_ifs
  · rw [Option.map_map]
    rfl
  · rfl

end GivenFlags

section Runs

variable (E : PageEntryOps)

/-- The manager and the record side by side. -/
def recordStep (st : VmmState × GivenFlags) (op : VmmOp) : Option (VmmState × GivenFlags) :=
  some ((op.exec E st.1).2, st.2.after op (op.exec E st.1).1)

/-- The frames that become tables are zero-filled. -/
def ZeroTables (st : VmmState × GivenFlags) : VmmOp → Prop
  | .mapPage A virt _ _ | .mapKernelPage A virt _ _ =>
    ZeroFor A st.1.2 (missingTables E st.1.2.mem st.1.1.pml4 (upperPath virt))
  | _ => True

end Runs

/-- The tree is in order, and the flags of every used entry are those on record. -/
structure Recorded (E : PageEntryApi) (st : VmmState) (g : GivenFlags) : Prop where
  tree : VirtualMemoryManager.InOrder E st
  flags : ∀ v, st.2.leafOf st.1.pml4 v ≠ 0#64 → ∃ f, g (pageNumber v) = some f ∧
    ∀ j < 12, (st.2.leafOf st.1.pml4 v).getLsbD j = f.getLsbD j

namespace Recorded

variable {E : PageEntryOps} {vmm : VirtualMemoryManager} {s : TableMem} {g : GivenFlags}

/-- One entry is set, and the record of its page with it. -/
lemma leafSet {vmm' : VirtualMemoryManager} {s' : TableMem} {virt e : U64} {o : Option U64}
    (h : Recorded E (vmm, s) g) (hroot : vmm'.pml4 = vmm.pml4)
    (htree : VirtualMemoryManager.InOrder E (vmm, s')) (hleaf : ∀ v, s'.leafOf vmm.pml4 v
      = if pageNumber v = pageNumber virt then e else s.leafOf vmm.pml4 v)
    (he : e ≠ 0#64 → ∃ f, o = some f ∧ ∀ j < 12, e.getLsbD j = f.getLsbD j) :
    Recorded E (vmm', s') (Function.update g (pageNumber virt) o) := by
  refine ⟨.of_root hroot htree, fun v => ?_⟩
  dsimp only
  rw [hroot, hleaf v, Function.update_apply]
  split_ifs with hpage
  · exact he
  · exact h.flags v

/-- The flags of a used entry are changed, and those on record in the same way. -/
lemma edit {virt : U64} {f φ : U64 → U64} (h : Recorded E (vmm, s) g)
    (hf : ∀ e flags, (∀ j < 12, e.getLsbD j = flags.getLsbD j) →
      ∀ j < 12, (f e).getLsbD j = (φ flags).getLsbD j) :
    Recorded E (vmm, vmm.editUsed E s virt f)
      (Function.update g (pageNumber virt) ((g (pageNumber virt)).map φ)) := by
  obtain ⟨htree, hset⟩ := editUsed_spec h.tree virt f
  refine h.leafSet rfl htree (fun v => by simpa using hset.leaf vmm.pml4 rfl v) fun hne => ?_
  split_ifs at hne ⊢ with hzero
  · exact absurd rfl hne
  · obtain ⟨flags, hflags, hbits⟩ := h.flags virt hzero
    exact ⟨φ flags, by rw [hflags, Option.map_some], hf _ flags hbits⟩

lemma mapPage {A : FrameAllocator} {virt : U64} (phys flags : U64) (h : Recorded E (vmm, s) g)
    (hz : ZeroFor A s (missingTables E s.mem vmm.pml4 (upperPath virt))) :
    Recorded E (vmm.mapPage E A s virt phys flags).2
      (g.after (.mapPage A virt phys flags)
        (vmm.mapPage E A s virt phys flags).1) := by
  obtain ⟨hroot, htree, hmapped⟩ := vmm_mapPage_spec phys flags h.tree hz
  generalize vmm.mapPage E A s virt phys flags = result at hroot htree hmapped ⊢
  obtain ⟨answer, vmm', s'⟩ := result
  cases answer with
  | error e =>
    have hsame : ∀ v, s'.leafOf vmm.pml4 v = s.leafOf vmm.pml4 v :=
      fun v => hmapped vmm.pml4 rfl _ _ (upperPath_length v)
    refine ⟨.of_root hroot htree, fun v => ?_⟩
    dsimp only at hroot ⊢
    rw [hroot, hsame v]
    exact h.flags v
  | ok u =>
    refine h.leafSet hroot htree (fun v => by simpa using hmapped vmm.pml4 rfl v) fun _ => ?_
    exact ⟨flags, rfl, fun j hj => E.set_flags phys flags _ j hj⟩

/-- The loop of `protect_memory`. -/
lemma protect (start flags : U64) (n : ℕ) (h : Recorded E (vmm, s) g) :
    Recorded E
      (vmm, (List.range n).foldl
        (fun s i => vmm.editUsed E s (pageAddr start i) (E.updateFlags flags)) s)
      (g.protect start flags n) := by
  -- one round gives one more page the flags
  have hround : ∀ i s, Recorded E (vmm, s) (g.protect start flags (0 + i)) →
      Recorded E (vmm, vmm.editUsed E s (pageAddr start i) (E.updateFlags flags))
        (g.protect start flags (0 + i + 1)) := by
    intro i s hs
    rw [Nat.zero_add] at hs ⊢
    have hedit : Recorded E
        (vmm, vmm.editUsed E s (pageAddr start i) (E.updateFlags flags))
        (Function.update (g.protect start flags i) (pageNumber (pageAddr start i))
          ((g.protect start flags i (pageNumber (pageAddr start i))).map fun _ => flags)) :=
      hs.edit fun e _ _ => E.updateFlags_flags flags e
    convert hedit using 1
    funext p
    rw [GivenFlags.protect_succ, Function.update_apply]
    split_ifs with hp
    · rw [hp]
      exact g.map_protect start flags i _
    · rfl
  have hloop := foldl_range_induction (P := fun k s =>
      Recorded E (vmm, s) (g.protect start flags k)) (k := 0) (n := n)
    (by rwa [GivenFlags.protect_zero]) fun i _ s hs => hround i s hs
  rwa [Nat.zero_add] at hloop

/-- Every operation keeps manager and record together. -/
lemma step {op : VmmOp} (h : Recorded E (vmm, s) g) (hzero : ZeroTables E ((vmm, s), g) op) :
    Recorded E (op.exec E (vmm, s)).2 (g.after op (op.exec E (vmm, s)).1) := by
  cases op with
  | mapPage A virt phys flags => exact h.mapPage phys flags hzero
  | mapKernelPage A virt phys flags =>
    have hmap := h.mapPage phys flags hzero
    change Recorded _ (vmm.mapPage E A s virt phys flags).2
      (g.after _ (vmm.mapPage E A s virt phys flags).1)
    generalize vmm.mapPage E A s virt phys flags = result at hmap ⊢
    obtain ⟨_ | _, st⟩ := result <;> exact hmap
  | unmapPage virt =>
    obtain ⟨hroot, htree, hset, hfails⟩ := unmapPage_spec h.tree virt
    change Recorded _ (vmm.unmapPage E s virt).2 (g.after _ (vmm.unmapPage E s virt).1)
    have hleaf : ∀ v, (vmm.unmapPage E s virt).2.2.leafOf vmm.pml4 v
        = if pageNumber v = pageNumber virt then 0#64 else s.leafOf vmm.pml4 v :=
      fun v => by simpa using hset.leaf vmm.pml4 rfl v
    have hkept : ∀ o, Recorded E (vmm.unmapPage E s virt).2
        (Function.update g (pageNumber virt) o) := fun o =>
      h.leafSet hroot htree hleaf fun hne => absurd rfl hne
    cases hanswer : (vmm.unmapPage E s virt).1 with
    | ok u => exact hkept none
    | error e =>
      have hsame := hkept (g (pageNumber virt))
      rwa [Function.update_eq_self] at hsame
  | protectMemory start size flags => exact h.protect start flags (pagesOf size)
  | markPageCow addr =>
    refine h.edit fun e flags hbits j hj => ?_
    rw [E.updateFlags_flags _ e j hj, E.flags_eq]
    simp only [BitVec.getLsbD_or, BitVec.getLsbD_and, hbits j hj, getLsbD_flagMask, hj,
      decide_true, Bool.and_true]

end Recorded

/-! ## The check -/

/-- Every page that meets the range is mapped by a present entry, and by a writable one if `write`
is set. -/
def AccessAllowed (st : VmmState) (addr size : U64) (write : Bool) : Prop :=
  ∀ i < size.toNat,
    present (st.2.leafOf st.1.pml4 (addr + BitVec.ofNat 64 i)) = true ∧
      (write = true → writable (st.2.leafOf st.1.pml4 (addr + BitVec.ofNat 64 i)) = true)

instance (st : VmmState) (addr size : U64) (write : Bool) :
    Decidable (AccessAllowed st addr size write) :=
  inferInstanceAs (Decidable (∀ i < size.toNat, _))

/-- What the check finds out. -/
lemma verifyAccess_iff {E : PageEntryApi} {vmm : VirtualMemoryManager} {s : TableMem}
    (addr size : U64) (write : Bool) :
    vmm.verifyAccess E s addr size write = true ↔ validateUserRange addr size = true ∧
      ∀ i < size.toNat, vmm.translate E s (addr + BitVec.ofNat 64 i) ≠ none := by
  rw [verifyAccess]
  cases hvalid : validateUserRange addr size with
  | false => simp
  | true => simp [Option.isSome_iff_ne_none]

/-- **When a positive answer can be trusted.**  In every address space that was built from a new
one, the answer for a range of mapped user pages is right exactly if every page of the range was
last given the present bit, and the writable bit in case of a write. -/
theorem verifyAccess_sound_iff (E : PageEntryOps) (A : FrameAllocator) {s₀ : TableMem}
    (hal : ∀ t ∈ s₀.live, t % 4096 = 0) {vmm : VirtualMemoryManager} {s : TableMem}
    (hnew : VirtualMemoryManager.new A s₀ = some (vmm, s)) {ops : List VmmOp}
    {st : VmmState} {g : GivenFlags}
    (hzero : Meets (ZeroTables E) (recordStep E) ((vmm, s), fun _ => none) ops)
    (hrun : run (recordStep E) ((vmm, s), fun _ => none) ops = some (st, g))
    (addr size : U64) (write : Bool) :
    (st.1.verifyAccess E st.2 addr size write = true →
        AccessAllowed st addr size write) ↔
      (validateUserRange addr size = true →
        (∀ i < size.toNat,
          st.1.translate E st.2 (addr + BitVec.ofNat 64 i) ≠ none) →
        g.Permits addr size write) := by
  have hrec : Recorded E st g := by
    refine run_invariant_of_meets (P := fun p => Recorded E p.1 p.2) ?_ ?_ hzero hrun
    · rintro ⟨⟨vmm, s⟩, g⟩ op st' h hok hstep
      rw [recordStep, Option.some.injEq] at hstep
      subst hstep
      exact h.step hok
    · have himpl : Implements E vmm s fun _ => none := Implements.new hal hnew
      refine ⟨himpl.tree, fun v hused => ?_⟩
      have hnone := himpl.agrees v
      rw [mappedFrame_eq_none] at hnone
      exact absurd hnone hused
  rw [verifyAccess_iff, and_imp]
  refine imp_congr_right fun _ => imp_congr_right fun hmapped => forall₂_congr fun i hi => ?_
  have hused : st.2.leafOf st.1.pml4 (addr + BitVec.ofNat 64 i) ≠ 0#64 := by
    have htranslate := hmapped i hi
    rwa [translate_eq hrec.tree, ne_eq, mappedFrame_eq_none] at htranslate
  obtain ⟨flags, hflags, hbits⟩ := hrec.flags _ hused
  rw [present_eq, writable_eq, hbits 0 (by decide), hbits 1 (by decide), hflags]
  constructor
  · exact fun hrights => ⟨flags, rfl, hrights⟩
  · rintro ⟨_, ⟨rfl⟩, hrights⟩
    exact hrights

/-- One page of user memory, mapped with `flags`. -/
def oneUserPage (flags : U64) : List VmmOp := [.mapPage bumpFrames 0x100000#64 0x9000#64 flags]

/-- A page that may be written. -/
theorem verifyAccess_sound_writable : ∃ vmm s st g,
    VirtualMemoryManager.new bumpFrames ⟨fun _ => 0#64, []⟩ = some (vmm, s) ∧
      run (recordStep plainEntryOps) ((vmm, s), fun _ => none) (oneUserPage 7#64) = some (st, g) ∧
      st.1.verifyAccess plainPageEntry st.2 0x100000#64 1#64 true = true ∧
      AccessAllowed st 0x100000#64 1#64 true := by
  have hal : ∀ t ∈ (⟨fun _ => 0#64, []⟩ : TableMem).live, t % 4096 = 0 := by simp
  refine ⟨_, _, _, _, rfl, rfl, by decide +kernel, ?_⟩
  refine (verifyAccess_sound_iff plainEntryOps bumpFrames hal rfl ?_
    (show run _ _ (oneUserPage 7#64) = some _ from rfl) _ _ _).mpr ?_ (by decide +kernel)
  · exact ⟨by unfold ZeroTables ZeroFor; decide +kernel, fun _ _ => trivial⟩
  · intro _ _ i hi
    obtain rfl : i = 0 := Nat.lt_one_iff.mp hi
    exact ⟨7#64, by decide +kernel, by decide, fun _ => by decide⟩

/-- **A positive answer for a page that is not present, and for a write to a read-only page.**  The
one has been marked copy-on-write, the other was mapped without the writable bit. -/
theorem verifyAccess_answers_wrongly : ∃ vmm s,
    VirtualMemoryManager.new bumpFrames ⟨fun _ => 0#64, []⟩ = some (vmm, s) ∧
      (∃ st g, run (recordStep plainEntryOps) ((vmm, s), fun _ => none)
          (oneUserPage 7#64 ++ [.markPageCow 0x100000#64]) = some (st, g) ∧
        st.1.verifyAccess plainPageEntry st.2 0x100000#64 1#64 false = true ∧
        ¬ AccessAllowed st 0x100000#64 1#64 false) ∧
      ∃ st g, run (recordStep plainEntryOps) ((vmm, s), fun _ => none) (oneUserPage 1#64)
          = some (st, g) ∧
        st.1.verifyAccess plainPageEntry st.2 0x100000#64 1#64 true = true ∧
        ¬ AccessAllowed st 0x100000#64 1#64 true := by
  refine ⟨_, _, rfl, ⟨_, _, rfl, ?_, ?_⟩, _, _, rfl, ?_, ?_⟩ <;> decide +kernel

end Masika
