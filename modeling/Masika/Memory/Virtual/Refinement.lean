import Masika.Core.Runs
import Masika.Memory.Virtual.Operations

/-!
# An address space implements a partial map

The manager's counterpart to the refinement of the kernel's tables.  `map_page` may fail at each of
three levels, after zero, one or two tables have been linked, so the abstract map is driven by the
operations *and their results*: a successful `map_page` or `unmap_page` changes one page, and
everything else, failures included, changes nothing (`PageMap.after`).

The frames that `alloc_pages(1)` hands out for tables are taken to hold zeros, and the frames that
are mapped not to be the frame at address 0; with flags 0 the entry for that frame would be the
unused one.  Each operation has an allocator of its own, so that allocations may fail at any point
of a run and succeed again later.
-/

namespace Masika

open VirtualMemoryManager

/-! ## The abstract map -/

/-- The frame behind each page. -/
abbrev PageMap := BitVec 36 → Option U64

/-- The calls of the manager. -/
inductive VmmOp
  | mapPage (A : FrameAllocator) (virt phys flags : U64)
  | mapKernelPage (A : FrameAllocator) (virt phys flags : U64)
  | unmapPage (virt : U64)
  | protectMemory (start size flags : U64)
  | markPageCow (addr : U64)

/-- What an operation with a certain result does to the map.  The frame of a physical address is in
bits 12 to 51. -/
def PageMap.after (m : PageMap) : VmmOp → Except VmmError Unit → PageMap
  | .mapPage _ virt phys _, .ok () => Function.update m (pageNumber virt) (some (hwAddr phys))
  | .mapKernelPage _ virt phys _, .ok () => Function.update m (pageNumber virt) (some (hwAddr phys))
  | .unmapPage virt, .ok () => Function.update m (pageNumber virt) none
  | _, _ => m

lemma PageMap.after_mapKernelPage (m : PageMap) (A : FrameAllocator) (virt phys flags : U64)
    (answer : Except VmmError Unit) :
    m.after (.mapKernelPage A virt phys flags) answer
      = m.after (.mapPage A virt phys flags) answer := by
  cases answer <;> rfl

/-! ## Runs -/

section Runs

variable (E : PageEntryOps)

/-- What a call does. -/
def VmmOp.exec : VmmOp → VmmState → VmmAnswer Unit
  | mapPage A virt phys flags, (vmm, s) => vmm.mapPage E A s virt phys flags
  | mapKernelPage A virt phys flags, (vmm, s) => vmm.mapKernelPage E A s virt phys flags
  | unmapPage virt, (vmm, s) => vmm.unmapPage E s virt
  | protectMemory start size flags, (vmm, s) => vmm.protectMemory E s start size flags
  | markPageCow addr, (vmm, s) => (.ok (), vmm, vmm.markPageCow E s addr)

/-- The manager and the abstract map side by side. -/
def refinementStep (st : VmmState × PageMap) (op : VmmOp) : Option (VmmState × PageMap) :=
  some ((op.exec E st.1).2, st.2.after op (op.exec E st.1).1)

/-- New tables are zero-filled, and the mapped frame is not the one at address 0. -/
def CleanFrames (st : VmmState × PageMap) : VmmOp → Prop
  | .mapPage A virt phys _ | .mapKernelPage A virt phys _ =>
    hwAddr phys ≠ 0#64 ∧
      ZeroFor A st.1.2
        (missingTables E st.1.2.mem st.1.1.pml4 (upperPath virt))
  | _ => True

/-- The tree is in order, no used entry lacks a frame, and the entries say what the map says. -/
structure Implements (vmm : VirtualMemoryManager) (s : TableMem) (m : PageMap) : Prop where
  tree : OwnTree E vmm.pml4 s
  framed : ∀ v, s.leafOf vmm.pml4 v = 0#64 ∨ hwAddr (s.leafOf vmm.pml4 v) ≠ 0#64
  agrees : ∀ v, mappedFrame (s.leafOf vmm.pml4 v) = m (pageNumber v)

end Runs

variable {E : PageEntryOps} {vmm : VirtualMemoryManager} {s : TableMem} {m : PageMap}

/-- A new address space is the empty map. -/
lemma Implements.new {A : FrameAllocator} {s₀ : TableMem} (hal : ∀ t ∈ s₀.live, t % 4096 = 0)
    (h : VirtualMemoryManager.new A s₀ = some (vmm, s)) : Implements E vmm s fun _ => none := by
  rw [VirtualMemoryManager.new, Option.map_eq_some_iff] at h
  obtain ⟨a, ha, h⟩ := h
  rw [Prod.mk.injEq] at h
  obtain ⟨rfl, rfl⟩ := h
  have hzero : ∀ i, x86.zeroTable s₀.mem a (x86.slot a i) = 0#64 :=
    RadixFormat.zeroTable_self s₀.mem a
  refine ⟨treeIn_of_zero _ ?_ List.mem_cons_self hzero, fun v => .inl (leafOf_of_zero hzero v),
    fun v => ?_⟩
  · intro t ht
    rcases List.mem_cons.mp ht with rfl | ht
    · exact A.aligned _ _ ha
    · exact hal t ht
  · rw [leafOf_of_zero hzero v]
    rfl

/-- Setting the entry of one page changes one page of the map. -/
lemma Implements.leafSet {vmm' : VirtualMemoryManager} {s' : TableMem} {virt e : U64}
    (h : Implements E vmm s m) (hroot : vmm'.pml4 = vmm.pml4) (htree : OwnTree E vmm.pml4 s')
    (hleaf : ∀ v, s'.leafOf vmm.pml4 v
      = if pageNumber v = pageNumber virt then e else s.leafOf vmm.pml4 v)
    (he : e = 0#64 ∨ hwAddr e ≠ 0#64) :
    Implements E vmm' s' (Function.update m (pageNumber virt) (mappedFrame e)) := by
  refine ⟨by rw [hroot]; exact htree, fun v => ?_, fun v => ?_⟩
  · rw [hroot, hleaf v]
    split_ifs with hpage
    · exact he
    · exact h.framed v
  · rw [hroot, hleaf v, Function.update_apply]
    split_ifs with hpage
    · rfl
    · exact h.agrees v

/-- An edit that keeps the frame of a page changes nothing in the map. -/
lemma Implements.keepFrame {s' : TableMem} {virt : U64} (h : Implements E vmm s m) (f : U64 → U64)
    (hf : ∀ e, hwAddr (f e) = hwAddr e) (hs' : OwnTree E vmm.pml4 s' ∧
      LeafSet {vmm.pml4} vmm.pml4 virt
        (if s.leafOf vmm.pml4 virt = 0#64 then 0#64 else f (s.leafOf vmm.pml4 virt)) s s') :
    Implements E vmm s' m := by
  obtain ⟨htree, hset⟩ := hs'
  have hframed := h.framed virt
  set e := s.leafOf vmm.pml4 virt with hdef
  -- the edited entry has the same frame, and is unused exactly when the old one was
  have hnew : mappedFrame (if e = 0#64 then 0#64 else f e) = m (pageNumber virt) ∧
      ((if e = 0#64 then 0#64 else f e) = 0#64 ∨
        hwAddr (if e = 0#64 then 0#64 else f e) ≠ 0#64) := by
    rw [← h.agrees virt, ← hdef]
    by_cases he : e = 0#64
    · rw [if_pos he, he]
      exact ⟨rfl, .inl rfl⟩
    · have hframe : hwAddr (f e) ≠ 0#64 := by
        rw [hf]
        exact hframed.resolve_left he
      rw [if_neg he, mappedFrame_of_ne (ne_zero_of_hwAddr hframe), mappedFrame_of_ne he, hf]
      exact ⟨rfl, .inr (hframed.resolve_left he)⟩
  have hresult := h.leafSet rfl htree (fun v => by simpa using hset.leaf vmm.pml4 rfl v) hnew.2
  rwa [hnew.1, Function.update_eq_self] at hresult

lemma Implements.mapPage {A : FrameAllocator} {virt phys : U64} (flags : U64)
    (h : Implements E vmm s m) (hphys : hwAddr phys ≠ 0#64)
    (hz : ZeroFor A s (missingTables E s.mem vmm.pml4 (upperPath virt))) :
    Implements E (vmm.mapPage E A s virt phys flags).2.1
      (vmm.mapPage E A s virt phys flags).2.2
      (m.after (.mapPage A virt phys flags)
        (vmm.mapPage E A s virt phys flags).1) := by
  obtain ⟨hroot, htree, hmapped⟩ := vmm_mapPage_spec phys flags h.tree hz
  generalize vmm.mapPage E A s virt phys flags = result at hroot htree hmapped ⊢
  obtain ⟨answer, vmm', s'⟩ := result
  cases answer with
  | error e =>
    have hsame : ∀ v, s'.leafOf vmm.pml4 v = s.leafOf vmm.pml4 v :=
      fun v => hmapped vmm.pml4 rfl _ _ (upperPath_length v)
    refine ⟨by rw [hroot]; exact htree, fun v => ?_, fun v => ?_⟩
    · rw [hroot, hsame v]
      exact h.framed v
    · rw [hroot, hsame v]
      exact h.agrees v
  | ok u =>
    have hframe := E.hwAddr_set phys flags (s.leafOf vmm.pml4 virt)
    have hne : E.set phys flags (s.leafOf vmm.pml4 virt) ≠ 0#64 :=
      ne_zero_of_hwAddr (by rwa [hframe])
    have hresult := h.leafSet hroot htree (fun v => by simpa using hmapped vmm.pml4 rfl v)
      (.inr (by rwa [hframe]))
    rwa [mappedFrame_of_ne hne, hframe] at hresult

/-- A range of edits that keep the frames. -/
lemma Implements.foldl_keepFrame (addrs : List U64) (f : U64 → U64)
    (hf : ∀ e, hwAddr (f e) = hwAddr e) : ∀ {s : TableMem}, Implements E vmm s m →
    Implements E vmm (addrs.foldl (fun s virt => vmm.editUsed E s virt f) s) m := by
  induction addrs with
  | nil => exact fun h => h
  | cons virt addrs ih => exact fun h => ih (h.keepFrame f hf (editUsed_spec h.tree virt f))

/-- Every operation keeps manager and map together. -/
lemma Implements.step {op : VmmOp} (h : Implements E vmm s m)
    (hclean : CleanFrames E ((vmm, s), m) op) :
    Implements E (op.exec E (vmm, s)).2.1 (op.exec E (vmm, s)).2.2
      (m.after op (op.exec E (vmm, s)).1) := by
  cases op with
  | mapPage A virt phys flags => exact h.mapPage flags hclean.1 hclean.2
  | mapKernelPage A virt phys flags =>
    rw [PageMap.after_mapKernelPage]
    exact h.mapPage flags hclean.1 hclean.2
  | unmapPage virt =>
    obtain ⟨hroot, htree, hset, hfails⟩ := unmapPage_spec h.tree virt
    have hresult := h.leafSet hroot htree (fun v => by simpa using hset.leaf vmm.pml4 rfl v)
      (.inl rfl)
    rw [mappedFrame_zero] at hresult
    change Implements E _ _ (m.after (.unmapPage virt) (vmm.unmapPage E s virt).1)
    cases hanswer : (vmm.unmapPage E s virt).1 with
    | ok u => exact hresult
    | error e =>
      -- a table was missing, so there was nothing to clear
      have hnone : m (pageNumber virt) = none := by
        rw [← h.agrees virt, hfails e hanswer, mappedFrame_zero]
      rw [← hnone, Function.update_eq_self] at hresult
      exact hresult
  | protectMemory start size flags =>
    have hfold := h.foldl_keepFrame ((List.range (pagesOf size)).map (pageAddr start))
      (E.updateFlags flags) (E.updateFlags_addr flags)
    rwa [List.foldl_map] at hfold
  | markPageCow addr =>
    have hspec := editUsed_spec h.tree addr
      fun pte => E.updateFlags (E.flags pte &&& ~~~0x01#64 ||| 0x20#64) pte
    exact h.keepFrame _ (fun e => E.updateFlags_addr _ e) hspec

/-- **An address space refines a partial map**, whatever allocations fail on the way. -/
theorem vmm_refines_map (E : PageEntryOps) (A : FrameAllocator) {s₀ : TableMem}
    (hal : ∀ t ∈ s₀.live, t % 4096 = 0) {vmm : VirtualMemoryManager} {s : TableMem}
    (hnew : VirtualMemoryManager.new A s₀ = some (vmm, s)) {ops : List VmmOp}
    {st : VmmState} {m : PageMap}
    (hclean : Meets (CleanFrames E) (refinementStep E) ((vmm, s), fun _ => none) ops)
    (hrun : run (refinementStep E) ((vmm, s), fun _ => none) ops = some (st, m)) (v : U64) :
    st.1.translate E st.2 v = m (pageNumber v) := by
  have himpl : Implements E st.1 st.2 m := by
    refine run_invariant_of_meets (P := fun p => Implements E p.1.1 p.1.2 p.2) ?_
      (Implements.new hal hnew) hclean hrun
    rintro ⟨⟨vmm, s⟩, m⟩ op st' h hok hstep
    rw [refinementStep, Option.some.injEq] at hstep
    subst hstep
    exact h.step hok
  rw [translate_eq himpl.tree, himpl.agrees]

/-- `alloc_pages(1)` that fails once `n` frames are in use. -/
def scarceFrames (n : ℕ) : FrameAllocator where
  new live := if live.length < n then bumpFrames.new live else none
  fresh live a h := by
    split_ifs at h with hlt
    exact bumpFrames.fresh live a h
  aligned live a h := by
    split_ifs at h with hlt
    exact bumpFrames.aligned live a h
  low live a h := by
    split_ifs at h with hlt
    exact bumpFrames.low live a h

/-- A first attempt gets one of the three tables that it needs, a second one the rest. -/
def secondAttempt : List VmmOp :=
  [.mapPage (scarceFrames 2) 0x5000#64 0x9000#64 3#64, .mapPage bumpFrames 0x5000#64 0x9000#64 3#64,
    .markPageCow 0x5000#64, .unmapPage 0x7000#64]

/-- A call that fails, and then succeeds. -/
theorem vmm_refines_map_secondAttempt :
    ∃ vmm s st m, VirtualMemoryManager.new bumpFrames ⟨fun _ => 0#64, []⟩ = some (vmm, s) ∧
      run (refinementStep plainEntryOps) ((vmm, s), fun _ => none) secondAttempt = some (st, m) ∧
      m (pageNumber 0x5000#64) = some 0x9000#64 ∧
      st.1.translate plainPageEntry st.2 0x5000#64 = m (pageNumber 0x5000#64) := by
  refine ⟨_, _, _, _, rfl, rfl, by decide +kernel, ?_⟩
  have hal : ∀ t ∈ (⟨fun _ => 0#64, []⟩ : TableMem).live, t % 4096 = 0 := by simp
  refine vmm_refines_map plainEntryOps bumpFrames hal rfl ?_
    (show run _ _ secondAttempt = some _ from rfl) _
  -- both attempts find the frames zero-filled
  refine ⟨⟨by decide, by unfold ZeroFor; decide +kernel⟩, fun _ h => ?_⟩
  cases h
  refine ⟨⟨by decide, by unfold ZeroFor; decide +kernel⟩, fun _ _ => ?_⟩
  exact ⟨trivial, fun _ _ => ⟨trivial, fun _ _ => trivial⟩⟩

end Masika
