import Masika.Core.Runs
import Masika.Memory.Virtual.Demand

/-!
# Lost frames

A frame from `alloc_pages` should stay a table of the tree, or be mapped somewhere, until it is
given back with `free_pages`.  The manager never gives one back, so there is only one way not to
lose frames: never to drop a mapping and never to fail after a frame has been obtained.  The frames
drop out of sight

* in `unmap_page`, `unmap_range` and `munmap`, for every page that was mapped;
* when a page is mapped a second time: by `mmap` at an address in use, by a page fault that reports
  a mapped page as not present, and by every copy-on-write fault;
* when a call gets a frame and fails afterwards, because a table cannot be allocated or because
  `find_free_virtual_range` finds nothing;
* when a page is mapped with flags that do not make it present.

`SpaceOp.Careful` excludes these.  Under it `AllHeld` is kept by every call, where the frames that a
call has obtained and not yet mapped are a parameter.
-/

namespace Masika

open PageTableEntry VirtualMemoryManager

/-! ## Where frames are -/

/-- A table of the tree, or the target of a present mapping. -/
def Held (st : VmmState) (f : ℕ) : Prop :=
  IsTable {st.1.pml4} st.2 f ∨
    ∃ v, present (st.2.leafOf st.1.pml4 v) = true ∧ (hwAddr (st.2.leafOf st.1.pml4 v)).toNat = f

/-- No frame in use is lost, apart from those that belong to `others`. -/
def NoneLost (others : Set ℕ) (st : VmmState) : Prop :=
  ∀ f ∈ st.2.live, f ∉ others → Held st f

/-- The tree is in order, and all frames in use are held or `pending`. -/
structure AllHeld (E : PageEntryApi) (pending : Set ℕ) (st : VmmState) : Prop where
  tree : OwnTree E st.1.pml4 st.2
  held : ∀ f ∈ st.2.live, f ∈ pending ∨ Held st f

/-- The same during a call that may still obtain `n` frames from `A`, all of them full of zeros. -/
structure Stocked (E : PageEntryApi) (A : FrameAllocator) (pending : Set ℕ) (n : ℕ)
    (st : VmmState) : Prop extends AllHeld E pending st where
  clean : Clean A st.2
  enough : Supplies A st.2.live n

/-! ## Enough frames -/

section Enough

variable {E : PageEntryApi}

lemma missingTables_le (mem : ℕ → U64) (π : Path) : ∀ t, missingTables E mem t π ≤ π.length := by
  induction π with
  | nil => exact fun t => le_rfl
  | cons i π ih =>
    intro t
    rw [missingTables, List.length_cons]
    split_ifs
    · exact le_rfl
    · exact (ih _).trans (Nat.le_succ _)

/-- At most three tables are missing on the way to a page. -/
lemma missingTables_upperPath_le (mem : ℕ → U64) (virt : U64) (t : ℕ) :
    missingTables E mem t (upperPath virt) ≤ 3 :=
  (missingTables_le mem (upperPath virt) t).trans_eq (upperPath_length virt)

/-- Counting the missing tables on the way down, none of them is left out. -/
lemma tablesMissing_le_missingTables {s : TableMem} {r : ℕ} {Node : ℕ → U64 → Prop}
    {roots : Set ℕ} (hs : VmmForest E Node roots r s) {π : Path} :
    ∀ {ρ : Path} {t : ℕ}, ρ.length + π.length ≤ 3 → x86.tableAt s.mem r ρ = some t →
      tablesMissing s.mem r (pathsBelow ρ π) ≤ missingTables E s.mem t π := by
  induction π with
  | nil => exact fun _ _ => le_rfl
  | cons i π ih =>
    intro ρ t hlen ht
    rw [List.length_cons] at hlen
    rw [missingTables]
    split_ifs with hu
    · exact (tablesMissing_le_length s.mem r ρ (i :: π)).trans_eq List.length_cons
    · have hnext := hs.tableAt_of_used (show ρ.length < 3 by omega) ht (Bool.eq_false_iff.mpr hu)
      refine le_trans ?_ (ih ?_ hnext)
      · rw [pathsBelow, tablesMissing_union_of_some (by rw [hnext]; simp)]
      · rw [List.length_append, List.length_singleton]
        omega

/-- **`map_page` with enough frames** writes its entry. -/
lemma mapPage_supplied {A : FrameAllocator} {vmm : VirtualMemoryManager} {s : TableMem} {n : ℕ}
    {virt : U64} (h : CleanSpace E A (vmm, s))
    (hn : Supplies A s.live (missingTables E s.mem vmm.pml4 (upperPath virt) + n))
    (phys flags : U64) :
    ∃ vmm' s', vmm.mapPage E A s virt phys flags = (.ok (), vmm', s') ∧
      CleanSpace E A (vmm', s') ∧ vmm'.pml4 = vmm.pml4 ∧
      MapEffect vmm.pml4 virt (E.set phys flags (s.leafOf vmm.pml4 virt)) True s s' ∧
      Supplies A s'.live n := by
  have hmissing : tablesMissing s.mem vmm.pml4 (tablePaths virt)
      ≤ missingTables E s.mem vmm.pml4 (upperPath virt) :=
    tablesMissing_le_missingTables h.tree (show 0 + (upperPath virt).length ≤ 3 by simp) rfl
  have hok := (mapPage_ok_iff h virt phys flags).mpr (hn.mono (by omega))
  have hserved := mapPage_served h virt phys flags
  obtain ⟨hspace, hroot, heffect⟩ := h.mapPage virt phys flags
  generalize vmm.mapPage E A s virt phys flags = result at hok hserved hspace hroot heffect
  obtain ⟨answer, vmm', s'⟩ := result
  obtain rfl : answer = .ok () := hok
  rw [eq_self] at heffect
  exact ⟨vmm', s', rfl, hspace, hroot, heffect,
    hserved.frames.supplies_iff.mpr (hn.mono (by omega))⟩

end Enough

/-! ## Mapping a page -/

section Pages

variable {E : PageEntryOps} {A : FrameAllocator} {pending : Set ℕ} {n : ℕ}
  {vmm : VirtualMemoryManager} {s : TableMem}

lemma AllHeld.mono {E : PageEntryApi} {pending' : Set ℕ} {st : VmmState}
    (h : AllHeld E pending st) (hsub : pending ⊆ pending') : AllHeld E pending' st :=
  ⟨h.tree, fun f hf => (h.held f hf).imp (fun hf => hsub hf) id⟩

/-- New frames are pending. -/
lemma AllHeld.take {E : PageEntryApi} (h : AllHeld E pending (vmm, s)) (frames : List ℕ)
    (hal : ∀ f ∈ frames, f % 4096 = 0) :
    AllHeld E ({f | f ∈ frames} ∪ pending) (vmm, ⟨s.mem, frames ++ s.live⟩) := by
  refine ⟨h.tree.addLive frames hal, fun f hf => ?_⟩
  rcases List.mem_append.mp hf with hf | hf
  · exact .inl (.inl hf)
  · exact (h.held f hf).imp .inr id

/-- **Mapping a pending frame at an unused page** accounts for it. -/
lemma Stocked.mapPage {E : PageEntryApi} {f : ℕ} {virt phys flags : U64}
    (h : Stocked E A (insert f pending)
      (missingTables E s.mem vmm.pml4 (upperPath virt) + n) (vmm, s))
    (hfree : s.leafOf vmm.pml4 virt = 0#64) (hphys : (hwAddr phys).toNat = f)
    (hflags : flags.getLsbD 0 = true) :
    ∃ st', vmm.mapPage E A s virt phys flags = (.ok (), st') ∧ Stocked E A pending n st' ∧
      ∀ v, pageNumber v ≠ pageNumber virt →
        st'.2.leafOf st'.1.pml4 v = s.leafOf vmm.pml4 v := by
  obtain ⟨vmm', s', heq, hspace, hroot, heffect, hn⟩ :=
    mapPage_supplied ⟨h.tree, h.clean⟩ h.enough phys flags
  have hother : ∀ v, pageNumber v ≠ pageNumber virt → s'.leafOf vmm.pml4 v = s.leafOf vmm.pml4 v :=
    fun v hv => (heffect.leaf v).2 fun hcond => hv hcond.2
  refine ⟨(vmm', s'), heq, ⟨⟨hspace.tree, fun g hg => ?_⟩, hspace.clean, hn⟩, ?_⟩
  · simp only [Held, hroot]
    -- the frames that were obtained are tables now
    rcases heffect.obtained g hg with hg | htable
    · rcases h.held g hg with (rfl | hpending) | htable | ⟨v, hv, hframe⟩
      · refine .inr (.inr ⟨virt, ?_⟩)
        rw [(heffect.leaf virt).1 ⟨trivial, rfl⟩, E.hwAddr_set, present_eq,
          E.set_flags _ _ _ 0 (by decide)]
        exact ⟨hflags, hphys⟩
      · exact .inl hpending
      · exact .inr (.inl (heffect.tables g htable))
      · -- another page, since this one was unused
        refine .inr (.inr ⟨v, ?_⟩)
        rw [hother v fun hpage => ?_]
        · exact ⟨hv, hframe⟩
        · rw [TableMem.leafOf_congr hpage, hfree] at hv
          exact absurd hv (by decide)
    · exact .inr (.inl htable)
  · rw [hroot]
    exact hother

/-- A fresh frame is mapped at an unused page. -/
lemma Stocked.mapFresh {virt flags : U64} (h : Stocked E A pending
      (missingTables E s.mem vmm.pml4 (upperPath virt) + n + 1) (vmm, s))
    (hfree : s.leafOf vmm.pml4 virt = 0#64) (hflags : flags.getLsbD 0 = true) :
    ∃ st', mapFresh E A vmm s virt flags = (.ok (), st') ∧
      Stocked E A pending n st' ∧
      ∀ v, pageNumber v ≠ pageNumber virt →
        st'.2.leafOf st'.1.pml4 v = s.leafOf vmm.pml4 v := by
  obtain ⟨a, ha, hrest⟩ := h.enough.next
  have hal := A.aligned _ _ ha
  have htake := h.toAllHeld.take [a] (by simpa using hal)
  have hready : Stocked E A (insert a pending)
      (missingTables E s.mem vmm.pml4 (upperPath virt) + n)
      (vmm, ⟨s.mem, a :: s.live⟩) :=
    ⟨⟨htake.tree, fun f hf => by simpa using htake.held f hf⟩, h.clean.take ha, hrest⟩
  have hfree' : (⟨s.mem, a :: s.live⟩ : TableMem).leafOf vmm.pml4 virt = 0#64 := hfree
  have hspec := hready.mapPage hfree' (toNat_hwAddr_ofNat hal (A.low _ _ ha)) hflags
  rw [VirtualMemoryManager.mapFresh, withFrame, ha]
  exact hspec

end Pages

/-! ## Calls -/

section Calls

variable {E : PageEntryOps} {pending : Set ℕ} {vmm : VirtualMemoryManager} {s : TableMem}

/-- The pages `i`, `i + 1`, .. of a range are unused. -/
def UnusedFrom (st : VmmState) (start : U64) (count i : ℕ) : Prop :=
  ∀ j, i ≤ j → j < count → st.2.leafOf st.1.pml4 (pageAddr start j) = 0#64

/-- The pages of a range that are still to come are not touched by mapping one of them. -/
lemma UnusedFrom.next {start : U64} {count i : ℕ} {st st' : VmmState}
    (h : UnusedFrom st start count i) (hcount : count ≤ 2 ^ 36) (hi : i < count)
    (hother : ∀ v, pageNumber v ≠ pageNumber (pageAddr start i) →
      st'.2.leafOf st'.1.pml4 v = st.2.leafOf st.1.pml4 v) :
    UnusedFrom st' start count (i + 1) := by
  intro j hij hj
  rw [hother _ (pageNumber_pageAddr_ne start hcount hj hi (by omega))]
  exact h j (by omega) hj

/-- **The loop of `mmap`.** -/
lemma mmapPages_accounted {A : FrameAllocator} {start prot : U64} {pages : ℕ}
    (h : AllHeld E pending (vmm, s)) (hclean : Clean A s)
    (henough : Supplies A s.live (4 * pages)) (hprot : prot.getLsbD 0 = true)
    (hpages : pages ≤ 2 ^ 36) (hfree : vmm.rangeFree E s start pages = true) :
    AllHeld E pending (mmapPages E A vmm s start pages prot).2 := by
  rw [rangeFree_iff h.tree] at hfree
  have hround : ∀ i < pages, ∀ st : VmmState,
      Stocked E A pending (4 * (pages - i)) st ∧ UnusedFrom st start pages i →
      ∃ st', mapFresh E A st.1 st.2 (pageAddr start i) prot = (.ok (), st') ∧
        Stocked E A pending (4 * (pages - (i + 1))) st' ∧
        UnusedFrom st' start pages (i + 1) := by
    rintro i hi ⟨vmm, s⟩ ⟨hready, hunused⟩
    have hmissing := missingTables_upperPath_le (E := E) s.mem (pageAddr start i)
      vmm.pml4
    have henough : Supplies A s.live (missingTables E s.mem vmm.pml4
        (upperPath (pageAddr start i)) + 4 * (pages - (i + 1)) + 1) :=
      hready.enough.mono (by omega)
    obtain ⟨st', heq, hready', hother⟩ := Stocked.mapFresh
      ⟨hready.toAllHeld, hready.clean, henough⟩ (hunused i le_rfl hi) hprot
    exact ⟨st', heq, hready', hunused.next hpages hi hother⟩
  obtain ⟨st', heq, hready, -⟩ := forPages_ok hround (Nat.zero_add pages)
    ⟨⟨h, hclean, henough⟩, fun j _ hj => hfree j hj⟩
  rw [mmapPages_eq]
  simp only
  rw [heq]
  exact hready.toAllHeld

/-- The frames of a run from `a` on that are left from round `i` on. -/
def framesLeft (a count i : ℕ) : Set ℕ := {f | ∃ j, i ≤ j ∧ j < count ∧ f = a + 4096 * j}

lemma framesLeft_subset (a count i : ℕ) :
    framesLeft a count i ⊆ insert (a + 4096 * i) (framesLeft a count (i + 1)) := by
  rintro f ⟨j, hij, hj, rfl⟩
  rcases Nat.eq_or_lt_of_le hij with rfl | hlt
  · exact .inl rfl
  · exact .inr ⟨j, hlt, hj, rfl⟩

/-- **The loop of `allocate_user_pages`.** -/
lemma allocateUserPages_accounted {A : PageSource} {count frames : ℕ} {flags : U64}
    (h : AllHeld E pending (vmm, s)) (hnew : A.newRun s.live count = some frames)
    (hclean : Clean A ⟨s.mem, framesFrom frames count ++ s.live⟩)
    (henough : Supplies A (framesFrom frames count ++ s.live) (3 * count))
    (hflags : flags.getLsbD 0 = true) (hcount : count ≤ 2 ^ 36) (hroom : ∃ k < USER_SPACE_PAGES,
      vmm.rangeFree E s (pageAddr USER_SPACE_BASE k) count = true) :
    AllHeld E pending (vmm.allocateUserPages E A s count flags).2 := by
  have hal := A.run_aligned _ _ _ hnew
  have hlow := A.run_low _ _ _ hnew
  have htake := h.take _ (framesFrom_aligned hnew)
  obtain ⟨k, hk, hfreek⟩ := hroom
  obtain ⟨start, hstart⟩ : ∃ start, vmm.findFreeVirtualRange E
      ⟨s.mem, framesFrom frames count ++ s.live⟩ count = .ok start :=
    findFreeVirtualRange_of_free hk hfreek
  have hfree := (rangeFree_iff htake.tree start count).mp (rangeFree_of_found hstart)
  have hround : ∀ i < count, ∀ st : VmmState,
      Stocked E A (framesLeft frames count i ∪ pending)
          (3 * (count - i)) st ∧ UnusedFrom st start count i →
      ∃ st', st.1.mapPage E A st.2 (pageAddr start i)
          (pageAddr (BitVec.ofNat 64 frames) i) flags = (.ok (), st') ∧
        Stocked E A (framesLeft frames count (i + 1) ∪ pending)
          (3 * (count - (i + 1))) st' ∧ UnusedFrom st' start count (i + 1) := by
    rintro i hi ⟨vmm, s⟩ ⟨hready, hunused⟩
    have hmissing := missingTables_upperPath_le (E := E) s.mem (pageAddr start i)
      vmm.pml4
    have henough : Supplies A s.live (missingTables E s.mem vmm.pml4
        (upperPath (pageAddr start i)) + 3 * (count - (i + 1))) :=
      hready.enough.mono (by omega)
    have hphys : (hwAddr (pageAddr (BitVec.ofNat 64 frames) i)).toNat = frames + 4096 * i := by
      rw [pageAddr_ofNat]
      exact toNat_hwAddr_ofNat (by omega) (by omega)
    have hsub : framesLeft frames count i ∪ pending
        ⊆ insert (frames + 4096 * i) (framesLeft frames count (i + 1) ∪ pending) := by
      rw [← Set.insert_union]
      exact Set.union_subset_union_left _ (framesLeft_subset frames count i)
    obtain ⟨st', heq, hready', hother⟩ := Stocked.mapPage
      ⟨hready.toAllHeld.mono hsub, hready.clean, henough⟩ (hunused i le_rfl hi) hphys hflags
    exact ⟨st', heq, hready', hunused.next hcount hi hother⟩
  have hsub : {f | f ∈ framesFrom frames count} ∪ pending
      ⊆ framesLeft frames count 0 ∪ pending := by
    refine Set.union_subset_union_left _ fun f hf => ?_
    obtain ⟨j, hj, rfl⟩ := List.mem_map.mp hf
    exact ⟨j, Nat.zero_le j, List.mem_range.mp hj, rfl⟩
  obtain ⟨st', heq, hready, -⟩ := forPages_ok hround (Nat.zero_add count)
    ⟨⟨htake.mono hsub, hclean, henough⟩, fun j _ hj => hfree j hj⟩
  rw [allocateUserPages_eq E vmm s A count flags hnew]
  simp only [hstart]
  rw [heq]
  refine hready.toAllHeld.mono (Set.union_subset ?_ fun f hf => hf)
  rintro f ⟨j, hij, hj, -⟩
  exact absurd hij (by omega)

/-- Unmapping a range where nothing is mapped does nothing. -/
lemma unmapRange_of_free (hs : OwnTree E vmm.pml4 s) {start size : U64}
    (hfree : vmm.rangeFree E s start (pagesOf size) = true) :
    (vmm.unmapRange E s start size).2 = (vmm, s) := by
  rw [rangeFree_iff hs] at hfree
  exact forPages_idle (fun i hi => unmapPage_of_unused hs (hfree i hi)) (Nat.zero_add _)

end Calls

/-! ## Runs -/

/-- The calls that map or unmap. -/
inductive SpaceOp where
  | mmap (A : FrameAllocator) (addr length prot flags : U64)
  | munmap (addr length : U64)
  | unmapPage (virt : U64)
  | unmapRange (start size : U64)
  | fault (A : FrameAllocator) (addr code : U64)
  | allocate (A : PageSource) (count : ℕ) (flags : U64)

section Runs

variable (E : PageEntryOps)

/-- What a call does. -/
def SpaceOp.exec : SpaceOp → VmmState → VmmState
  | mmap A addr length prot flags, (vmm, s) => (vmm.mmap E A s addr length prot flags).2
  | munmap addr length, (vmm, s) => (vmm.munmap E s addr length).2
  | unmapPage virt, (vmm, s) => (vmm.unmapPage E s virt).2
  | unmapRange start size, (vmm, s) => (vmm.unmapRange E s start size).2
  | fault A addr code, (vmm, s) => (handlePageFault E A vmm s addr code).2
  | allocate A count flags, (vmm, s) => (vmm.allocateUserPages E A s count flags).2

/-- One call. -/
def frameStep (st : VmmState) (op : SpaceOp) : Option VmmState := some (op.exec E st)

/-- What it takes not to lose a frame: nothing is unmapped or mapped over, and a call that gets a
frame gets all that it needs and makes its pages present.  A page takes at most its own frame and
three tables.  All frames that would be handed out from the call on hold zeros, not only those that
it gets (`Clean`). -/
def SpaceOp.Careful : VmmState → SpaceOp → Prop
  | (vmm, s), mmap A addr length prot _ =>
    A.new s.live = none ∨ (addr ≠ 0#64 ∧ validateUserRange addr length = false) ∨
      (prot.getLsbD 0 = true ∧ pagesOf length ≤ 2 ^ 36 ∧ Clean A s ∧
        Supplies A s.live (4 * pagesOf length) ∧
        (addr ≠ 0#64 → vmm.rangeFree E s addr (pagesOf length) = true))
  | (vmm, s), munmap addr length => vmm.rangeFree E s addr (pagesOf length) = true
  | (vmm, s), unmapPage virt => vmm.translate E s virt = none
  | (vmm, s), unmapRange start size => vmm.rangeFree E s start (pagesOf size) = true
  | (vmm, s), fault A addr code =>
    let vaddr := addr &&& ~~~0xFFF#64
    A.new s.live = none ∨
      if code &&& 0x01#64 = 0#64 then
        vmm.translate E s vaddr = none ∧ Clean A s ∧
          Supplies A s.live
            (missingTables E s.mem vmm.pml4 (upperPath vaddr) + 1)
      else ¬ (code &&& 0x02#64 ≠ 0#64 ∧ vmm.isCowPage E s vaddr = true)
  | (vmm, s), allocate A count flags => ∀ frames, A.newRun s.live count = some frames →
      flags.getLsbD 0 = true ∧ count ≤ 2 ^ 36 ∧
        (∃ k < USER_SPACE_PAGES, vmm.rangeFree E s (pageAddr USER_SPACE_BASE k) count = true) ∧
        Clean A ⟨s.mem, framesFrom frames count ++ s.live⟩ ∧
        Supplies A (framesFrom frames count ++ s.live) (3 * count)

end Runs

section Steps

variable {E : PageEntryOps} {others : Set ℕ} {vmm : VirtualMemoryManager} {s : TableMem}

lemma mmap_accounted {A : FrameAllocator} {addr length prot flags : U64}
    (h : AllHeld E others (vmm, s))
    (hok : (SpaceOp.mmap A addr length prot flags).Careful E (vmm, s)) :
    AllHeld E others (vmm.mmap E A s addr length prot flags).2 := by
  -- the loop, from wherever it starts
  have hloop : ∀ start, (A.new s.live = none ∨ prot.getLsbD 0 = true ∧ pagesOf length ≤ 2 ^ 36 ∧
      Clean A s ∧ Supplies A s.live (4 * pagesOf length) ∧
      vmm.rangeFree E s start (pagesOf length) = true) →
      AllHeld E others (mmapPages E A vmm s start (pagesOf length) prot).2 := by
    rintro start (hnone | ⟨hprot, hpages, hclean, henough, hfree⟩)
    · rw [mmapPages_eq]
      simp only
      rw [forPages_idle (fun i _ => mapFresh_of_none hnone _ _) (Nat.zero_add _)]
      exact h
    · exact mmapPages_accounted h hclean henough hprot hpages hfree
  rw [mmap]
  split_ifs with haddr hvalid
  · refine hloop addr ?_
    rcases hok with hnone | ⟨-, hinvalid⟩ | ⟨hprot, hpages, hclean, henough, hfree⟩
    · exact .inl hnone
    · rw [hvalid] at hinvalid
      cases hinvalid
    · exact .inr ⟨hprot, hpages, hclean, henough, hfree haddr⟩
  · exact h
  · cases hfind : vmm.findFreeVirtualRange E s (pagesOf length) with
    | error e => exact h
    | ok start =>
      refine hloop start ?_
      rcases hok with hnone | ⟨haddr', -⟩ | ⟨hprot, hpages, hclean, henough, -⟩
      · exact .inl hnone
      · exact absurd haddr' haddr
      · exact .inr ⟨hprot, hpages, hclean, henough, rangeFree_of_found hfind⟩

lemma handlePageFault_accounted {A : FrameAllocator} {addr code : U64}
    (h : AllHeld E others (vmm, s)) (hok : (SpaceOp.fault A addr code).Careful E (vmm, s)) :
    AllHeld E others (handlePageFault E A vmm s addr code).2 := by
  rw [handlePageFault]
  simp only [SpaceOp.Careful] at hok
  split_ifs with hdemand hcow
  · rw [if_pos hdemand] at hok
    rcases hok with hnone | ⟨hfree, hclean, henough⟩
    · rw [mapFresh_of_none hnone]
      exact h
    · rw [translate_eq h.tree, mappedFrame_eq_none] at hfree
      obtain ⟨st', heq, hready, -⟩ := Stocked.mapFresh (n := 0) ⟨h, hclean, henough⟩ hfree
        (show (0x03#64).getLsbD 0 = true by decide)
      rw [heq]
      exact hready.toAllHeld
  · rw [if_neg hdemand] at hok
    rcases hok with hnone | hnot
    · rw [handleCowFault, withFrame, hnone]
      exact h
    · exact absurd hcow hnot
  · exact h

/-- **One call.** -/
lemma frameStep_accounted (st : VmmState) (op : SpaceOp) (st' : VmmState)
    (h : AllHeld E others st) (hok : op.Careful E st)
    (hstep : frameStep E st op = some st') : AllHeld E others st' := by
  obtain ⟨vmm, s⟩ := st
  rw [← Option.some.inj hstep]
  cases op with
  | mmap A addr length prot flags => exact mmap_accounted h hok
  | munmap addr length =>
    have hidle : (vmm.munmap E s addr length).2 = (vmm, s) := unmapRange_of_free h.tree hok
    rw [SpaceOp.exec, hidle]
    exact h
  | unmapPage virt =>
    have hfree := hok
    rw [SpaceOp.Careful, translate_eq h.tree, mappedFrame_eq_none] at hfree
    rw [SpaceOp.exec, unmapPage_of_unused h.tree hfree]
    exact h
  | unmapRange start size =>
    rw [SpaceOp.exec, unmapRange_of_free h.tree hok]
    exact h
  | fault A addr code => exact handlePageFault_accounted h hok
  | allocate A count flags =>
    cases hnew : A.newRun s.live count with
    | none =>
      simp only [SpaceOp.exec, allocateUserPages, hnew]
      exact h
    | some frames =>
      obtain ⟨hflags, hcount, hroom, hclean, henough⟩ := hok frames hnew
      exact allocateUserPages_accounted h hnew hclean henough hflags hcount hroom

end Steps

/-- **No frame is lost** in a run whose calls unmap nothing, map nothing over, and get all the
frames that they need once they have got one. -/
theorem no_frame_lost (E : PageEntryOps) {others : Set ℕ} {st st' : VmmState} {ops : List SpaceOp}
    (hs : OwnTree E st.1.pml4 st.2) (hstart : NoneLost others st)
    (hmeets : Meets (SpaceOp.Careful E) (frameStep E) st ops)
    (hrun : run (frameStep E) st ops = some st') : NoneLost others st' := by
  have h : AllHeld E others st :=
    ⟨hs, fun f hf => or_iff_not_imp_left.mpr (hstart f hf)⟩
  have h' : AllHeld E others st' :=
    run_invariant_of_meets frameStep_accounted h hmeets hrun
  exact fun f hf hother => (h'.held f hf).resolve_left hother

/-! ## Runs from a new address space -/

/-- Without entries in the top table there is no other table. -/
lemma isTable_of_zero {s : TableMem} {r t : ℕ} (hzero : ∀ i, s.mem (x86.slot r i) = 0#64)
    (h : IsTable {r} s t) : t = r := by
  obtain ⟨_, rfl, π, -, ht⟩ := h
  cases π with
  | nil => exact (Option.some.inj ht).symm
  | cons i π =>
    rw [RadixFormat.tableAt, hzero i] at ht
    cases ht

lemma emptySpace_noneLost : NoneLost ∅ emptySpace := by
  intro f hf _
  rw [List.mem_singleton.mp hf]
  exact .inl ⟨_, rfl, [], by decide, rfl⟩

/-- Two pages at 0x100000, and an attempt to unmap a page where there is none. -/
def twoPages : List SpaceOp :=
  [.mmap bumpFrames 0x100000#64 0x2000#64 3#64 0#64, .munmap 0x300000#64 0x1000#64]

/-- Two pages take six frames with their tables and the root. -/
theorem no_frame_lost_twoPages : ∃ st,
    run (frameStep plainEntryOps) emptySpace twoPages = some st ∧ st.2.live.length = 6 ∧
      NoneLost ∅ st := by
  refine ⟨_, rfl, by decide +kernel, ?_⟩
  refine no_frame_lost plainEntryOps (emptySpace_tree _) emptySpace_noneLost ?_
    (show run _ _ twoPages = some _ from rfl)
  refine ⟨.inr (.inr ⟨by decide, by decide, fun _ _ _ _ => rfl, by decide +kernel, fun _ => ?_⟩),
    ?_⟩
  · decide +kernel
  · rintro _ ⟨⟩
    refine ⟨?_, fun _ _ => trivial⟩
    rw [SpaceOp.Careful]
    decide +kernel

section Unmap

variable {E : PageEntryOps} {vmm : VirtualMemoryManager} {s : TableMem}

/-- Unmapping the only page of an address space: a frame that is not a table is not held. -/
lemma not_held_of_unmapPage {f : ℕ} {virt : U64}
    (hs : OwnTree E vmm.pml4 s) (hdata : ¬ IsTable {vmm.pml4} s f)
    (honly : ∀ v, pageNumber v ≠ pageNumber virt → s.leafOf vmm.pml4 v = 0#64) :
    ¬ Held (vmm.unmapPage E s virt).2 f := by
  obtain ⟨hroot, -, hset, -⟩ := unmapPage_spec hs virt
  rintro (htable | ⟨v, hv, -⟩)
  · rw [hroot, hset.isTable] at htable
    exact hdata htable
  · rw [hroot, hset.leaf _ rfl v] at hv
    split_ifs at hv with hpage
    · exact absurd hv (by decide)
    · rw [honly v fun h => hpage ⟨rfl, h⟩] at hv
      exact absurd hv (by decide)

/-- **A page that is mapped and unmapped costs a frame**: in a new address space, for every
allocator that has enough frames. -/
lemma unmapPage_loses (A : FrameAllocator) {a : ℕ} (virt flags : U64)
    (hal : ∀ t ∈ s.live, t % 4096 = 0) (hlive : vmm.pml4 ∈ s.live)
    (hzero : ∀ i, s.mem (x86.slot vmm.pml4 i) = 0#64) (hclean : Clean A s)
    (henough : Supplies A s.live 4) (hnew : A.new s.live = some a) :
    ∃ vmm' s', mapFresh E A vmm s virt flags = (.ok (), vmm', s') ∧
      a ∈ (vmm'.unmapPage E s' virt).2.2.live ∧ ¬ Held (vmm'.unmapPage E s' virt).2 a := by
  have htree := (treeIn_of_zero E hal hlive hzero).addLive [a]
    (by simpa using A.aligned _ _ hnew)
  obtain ⟨b, hb, hrest⟩ := henough.next
  obtain rfl : b = a := Option.some.inj (hb.symm.trans hnew)
  have hmissing := missingTables_upperPath_le (E := E) s.mem virt vmm.pml4
  obtain ⟨vmm', s', hmap, ⟨hs', -⟩, hroot, heffect, -⟩ :=
    mapPage_supplied (n := 0) ⟨htree, hclean.take hnew⟩ (hrest.mono hmissing)
      (BitVec.ofNat 64 b) flags
  refine ⟨vmm', s', by rw [mapFresh, withFrame, hnew]; exact hmap, ?_, ?_⟩
  · rw [(unmapPage_spec hs' virt).2.2.1.live]
    exact heffect.live List.mem_cons_self
  · refine not_held_of_unmapPage hs' ?_ fun v hv => ?_
    · rw [hroot]
      refine heffect.data b List.mem_cons_self fun ht => ?_
      exact A.fresh _ _ hnew (isTable_of_zero hzero ht ▸ hlive)
    · rw [hroot, (heffect.leaf v).2 fun h => hv h.2]
      exact leafOf_of_zero hzero v

end Unmap

/-- A page is mapped with `mmap` and unmapped with `munmap`. -/
def mapAndUnmap : List SpaceOp :=
  [.mmap bumpFrames 0x100000#64 0x1000#64 3#64 0#64, .munmap 0x100000#64 0x1000#64]

/-- The frame of the page stays in use, and nothing refers to it. -/
theorem munmap_loses_frame : ∃ st,
    run (frameStep plainEntryOps) emptySpace mapAndUnmap = some st ∧ ¬ NoneLost ∅ st := by
  obtain ⟨vmm, s, hmap, hlive, hlost⟩ :
      ∃ vmm s, mapFresh plainEntryOps bumpFrames emptySpace.1 emptySpace.2 0x100000#64 3#64
          = (.ok (), vmm, s) ∧ 0x201000 ∈ (vmm.unmapPage plainEntryOps s 0x100000#64).2.2.live ∧
        ¬ Held (vmm.unmapPage plainEntryOps s 0x100000#64).2 0x201000 :=
    unmapPage_loses bumpFrames _ _ (by decide) (by decide) (fun _ => rfl) (fun _ _ _ _ => rfl)
      (by decide +kernel) rfl
  have hfirst : (SpaceOp.mmap bumpFrames 0x100000#64 0x1000#64 3#64 0#64).exec plainEntryOps
      emptySpace = (vmm, s) := by
    change (mmapPages plainEntryOps bumpFrames emptySpace.1 emptySpace.2 0x100000#64 1 3#64).2 = _
    rw [mmapPages_eq, forPages_one]
    exact congrArg Prod.snd hmap
  have hsecond : (SpaceOp.munmap 0x100000#64 0x1000#64).exec plainEntryOps (vmm, s)
      = (vmm.unmapPage plainEntryOps s 0x100000#64).2 := by
    change (forPages (fun i (st : VmmState) => st.1.unmapPage plainEntryOps st.2
      (pageAddr 0x100000#64 i)) 1 0 (vmm, s)).2 = _
    rw [forPages_one]
    rfl
  refine ⟨(vmm.unmapPage plainEntryOps s 0x100000#64).2, ?_, fun h => hlost (h _ hlive id)⟩
  rw [← hsecond, ← hfirst]
  rfl

end Masika
