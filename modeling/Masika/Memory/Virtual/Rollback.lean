import Masika.Memory.Virtual.Placement

/-!
# Calls that fail in the middle

`mmap`, `map_range` and `allocate_user_pages` acquire frames and map pages one after another, and
when one of these steps fails they return the error without undoing the earlier ones.

* A frame for data is in use from the moment on in which it is obtained, and it is not a table
  (`DataFrame`).  Nothing gives it back, so that `mmap` and `allocate_user_pages` only fail cleanly
  when they have not got a single frame.
* `map_range` obtains frames for tables only (`OnlyTables`).  What it leaves behind are the mappings
  of the rounds that have succeeded (`RoundsMapped`).

`failing_calls_clean_iff` says for all three exactly when a failing call has changed nothing, by the
range, the tables that exist and the frames that are left before the call.
-/

namespace Masika

open PageTableEntry

namespace VirtualMemoryManager

section Definitions

variable (E : PageEntryOps) (A : FrameAllocator)

/-- A round of `map_range`. -/
def mapRangeRound (start physStart flags : U64) (i : ℕ) (st : VmmState) : VmmAnswer Unit :=
  st.1.mapPage E A st.2 (pageAddr start i) (pageAddr physStart i) flags

/-- Page by page. -/
def mapRange (vmm : VirtualMemoryManager) (s : TableMem) (start size physStart flags : U64) :
    VmmAnswer Unit :=
  forPages (mapRangeRound E A start physStart flags) (pagesOf size) 0 (vmm, s)

end Definitions

/-! ## All or nothing -/

/-- If the call fails, every address is translated as before, and the frames that have come into use
are tables. -/
def AllOrNothing (E : PageEntryApi) (st : VmmState) {α : Type} (result : VmmAnswer α) : Prop :=
  ∀ e, result.1 = .error e →
    (∀ v, result.2.1.translate E result.2.2 v = st.1.translate E st.2 v) ∧
      ∀ a ∈ result.2.2.live, a ∈ st.2.live ∨ IsTable {st.1.pml4} result.2.2 a

section Clean

variable {E : PageEntryApi} {A : FrameAllocator} {st : VmmState} {α : Type}
  {result : VmmAnswer α}

lemma allOrNothing_of_same (h : result.2 = st) : AllOrNothing E st result := by
  intro e _
  rw [h]
  exact ⟨fun v => rfl, fun a ha => .inl ha⟩

lemma allOrNothing_of_ok {a : α} (h : result.1 = .ok a) : AllOrNothing E st result := by
  intro e he
  rw [h] at he
  cases he

/-- An answer that only replaces `()` is a success if `()` was one. -/
lemma exists_map_eq_ok {answer : Except VmmError Unit} {start : U64} :
    (∃ a, (answer.map fun _ => start) = .ok a) ↔ answer = .ok () := by
  cases answer <;> simp [Except.map]

/-- `d` is in use, and it is not a table. -/
structure DataFrame (E : PageEntryApi) (A : FrameAllocator) (r d : ℕ) (st : VmmState) : Prop where
  space : CleanSpace E A st
  root : st.1.pml4 = r
  live : d ∈ st.2.live
  data : ¬ IsTable {r} st.2 d

/-- A frame that was not in use is not a table. -/
lemma not_isTable_of_fresh {vmm : VirtualMemoryManager} {s : TableMem} (hs : InOrder E (vmm, s))
    {a : ℕ} (ha : a ∉ s.live) : ¬ IsTable {vmm.pml4} s a := by
  rintro ⟨r, rfl, π, hπ, ht⟩
  exact ha (hs.forest.table_live _ rfl π a hπ ht)

/-- Mapping a page makes no table of it. -/
lemma DataFrame.mapPage {r d : ℕ} (h : DataFrame E A r d st)
    (virt phys flags : U64) : DataFrame E A r d (st.1.mapPage E A st.2 virt phys flags).2 := by
  obtain ⟨hspace, hroot, heffect⟩ := h.space.mapPage virt phys flags
  rw [h.root] at heffect
  exact ⟨hspace, hroot.trans h.root, heffect.live h.live, heffect.data d h.live h.data⟩

lemma DataFrame.take {r d a : ℕ} (h : DataFrame E A r d st)
    (ha : A.new st.2.live = some a) : DataFrame E A r d (st.1, ⟨st.2.mem, a :: st.2.live⟩) :=
  ⟨h.space.take ha, h.root, List.mem_cons_of_mem a h.live, h.data⟩

lemma DataFrame.mapFresh {E : PageEntryOps} {r d : ℕ}
    (h : DataFrame E A r d st) (virt flags : U64) :
    DataFrame E A r d (mapFresh E A st.1 st.2 virt flags).2 := by
  rw [VirtualMemoryManager.mapFresh, withFrame]
  cases hnew : A.new st.2.live with
  | none => exact h
  | some a => exact (h.take hnew).mapPage virt (BitVec.ofNat 64 a) flags

/-- A call that leaves a new data frame behind is not clean. -/
lemma not_allOrNothing_of_data {d : ℕ} {e : VmmError} (hfail : result.1 = .error e)
    (hfresh : d ∉ st.2.live) (h : DataFrame E A st.1.pml4 d result.2) :
    ¬ AllOrNothing E st result := by
  intro hclean
  rcases (hclean e hfail).2 d h.live with hold | htable
  · exact hfresh hold
  · exact h.data htable

end Clean

/-! ## `mmap` -/

section Mmap

variable {E : PageEntryOps} {A : FrameAllocator} {vmm : VirtualMemoryManager} {s : TableMem}
  {addr length prot flags : U64}

/-- Without a single frame, nothing happens. -/
lemma mmap_of_no_frame (hnew : A.new s.live = none) :
    (vmm.mmap E A s addr length prot flags).2 = (vmm, s) := by
  rw [mmap_eq]
  cases vmm.mmapStart E s addr length with
  | error e => rfl
  | ok start =>
    refine forPages_idle (fun i _ => ?_) (Nat.zero_add _)
    rw [mmapRound, mapFresh_of_none hnew]

/-- The first frame is a data frame at the end, however the call ends. -/
lemma mmap_dataFrame (hs : CleanSpace E A (vmm, s)) {start : U64}
    (hstart : vmm.mmapStart E s addr length = .ok start) {a : ℕ} (hnew : A.new s.live = some a)
    (hpages : pagesOf length ≠ 0) :
    DataFrame E A vmm.pml4 a (vmm.mmap E A s addr length prot flags).2 := by
  obtain ⟨pages, hpages⟩ := Nat.exists_eq_add_one_of_ne_zero hpages
  have htaken : DataFrame E A vmm.pml4 a (vmm, ⟨s.mem, a :: s.live⟩) :=
    ⟨hs.take hnew, rfl, List.mem_cons_self, not_isTable_of_fresh hs.tree (A.fresh _ _ hnew)⟩
  have hfirst : DataFrame E A vmm.pml4 a (mmapRound E A start prot 0 (vmm, s)).2 := by
    rw [mmapRound, mapFresh, withFrame, hnew]
    exact htaken.mapPage (pageAddr start 0) (BitVec.ofNat 64 a) prot
  have hloop : (vmm.mmap E A s addr length prot flags).2
      = (forPages (mmapRound E A start prot) (pages + 1) 0 (vmm, s)).2 := by
    rw [mmap_eq, hstart, hpages]
  rw [hloop, forPages]
  generalize mmapRound E A start prot 0 (vmm, s) = result at hfirst
  obtain ⟨_ | _, st⟩ := result
  · exact hfirst
  · exact forPages_invariant (fun i st h => h.mapFresh (pageAddr start i) prot) pages 1 hfirst

/-- When `mmap` succeeds. -/
lemma mmap_ok_iff (hs : CleanSpace E A (vmm, s)) {start : U64}
    (hstart : vmm.mmapStart E s addr length = .ok start) (prot flags : U64) :
    (∃ a, (vmm.mmap E A s addr length prot flags).1 = .ok a) ↔
      Supplies A s.live (framesNeeded 1 s.mem vmm.pml4 (pageAddr start) (pagesOf length)) := by
  have hround : ∀ i st, CleanSpace E A st →
      MapsRound E A 1 (pageAddr start i) st (mmapRound E A start prot i st) :=
    fun i st hst => mapFresh_mapsRound hst (pageAddr start i) prot
  rw [mmap_eq, hstart]
  exact exists_map_eq_ok.trans (forPages_ok_iff hround hs (pagesOf length))

/-- **When a failing `mmap` has changed nothing.** -/
lemma mmap_allOrNothing_iff (hs : CleanSpace E A (vmm, s)) :
    AllOrNothing E (vmm, s) (vmm.mmap E A s addr length prot flags) ↔
      ∀ start, vmm.mmapStart E s addr length = .ok start → A.new s.live = none ∨
        Supplies A s.live (framesNeeded 1 s.mem vmm.pml4 (pageAddr start) (pagesOf length)) := by
  cases hstart : vmm.mmapStart E s addr length with
  | error e =>
    refine iff_of_true (allOrNothing_of_same ?_) fun start heq => by cases heq
    rw [mmap_of_refused hstart]
  | ok start =>
    have hok := mmap_ok_iff hs hstart prot flags
    constructor
    · intro hclean start' heq
      obtain rfl := Except.ok.inj heq
      rw [or_iff_not_imp_left]
      intro hnew
      obtain ⟨a, hnew⟩ := Option.ne_none_iff_exists'.mp hnew
      rw [← hok]
      cases hanswer : (vmm.mmap E A s addr length prot flags).1 with
      | ok b => exact ⟨b, rfl⟩
      | error e =>
        have hpages : pagesOf length ≠ 0 := by
          intro hzero
          rw [mmap_eq, hstart, hzero] at hanswer
          cases hanswer
        exact absurd hclean (not_allOrNothing_of_data hanswer (A.fresh _ _ hnew)
          (mmap_dataFrame hs hstart hnew hpages))
    · intro h
      rcases h start rfl with hnew | henough
      · exact allOrNothing_of_same (mmap_of_no_frame hnew)
      · obtain ⟨a, ha⟩ := hok.mpr henough
        exact allOrNothing_of_ok ha

end Mmap

/-! ## `map_range` -/

section MapRange

variable {E : PageEntryOps} {A : FrameAllocator} {vmm : VirtualMemoryManager} {s : TableMem}
  {start size physStart flags : U64}

/-- Frames come into use for tables only. -/
structure OnlyTables (E : PageEntryApi) (A : FrameAllocator) (st st' : VmmState) : Prop where
  space : CleanSpace E A st'
  root : st'.1.pml4 = st.1.pml4
  obtained : ∀ a ∈ st'.2.live, a ∈ st.2.live ∨ IsTable {st.1.pml4} st'.2 a

lemma OnlyTables.mapPage {E : PageEntryApi} {st st' : VmmState} (h : OnlyTables E A st st')
    (virt phys flags : U64) : OnlyTables E A st (st'.1.mapPage E A st'.2 virt phys flags).2 := by
  obtain ⟨hspace, hroot, heffect⟩ := h.space.mapPage virt phys flags
  rw [h.root] at heffect
  refine ⟨hspace, hroot.trans h.root, fun a ha => ?_⟩
  rcases heffect.obtained a ha with ha | ha
  · exact (h.obtained a ha).imp id (heffect.tables a)
  · exact .inr ha

/-- After `k` rounds of `map_range`, which have all succeeded: their pages have been given their
entries.  After `2 ^ 36` rounds the addresses are those of the first pages again. -/
structure RoundsMapped (E : PageEntryOps) (A : FrameAllocator) (start physStart flags : U64)
    (st : VmmState) (k : ℕ) (st₁ : VmmState) : Prop where
  tables : OnlyTables E A st st₁
  entries : k ≤ 2 ^ 36 → ∀ i < k, st₁.2.leafOf st.1.pml4 (pageAddr start i)
    = E.set (pageAddr physStart i) flags (st.2.leafOf st.1.pml4 (pageAddr start i))

lemma RoundsMapped.step {st st₁ st' : VmmState} {k : ℕ}
    (hreached : Reached E A 0 (pageAddr start) st k st₁)
    (h : RoundsMapped E A start physStart flags st k st₁)
    (hok : mapRangeRound E A start physStart flags k st₁ = (.ok (), st')) :
    RoundsMapped E A start physStart flags st (k + 1) st' := by
  have htables := h.tables.mapPage (pageAddr start k) (pageAddr physStart k) flags
  have hsets := hreached.space.mapPage_sets (pageAddr start k) (pageAddr physStart k) flags
  rw [show st₁.1.mapPage E A st₁.2 (pageAddr start k) (pageAddr physStart k) flags
    = (.ok (), st') from hok] at htables hsets
  refine ⟨htables, fun hk i hi => ?_⟩
  have hother : ∀ j < k, pageNumber (pageAddr start k) ≠ pageNumber (pageAddr start j) :=
    fun j hj => pageNumber_pageAddr_ne start hk k.lt_succ_self (Nat.lt_succ_of_lt hj) hj.ne'
  rw [← hreached.kept.root]
  rcases Nat.eq_or_lt_of_le (Nat.le_of_lt_succ hi) with rfl | hlt
  · -- the page of this round has not been touched before
    rw [hsets.own rfl _ rfl]
    dsimp only
    rw [hreached.kept.root, hreached.kept.leaf _ hother]
  · rw [hsets.leaf _ fun _ => (hother i hlt).symm]
    dsimp only
    rw [hreached.kept.root]
    exact h.entries (by omega) i hlt

/-- A page of the range for whose tables there are frames is mapped to the frame that it would be
given. -/
def MapsInPlace (E : PageEntryOps) (A : FrameAllocator) (vmm : VirtualMemoryManager) (s : TableMem)
    (start size physStart flags : U64) : Prop :=
  ∀ i < pagesOf size,
    Supplies A s.live (framesNeeded 0 s.mem vmm.pml4 (pageAddr start) (i + 1)) →
      vmm.translate E s (pageAddr start i)
        = mappedFrame (E.set (pageAddr physStart i) flags (s.leafOf vmm.pml4 (pageAddr start i)))

/-- Once all pages of the address space have been mapped there is no table that could be missing. -/
lemma rounds_lt_of_not_supplies {E : PageEntryApi} {st st₁ : VmmState} {k : ℕ}
    (h : Reached E A 0 (pageAddr start) st k st₁)
    (hnot : ¬ Supplies A st.2.live (framesNeeded 0 st.2.mem st.1.pml4 (pageAddr start) (k + 1))) :
    k < 2 ^ 36 := by
  by_contra hk
  have hpage : pageNumber (pageAddr start k) = pageNumber (pageAddr start (k - 2 ^ 36)) := by
    rw [pageNumber, pageNumber, ← BitVec.toNat_inj, BitVec.extractLsb'_toNat,
      BitVec.extractLsb'_toNat, Nat.shiftRight_eq_div_pow, Nat.shiftRight_eq_div_pow,
      toNat_pageAddr, toNat_pageAddr]
    omega
  have hpaths : pathsOf (pageAddr start) (k + 1) = pathsOf (pageAddr start) k := by
    rw [pathsOf_succ, Finset.union_eq_left, tablePaths_congr hpage]
    have hmem : k - 2 ^ 36 ∈ Finset.range k := Finset.mem_range.mpr (by omega)
    exact Finset.subset_biUnion_of_mem (fun i => tablePaths (pageAddr start i)) hmem
  refine hnot ?_
  rw [framesNeeded, hpaths, Nat.zero_mul, ← Nat.zero_mul k]
  exact h.enough

/-- **When a failing `map_range` has changed nothing.** -/
lemma mapRange_allOrNothing_iff (hs : CleanSpace E A (vmm, s)) :
    AllOrNothing E (vmm, s) (vmm.mapRange E A s start size physStart flags) ↔
      Supplies A s.live (framesNeeded 0 s.mem vmm.pml4 (pageAddr start) (pagesOf size)) ∨
        MapsInPlace E A vmm s start size physStart flags := by
  have hround : ∀ i st, CleanSpace E A st → MapsRound E A 0
      (pageAddr start i) st (mapRangeRound E A start physStart flags i st) :=
    fun i st hst => mapPage_mapsRound hst (pageAddr start i) (pageAddr physStart i) flags
  obtain ⟨k, st₁, hreached, hmapped, hiff, ⟨rfl, heq⟩ | ⟨hlt, e, st', hfail, heq⟩⟩ :=
    forPages_reached (I := RoundsMapped E A start physStart flags (vmm, s)) hround
      (fun i st₁ st' h hI hok => hI.step h hok) hs
      ⟨⟨hs, rfl, fun a ha => .inl ha⟩, fun _ i hi => absurd hi (Nat.not_lt_zero i)⟩ (pagesOf size)
  · refine iff_of_true (allOrNothing_of_ok (a := ()) ?_) (.inl hreached.enough)
    rw [mapRange, heq]
  · have hnot := hreached.not_supplies (hround k st₁ hreached.space) hfail
    have hentries := hmapped.entries (rounds_lt_of_not_supplies hreached hnot).le
    have htables := hmapped.tables.mapPage (pageAddr start k) (pageAddr physStart k) flags
    obtain ⟨-, -, hleaf⟩ := hreached.of_error (hfail ▸ hround k st₁ hreached.space)
    rw [show st₁.1.mapPage E A st₁.2 (pageAddr start k) (pageAddr physStart k) flags
      = (.error e, st') from hfail] at htables
    have hafter : ∀ v, st'.1.translate E st'.2 v = mappedFrame (st₁.2.leafOf vmm.pml4 v) := by
      intro v
      rw [translate_eq htables.space.tree, htables.root, hleaf]
    rw [AllOrNothing, mapRange, heq,
      or_iff_right fun hall => hnot (hall.mono (framesNeeded_mono hlt))]
    constructor
    · intro hclean i hi hframes
      rw [← (hclean e rfl).1, hafter]
      exact congrArg mappedFrame (hentries i ((hiff i hi).mp hframes))
    · refine fun hplace _ _ => ⟨fun v => ?_, htables.obtained⟩
      rw [hafter]
      by_cases hpage : ∃ i < k, pageNumber v = pageNumber (pageAddr start i)
      · obtain ⟨i, hi, hpage⟩ := hpage
        have hsame := hplace i (hi.trans hlt) ((hiff i (hi.trans hlt)).mpr hi)
        rw [TableMem.leafOf_congr hpage, translate_congr_page hpage, hsame]
        exact congrArg mappedFrame (hentries i hi)
      · rw [hreached.kept.leaf v fun i hi hc => hpage ⟨i, hi, hc⟩, translate_eq hs.tree]

end MapRange

/-! ## `allocate_user_pages` -/

section AllocateUserPages

variable {E : PageEntryOps} {A : PageSource} {vmm : VirtualMemoryManager} {s : TableMem}
  {count : ℕ} {flags : U64}

/-- No pages can always be had. -/
lemma allocateUserPages_zero {frames : ℕ} (hrun : A.newRun s.live 0 = some frames) :
    (vmm.allocateUserPages E A s 0 flags).1 = .ok USER_SPACE_BASE := by
  simp only [allocateUserPages, hrun]
  rfl

/-- The first frame of the run is a data frame at the end, however the call ends. -/
lemma allocateUserPages_dataFrame (hs : InOrder E (vmm, s)) {frames : ℕ}
    (hrun : A.newRun s.live count = some frames) (hcount : count ≠ 0)
    (hclean : Clean A ⟨s.mem, framesFrom frames count ++ s.live⟩) :
    DataFrame E A vmm.pml4 frames
      (vmm.allocateUserPages E A s count flags).2 := by
  have hmem : frames ∈ framesFrom frames count :=
    List.mem_map.mpr ⟨0, List.mem_range.mpr (Nat.pos_of_ne_zero hcount), rfl⟩
  have hfresh : frames ∉ s.live := A.run_fresh _ _ _ hrun 0 (Nat.pos_of_ne_zero hcount)
  have htaken : DataFrame E A vmm.pml4 frames (vmm, ⟨s.mem, framesFrom frames count ++ s.live⟩) :=
    ⟨⟨hs.addLive _ (framesFrom_aligned hrun), hclean⟩, rfl, List.mem_append_left _ hmem,
      not_isTable_of_fresh hs hfresh⟩
  rw [allocateUserPages_eq E vmm s A count flags hrun]
  cases hstart : vmm.findFreeVirtualRange E ⟨s.mem, framesFrom frames count ++ s.live⟩ count with
  | error e =>
    simp only [hstart]
    exact htaken
  | ok start =>
    simp only [hstart]
    exact forPages_invariant (fun i st h => h.mapPage _ _ flags) count 0 htaken

/-- When `allocate_user_pages` succeeds with the run that it has got. -/
lemma allocateUserPages_ok_iff (hs : InOrder E (vmm, s)) {frames : ℕ}
    (hrun : A.newRun s.live count = some frames)
    (hclean : Clean A ⟨s.mem, framesFrom frames count ++ s.live⟩) (flags : U64) :
    (∃ a, (vmm.allocateUserPages E A s count flags).1 = .ok a) ↔
      ∃ start, vmm.findFreeVirtualRange E s count = .ok start ∧
        Supplies A (framesFrom frames count ++ s.live)
          (framesNeeded 0 s.mem vmm.pml4 (pageAddr start) count) := by
  have hspace : CleanSpace E A (vmm, ⟨s.mem, framesFrom frames count ++ s.live⟩) :=
    ⟨hs.addLive _ (framesFrom_aligned hrun), hclean⟩
  have hfind : vmm.findFreeVirtualRange E ⟨s.mem, framesFrom frames count ++ s.live⟩ count
      = vmm.findFreeVirtualRange E s count :=
    findFreeVirtualRange_congr (fun v => by rw [translate, translate, walkPte, walkPte]) count
  rw [allocateUserPages_eq E vmm s A count flags hrun]
  dsimp only
  rw [hfind]
  cases vmm.findFreeVirtualRange E s count with
  | error e => simp
  | ok start =>
    have hround : ∀ i (st : VmmState), CleanSpace E A st →
        MapsRound E A 0 (pageAddr start i) st
          (st.1.mapPage E A st.2 (pageAddr start i) (pageAddr (BitVec.ofNat 64 frames) i) flags) :=
      fun i st hst => mapPage_mapsRound hst _ _ flags
    refine (exists_map_eq_ok.trans (forPages_ok_iff hround hspace count)).trans ⟨?_, ?_⟩
    · exact fun h => ⟨start, rfl, h⟩
    · rintro ⟨_, ⟨⟩, h⟩
      exact h

/-- **When a failing `allocate_user_pages` has changed nothing.** -/
lemma allocateUserPages_allOrNothing_iff (hs : InOrder E (vmm, s))
    (hclean : ∀ frames, A.newRun s.live count = some frames →
      Clean A ⟨s.mem, framesFrom frames count ++ s.live⟩) :
    AllOrNothing E (vmm, s) (vmm.allocateUserPages E A s count flags) ↔
      ∀ frames, A.newRun s.live count = some frames →
        ∃ start, vmm.findFreeVirtualRange E s count = .ok start ∧
          Supplies A (framesFrom frames count ++ s.live)
            (framesNeeded 0 s.mem vmm.pml4 (pageAddr start) count) := by
  cases hrun : A.newRun s.live count with
  | none =>
    refine iff_of_true (allOrNothing_of_same ?_) fun frames heq => by cases heq
    rw [allocateUserPages, hrun]
  | some frames =>
    have hok := allocateUserPages_ok_iff hs hrun (hclean frames hrun) flags
    constructor
    · intro hnothing frames' heq
      obtain rfl := Option.some.inj heq
      rw [← hok]
      cases hanswer : (vmm.allocateUserPages E A s count flags).1 with
      | ok a => exact ⟨a, rfl⟩
      | error e =>
        have hcount : count ≠ 0 := by
          rintro rfl
          rw [allocateUserPages_zero hrun] at hanswer
          cases hanswer
        have hfresh : frames ∉ s.live :=
          A.run_fresh _ _ _ hrun 0 (Nat.pos_of_ne_zero hcount)
        exact absurd hnothing (not_allOrNothing_of_data hanswer hfresh
          (allocateUserPages_dataFrame hs hrun hcount (hclean frames hrun)))
    · intro h
      obtain ⟨a, ha⟩ := hok.mpr (h frames rfl)
      exact allOrNothing_of_ok ha

end AllocateUserPages

/-! ## All three -/

/-- **When a failing call has changed nothing.**  `mmap` must find no frame at all or enough for all
pages and tables.  `map_range` must find enough for the tables, or the pages that it can map must be
mapped there already.  A run of frames that `allocate_user_pages` gets must be followed by a free
range and by enough frames for the tables. -/
theorem failing_calls_clean_iff {E : PageEntryOps} {A : PageSource} {vmm : VirtualMemoryManager}
    {s : TableMem} (hs : CleanSpace E A (vmm, s)) {count : ℕ}
    (hclean : ∀ frames, A.newRun s.live count = some frames →
      Clean A ⟨s.mem, framesFrom frames count ++ s.live⟩)
    (addr length prot start size physStart flags : U64) :
    (AllOrNothing E (vmm, s) (vmm.mmap E A s addr length prot flags) ↔
      ∀ found, vmm.mmapStart E s addr length = .ok found → A.new s.live = none ∨
        Supplies A s.live (framesNeeded 1 s.mem vmm.pml4 (pageAddr found) (pagesOf length))) ∧
    (AllOrNothing E (vmm, s) (vmm.mapRange E A s start size physStart flags) ↔
      Supplies A s.live (framesNeeded 0 s.mem vmm.pml4 (pageAddr start) (pagesOf size)) ∨
        MapsInPlace E A vmm s start size physStart flags) ∧
    (AllOrNothing E (vmm, s) (vmm.allocateUserPages E A s count flags) ↔
      ∀ frames, A.newRun s.live count = some frames →
        ∃ found, vmm.findFreeVirtualRange E s count = .ok found ∧
          Supplies A (framesFrom frames count ++ s.live)
            (framesNeeded 0 s.mem vmm.pml4 (pageAddr found) count)) :=
  ⟨mmap_allOrNothing_iff hs, mapRange_allOrNothing_iff hs,
    allocateUserPages_allOrNothing_iff hs.tree hclean⟩

/-- `alloc_pages` that fails once `n` frames are in use, except for one run of at most 16 frames. -/
def scarcePages (n : ℕ) : PageSource where
  toFrameAllocator := scarceFrames n
  newRun live count :=
    if count ≤ 16 ∧ ∀ f ∈ live, f < 0x1000000 then some 0x1000000 else none
  run_fresh live count a h := by
    split_ifs at h with hc
    obtain rfl := Option.some.inj h
    intro i _ hmem
    have := hc.2 _ hmem
    omega
  run_aligned live count a h := by
    split_ifs at h with hc
    rw [← Option.some.inj h]
  run_low live count a h := by
    split_ifs at h with hc
    rw [← Option.some.inj h]
    omega

/-- Two pages are mapped by each of the calls, and there are frames for all of it. -/
theorem failing_calls_clean_emptySpace :
    AllOrNothing plainPageEntry emptySpace
        (emptySpace.1.mmap plainEntryOps (scarceFrames 9) emptySpace.2 0x400000#64 0x2000#64 3#64
          0#64) ∧
      AllOrNothing plainPageEntry emptySpace
        (emptySpace.1.mapRange plainEntryOps (scarceFrames 9) emptySpace.2 0x1FF000#64 0x2000#64
          0x9000#64 0#64) ∧
      AllOrNothing plainPageEntry emptySpace
        (emptySpace.1.allocateUserPages plainEntryOps (scarcePages 9) emptySpace.2 2 0#64) := by
  have hspace : CleanSpace plainPageEntry (scarceFrames 9) emptySpace :=
    ⟨emptySpace_tree _, fun n a _ i => rfl⟩
  have hclean : ∀ frames, (scarcePages 9).newRun emptySpace.2.live 2 = some frames →
      Clean (scarceFrames 9) ⟨emptySpace.2.mem, framesFrom frames 2 ++ emptySpace.2.live⟩ :=
    fun frames _ n a _ i => rfl
  obtain ⟨hmmap, hrange, hpages⟩ := failing_calls_clean_iff (E := plainEntryOps)
    (A := scarcePages 9) hspace hclean 0x400000#64 0x2000#64 3#64 0x1FF000#64 0x2000#64 0x9000#64
    0#64
  refine ⟨hmmap.mpr fun found hfound => .inr ?_, hrange.mpr (.inl (by decide +kernel)),
    hpages.mpr fun frames hframes => ⟨0x100000#64, by decide +kernel, ?_⟩⟩
  · obtain rfl : 0x400000#64 = found := Except.ok.inj hfound
    decide +kernel
  · obtain rfl : 0x1000000 = frames := Option.some.inj hframes
    decide +kernel

/-- **Failing calls leave something behind.**  `mmap` and `map_range` have mapped a first page when
there is no frame for the second one, and `allocate_user_pages` has got its run when there is none
for a table. -/
theorem failing_calls_leave_traces :
    ¬ AllOrNothing plainPageEntry emptySpace
        (emptySpace.1.mmap plainEntryOps (scarceFrames 5) emptySpace.2 0x400000#64 0x2000#64 3#64
          0#64) ∧
      ¬ AllOrNothing plainPageEntry emptySpace
        (emptySpace.1.mapRange plainEntryOps (scarceFrames 4) emptySpace.2 0x1FF000#64 0x2000#64
          0x9000#64 3#64) ∧
      ¬ AllOrNothing plainPageEntry emptySpace
        (emptySpace.1.allocateUserPages plainEntryOps (scarcePages 1) emptySpace.2 1 3#64) := by
  refine ⟨fun h => ?_, fun h => ?_, ?_⟩
  · have hsame := (h .outOfMemory (by decide +kernel)).1 0x400000#64
    exact absurd hsame (by decide +kernel)
  · have hsame := (h .outOfMemory (by decide +kernel)).1 0x1FF000#64
    exact absurd hsame (by decide +kernel)
  · have hrun : (scarcePages 1).newRun emptySpace.2.live 1 = some 0x1000000 := by decide
    have hfail : (emptySpace.1.allocateUserPages plainEntryOps (scarcePages 1) emptySpace.2 1
        3#64).1 = .error .outOfMemory := by decide +kernel
    have hfresh : 0x1000000 ∉ emptySpace.2.live := by decide
    have htree : InOrder plainEntryOps (emptySpace.1, emptySpace.2) :=
      emptySpace_tree _
    exact not_allOrNothing_of_data hfail hfresh
      (allocateUserPages_dataFrame htree hrun one_ne_zero fun n a _ i => rfl)

end VirtualMemoryManager

end Masika
