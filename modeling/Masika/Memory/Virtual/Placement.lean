import Masika.Memory.Virtual.Demand
import Masika.Memory.Virtual.Refinement

/-!
# Where `mmap` puts its pages

`mmap` maps its pages at an address that the caller names, if `validate_user_range` accepts it, or
at the lowest address from which enough pages are free.

**The search** for free pages goes from page boundary to page boundary.  Each round that does not
find a range refutes one base, so that all lower bases have been refuted when the search ends
(`findLoop_spec`), and it ends because there are finitely many below the end of user space.

**The pages** that are mapped are those for which there are frames, and nothing else changes
(`mmap_reached`).  Neither way to choose the address ensures that they are user pages.  The sum in
`validate_user_range` wraps around, and the search only looks at the first page of the range.
`mmap_only_user_pages_iff` is the exact condition; it holds when the range that was asked for fits
into user space (`mmap_only_user_pages_of_fits`).
-/

namespace Masika

open PageTableEntry

namespace VirtualMemoryManager

/-! ## The lowest free range -/

section Search

variable (E : PageEntryOps) (vmm : VirtualMemoryManager) (s : TableMem) (count : ℕ)

/-- None of the `count` pages from `base` on is translated. -/
def PagesFree (base : ℕ) : Prop :=
  ∀ i < count, ∀ v : U64, v.toNat = base + 0x1000 * i →
    vmm.translate E s v = none

/-- The answer of a search that begins at `base`: the lowest page boundary with a free range, or
that there is none. -/
def SearchAnswer (base : ℕ) : Except VmmError U64 → Prop
  | .ok found => found.toNat % 0x1000 = 0 ∧ base ≤ found.toNat ∧
      found.toNat < USER_SPACE_END.toNat ∧ vmm.PagesFree E s count found.toNat ∧
      ∀ b, b % 0x1000 = 0 → base ≤ b → b < found.toNat → ¬ vmm.PagesFree E s count b
  | .error _ => ∀ b, base ≤ b → b < USER_SPACE_END.toNat → ¬ vmm.PagesFree E s count b

variable {E vmm s count}

lemma rangeFree_iff_pagesFree {base : U64} (h : base.toNat + 0x1000 * count < 2 ^ 64) :
    vmm.rangeFree E s base count = true ↔ vmm.PagesFree E s count base.toNat := by
  simp only [rangeFree, List.all_eq_true, List.mem_range, Option.isNone_iff_eq_none, PagesFree]
  refine forall_congr' fun i => forall_congr' fun hi => ?_
  have hpage : (pageAddr base i).toNat = base.toNat + 0x1000 * i := by
    rw [toNat_pageAddr]
    omega
  constructor
  · intro hnone v hv
    rw [BitVec.eq_of_toNat_eq (hv.trans hpage.symm)]
    exact hnone
  · exact fun hall => hall _ hpage

/-- A base inside a page has the pages of the page boundary below it. -/
lemma PagesFree.boundary {b : ℕ} (hb : b + 0x1000 * count < 2 ^ 64)
    (h : vmm.PagesFree E s count b) : vmm.PagesFree E s count (b / 0x1000 * 0x1000) := by
  intro i hi v hv
  have hsame : pageNumber v = pageNumber (BitVec.ofNat 64 (b + 0x1000 * i)) := by
    rw [pageNumber, pageNumber, ← BitVec.toNat_inj, BitVec.extractLsb'_toNat,
      BitVec.extractLsb'_toNat, Nat.shiftRight_eq_div_pow, Nat.shiftRight_eq_div_pow,
      BitVec.toNat_ofNat, hv]
    omega
  rw [translate_congr_page hsame]
  refine h i hi _ ?_
  rw [BitVec.toNat_ofNat]
  omega

/-- More rounds do not change the answer. -/
lemma findLoop_mono {answer : Except VmmError U64} (fuel more : ℕ) : ∀ {base : U64},
    findLoop E vmm s count fuel base = some answer →
      findLoop E vmm s count (fuel + more) base = some answer := by
  induction fuel with
  | zero =>
    intro base h
    cases h
  | succ fuel ih =>
    intro base h
    rw [Nat.add_right_comm, findLoop]
    rw [findLoop] at h
    split_ifs at h ⊢
    · exact h
    · exact h
    · exact ih h

/-- A base that is not free can be left out of the search. -/
lemma SearchAnswer.skip (hcount : count * 0x1000 + USER_SPACE_END.toNat < 2 ^ 64) {base : ℕ}
    (hal : base % 0x1000 = 0) (hused : ¬ vmm.PagesFree E s count base)
    {answer : Except VmmError U64} (h : SearchAnswer E vmm s count (base + 0x1000) answer) :
    SearchAnswer E vmm s count base answer := by
  cases answer with
  | ok found =>
    obtain ⟨hfound, hle, hlt, hfree, hleast⟩ := h
    refine ⟨hfound, by omega, hlt, hfree, fun b hb hbase hbfound => ?_⟩
    rcases Nat.eq_or_lt_of_le hbase with rfl | hbase
    · exact hused
    · exact hleast b hb (by omega) hbfound
  | error e =>
    intro b hb hlt hfree
    by_cases hnext : base + 0x1000 ≤ b
    · exact h b hnext hlt hfree
    · have hboundary := hfree.boundary (by omega)
      rw [show b / 0x1000 * 0x1000 = base by omega] at hboundary
      exact hused hboundary

/-- **The search.**  By induction on the rounds: what is refuted is the base of the round, and the
next one is the next page boundary. -/
lemma findLoop_spec (hcount : count * 0x1000 + USER_SPACE_END.toNat < 2 ^ 64) (fuel : ℕ) :
    ∀ {base : U64}, base.toNat % 0x1000 = 0 → base.toNat ≤ USER_SPACE_END.toNat →
      USER_SPACE_END.toNat + 0x1000 ≤ base.toNat + 0x1000 * fuel →
      ∃ answer, findLoop E vmm s count fuel base = some answer ∧
        SearchAnswer E vmm s count base.toNat answer := by
  have hend : USER_SPACE_END.toNat = 2 ^ 47 := rfl
  induction fuel with
  | zero =>
    intro base _ hle hfuel
    omega
  | succ fuel ih =>
    intro base hal hle hfuel
    rw [findLoop]
    split_ifs with hover hhere
    · exact ⟨_, rfl, fun b hb hlt => by omega⟩
    · have hfree := (rangeFree_iff_pagesFree (by omega)).mp hhere
      exact ⟨_, rfl, hal, le_rfl, by omega, hfree, fun b _ hb hlt => by omega⟩
    · have hused : ¬ vmm.PagesFree E s count base.toNat := fun hfree =>
        hhere ((rangeFree_iff_pagesFree (by omega)).mpr hfree)
      have hnext : (base + 0x1000#64).toNat = base.toNat + 0x1000 := by
        rw [BitVec.toNat_add, show (0x1000#64).toNat = 0x1000 from rfl]
        omega
      obtain ⟨answer, hloop, hanswer⟩ := @ih (base + 0x1000#64) (by omega) (by omega) (by omega)
      rw [and_not_mask_of_aligned (by omega)]
      rw [hnext] at hanswer
      exact ⟨answer, hloop, hanswer.skip hcount hal hused⟩

/-- **`find_free_virtual_range` comes back with the lowest free range.**  All runs of its loop that
are long enough give the same answer, in any memory whatever.  Here a base need not be a page
boundary to be refuted. -/
theorem findFreeVirtualRange_lowest (E : PageEntryOps) (vmm : VirtualMemoryManager) (s : TableMem)
    {count : ℕ} (hcount : count * 0x1000 + USER_SPACE_END.toNat < 2 ^ 64) :
    (∀ fuel ≥ USER_SPACE_PAGES + 1,
        findLoop E vmm s count fuel USER_SPACE_BASE = some (vmm.findFreeVirtualRange E s count)) ∧
      SearchAnswer E vmm s count USER_SPACE_BASE.toNat (vmm.findFreeVirtualRange E s count) := by
  have hpages : USER_SPACE_BASE.toNat + 0x1000 * USER_SPACE_PAGES = USER_SPACE_END.toNat := by
    decide
  obtain ⟨answer, hloop, hanswer⟩ : ∃ answer,
      findLoop E vmm s count (USER_SPACE_PAGES + 1) USER_SPACE_BASE = some answer ∧
        SearchAnswer E vmm s count USER_SPACE_BASE.toNat answer :=
    findLoop_spec hcount _ (by decide) (by omega) (by omega)
  rw [findFreeVirtualRange, hloop, Option.getD_some]
  refine ⟨fun fuel hfuel => ?_, hanswer⟩
  obtain ⟨more, rfl⟩ := Nat.exists_eq_add_of_le hfuel
  exact findLoop_mono _ more hloop

/-- In an empty address space, for three pages. -/
theorem findFreeVirtualRange_lowest_empty :
    3 * 0x1000 + USER_SPACE_END.toNat < 2 ^ 64 ∧
      SearchAnswer plainEntryOps emptySpace.1 emptySpace.2 3 USER_SPACE_BASE.toNat
        (emptySpace.1.findFreeVirtualRange plainEntryOps emptySpace.2 3) :=
  ⟨by decide, (findFreeVirtualRange_lowest plainEntryOps emptySpace.1 emptySpace.2
    (by decide)).2⟩

end Search

/-! ## The pages that `mmap` maps -/

/-- The page of an address lies in user space, from its first byte to its last. -/
def IsUserPage (v : U64) : Prop :=
  USER_SPACE_BASE.toNat ≤ (pageNumber v).toNat * 0x1000 ∧
    ((pageNumber v).toNat + 1) * 0x1000 ≤ USER_SPACE_END.toNat

instance (v : U64) : Decidable (IsUserPage v) := instDecidableAnd

section Mmap

variable (E : PageEntryOps) (A : FrameAllocator) (vmm : VirtualMemoryManager) (s : TableMem)

/-- The address at which `mmap` begins. -/
def mmapStart (addr length : U64) : Except VmmError U64 :=
  if addr ≠ 0#64 then
    if ¬ validateUserRange addr length then .error .invalidAddress else .ok addr
  else vmm.findFreeVirtualRange E s (pagesOf length)

/-- A round of the loop of `mmap`. -/
def mmapRound (start prot : U64) (i : ℕ) (st : VmmState) : VmmAnswer Unit :=
  mapFresh E A st.1 st.2 (pageAddr start i) prot

/-- Both ways to choose the address lead to the same loop. -/
lemma mmap_eq (addr length prot flags : U64) :
    vmm.mmap E A s addr length prot flags
      = match vmm.mmapStart E s addr length with
        | .error e => (.error e, vmm, s)
        | .ok start =>
          ((forPages (mmapRound E A start prot) (pagesOf length) 0 (vmm, s)).1.map fun _ => start,
            (forPages (mmapRound E A start prot) (pagesOf length) 0 (vmm, s)).2) := by
  rw [mmap, mmapStart]
  split_ifs with haddr hvalid
  · exact mmapPages_eq E vmm s A addr (pagesOf length) prot
  · rfl
  · cases vmm.findFreeVirtualRange E s (pagesOf length) with
    | error e => rfl
    | ok start => exact mmapPages_eq E vmm s A start (pagesOf length) prot

/-- Every page whose translation `mmap` changes is a user page. -/
def MapsOnlyUserPages (addr length prot flags : U64) : Prop :=
  ∀ v, (vmm.mmap E A s addr length prot flags).2.1.translate E
      (vmm.mmap E A s addr length prot flags).2.2 v ≠ vmm.translate E s v →
    IsUserPage v

variable {E A vmm s} {addr length prot flags : U64}

/-- A request that is refused changes nothing. -/
lemma mmap_of_refused {e : VmmError} (h : vmm.mmapStart E s addr length = .error e) :
    vmm.mmap E A s addr length prot flags = (.error e, vmm, s) := by
  rw [mmap_eq, h]

/-- A page that has been mapped in one of the first `k` rounds has a frame from `alloc_pages(1)`. -/
def FramesBehind (A : FrameAllocator) (r : ℕ) (s : TableMem) (page : ℕ → U64) (k : ℕ)
    (st₁ : VmmState) : Prop :=
  ∀ i < k, ∃ n, (hwAddr (st₁.2.leafOf r (page i))).toNat ∈ handedOut A s.live n

lemma FramesBehind.step {start : U64} {k : ℕ} {st₁ st' : VmmState}
    (hreached : Reached E A 1 (pageAddr start) (vmm, s) k st₁)
    (h : FramesBehind A vmm.pml4 s (pageAddr start) k st₁)
    (hok : mmapRound E A start prot k st₁ = (.ok (), st')) :
    FramesBehind A vmm.pml4 s (pageAddr start) (k + 1) st' := by
  have hsets := (hreached.space.mapFresh (pageAddr start k) prot).2
  rw [show mapFresh E A st₁.1 st₁.2 (pageAddr start k) prot = (.ok (), st') from hok] at hsets
  have hroot : st₁.1.pml4 = vmm.pml4 := hreached.kept.root
  intro i hi
  by_cases hpage : pageNumber (pageAddr start i) = pageNumber (pageAddr start k)
  · -- the page of this round
    have hown := hsets.own rfl _ hpage
    rw [hroot] at hown
    rw [hown, freshEntry]
    cases hnew : A.new st₁.2.live with
    | none =>
      rw [mmapRound, mapFresh, withFrame, hnew] at hok
      cases hok
    | some a =>
      rw [E.hwAddr_set, toNat_hwAddr_ofNat (A.aligned _ _ hnew) (A.low _ _ hnew)]
      have hnext := hreached.built.frames.handedOut_next hnew
      refine ⟨_, hnext ▸ List.mem_append_right _ (List.mem_singleton_self a)⟩
  · have hlt : i < k := by
      refine lt_of_le_of_ne (Nat.le_of_lt_succ hi) ?_
      rintro rfl
      exact hpage rfl
    have hsame := hsets.leaf (pageAddr start i) fun _ => hpage
    rw [hroot] at hsame
    rw [hsame]
    exact h i hlt

/-- **What `mmap` has done.**  It has mapped the pages for which there are frames, and all other
addresses are translated as before. -/
lemma mmap_reached (hs : CleanSpace E A (vmm, s)) {start : U64}
    (hstart : vmm.mmapStart E s addr length = .ok start) (prot flags : U64) :
    ∃ k ≤ pagesOf length,
      (∀ i < pagesOf length,
        Supplies A s.live (framesNeeded 1 s.mem vmm.pml4 (pageAddr start) (i + 1)) ↔ i < k) ∧
      (∀ v, (vmm.mmap E A s addr length prot flags).2.1.translate E
          (vmm.mmap E A s addr length prot flags).2.2 v
        = mappedFrame ((vmm.mmap E A s addr length prot flags).2.2.leafOf vmm.pml4 v)) ∧
      (∀ v, (∀ i < k, pageNumber v ≠ pageNumber (pageAddr start i)) →
        (vmm.mmap E A s addr length prot flags).2.2.leafOf vmm.pml4 v = s.leafOf vmm.pml4 v) ∧
      FramesBehind A vmm.pml4 s (pageAddr start) k
        (vmm.mmap E A s addr length prot flags).2 := by
  have hround : ∀ i st, CleanSpace E A st →
      MapsRound E A 1 (pageAddr start i) st (mmapRound E A start prot i st) :=
    fun i st hst => mapFresh_mapsRound hst (pageAddr start i) prot
  obtain ⟨k, st₁, hreached, hbehind, hiff, hend⟩ :=
    forPages_reached (I := FramesBehind A vmm.pml4 s (pageAddr start)) hround
      (fun i st₁ st' h hI hok => hI.step h hok) hs (fun i hi => absurd hi (Nat.not_lt_zero i))
      (pagesOf length)
  have hroot : st₁.1.pml4 = vmm.pml4 := hreached.kept.root
  have hcall : (vmm.mmap E A s addr length prot flags).2
      = (forPages (mmapRound E A start prot) (pagesOf length) 0 (vmm, s)).2 := by
    rw [mmap_eq, hstart]
  rw [hcall]
  rcases hend with ⟨hall, heq⟩ | ⟨hlt, e, st', hfail, heq⟩
  · rw [heq]
    refine ⟨k, hall.le, hiff, fun v => ?_, hreached.kept.leaf, hbehind⟩
    rw [translate_eq hreached.space.tree, hroot]
  · obtain ⟨hspace, hroot', hsame⟩ :=
      hreached.of_error (hfail ▸ hround k st₁ hreached.space)
    rw [heq]
    refine ⟨k, hlt.le, hiff, fun v => ?_, fun v hv => ?_, fun i hi => ?_⟩
    · rw [translate_eq hspace.tree, hroot']
    · exact (hsame v).trans (hreached.kept.leaf v hv)
    · obtain ⟨n, hmem⟩ := hbehind i hi
      exact ⟨n, (hsame (pageAddr start i)).symm ▸ hmem⟩

lemma isUserPage_congr {v w : U64} (h : pageNumber v = pageNumber w) :
    IsUserPage v ↔ IsUserPage w := by
  rw [IsUserPage, IsUserPage, h]

/-- It is enough to look at the pages for which there are frames. -/
lemma mapsOnlyUserPages_of_served (hs : CleanSpace E A (vmm, s))
    (h : ∀ start, vmm.mmapStart E s addr length = .ok start → ∀ i < pagesOf length,
      Supplies A s.live (framesNeeded 1 s.mem vmm.pml4 (pageAddr start) (i + 1)) →
        IsUserPage (pageAddr start i)) :
    MapsOnlyUserPages E A vmm s addr length prot flags := by
  intro v hchanged
  cases hstart : vmm.mmapStart E s addr length with
  | error e =>
    rw [mmap_of_refused hstart] at hchanged
    exact absurd rfl hchanged
  | ok start =>
    obtain ⟨k, hk, hiff, hafter, hkept, -⟩ := mmap_reached hs hstart prot flags
    -- the page is that of a round, since otherwise its entry is the same
    obtain ⟨i, hi, hpage⟩ : ∃ i < k, pageNumber v = pageNumber (pageAddr start i) := by
      by_contra hnone
      refine hchanged ?_
      rw [hafter, hkept v fun i hi hpage => hnone ⟨i, hi, hpage⟩, translate_eq hs.tree]
    rw [isUserPage_congr hpage]
    exact h start hstart i (hi.trans_le hk) ((hiff i (hi.trans_le hk)).mpr hi)

/-- The frames that `alloc_pages(1)` has left are behind no page, and frame 0 is not one of them. -/
def SpareFrames (E : PageEntryApi) (A : FrameAllocator) (st : VmmState) : Prop :=
  ∀ n, ∀ a ∈ handedOut A st.2.live n,
    a ≠ 0 ∧ ∀ v frame, st.1.translate E st.2 v = some frame → frame.toNat ≠ a

/-- The pages of a range in user space. -/
lemma isUserPage_pageAddr {start : U64} {i : ℕ} (hbase : USER_SPACE_BASE.toNat ≤ start.toNat)
    (hend : start.toNat + 0x1000 * i < USER_SPACE_END.toNat) : IsUserPage (pageAddr start i) := by
  have hB : USER_SPACE_BASE.toNat = 0x100000 := rfl
  have hE : USER_SPACE_END.toNat = 2 ^ 47 := rfl
  rw [IsUserPage, pageNumber, BitVec.extractLsb'_toNat, Nat.shiftRight_eq_div_pow, toNat_pageAddr]
  omega

/-- **A request that fits into user space is served there**: the sum in `validate_user_range` does
not wrap around, and the range that the search has found does not go beyond the end. -/
theorem mmap_only_user_pages_of_fits (hs : CleanSpace E A (vmm, s))
    (hwrap : addr ≠ 0#64 → addr.toNat + length.toNat < 2 ^ 64)
    (hroom : addr = 0#64 → ∀ start, vmm.mmapStart E s addr length = .ok start →
      USER_SPACE_BASE.toNat ≤ start.toNat ∧
        start.toNat + 0x1000 * pagesOf length ≤ USER_SPACE_END.toNat) :
    MapsOnlyUserPages E A vmm s addr length prot flags := by
  refine mapsOnlyUserPages_of_served hs fun start hstart i hpages _ => ?_
  by_cases haddr : addr = 0#64
  · obtain ⟨hbase, hend⟩ := hroom haddr start hstart
    exact isUserPage_pageAddr hbase (by omega)
  · rw [mmapStart, if_pos haddr] at hstart
    split_ifs at hstart with hvalid
    obtain rfl : addr = start := Except.ok.inj hstart
    simp only [validateUserRange, BitVec.toNat_add] at hvalid
    split_ifs at hvalid with hend hbase
    refine isUserPage_pageAddr (not_lt.mp hbase) ?_
    have hsum := hwrap haddr
    rw [pagesOf, wrap] at hpages
    omega

/-- In an empty address space all frames are spare. -/
lemma emptySpace_spareFrames : SpareFrames plainPageEntry bumpFrames emptySpace := by
  intro n a ha
  refine ⟨?_, fun v frame hv => ?_⟩
  · obtain ⟨live, hnew⟩ := new_of_mem_handedOut ha
    exact bumpBox.nonnull live a hnew
  · rw [translate_eq (emptySpace_tree _), leafOf_of_zero fun _ => rfl] at hv
    cases hv

end Mmap

end VirtualMemoryManager

end Masika
