import Masika.Core.Strides
import Masika.Memory.Virtual.Rounds

/-!
# Unmapping a range with holes

`munmap` and `unmap_range` unmap page after page and stop at the first page for which `unmap_page`
fails.  A page that is not mapped is no reason to fail, as long as the page table that it would be
in exists.  If a table is missing on the way, `unmap_page` answers with `InvalidAddress`, and the
pages behind the hole stay mapped.

Unmapping makes and removes no table, so that the place at which the loop stops can be read off the
state before it: it is the first page of the range for which a table is missing
(`unmapRange_spec`).
-/

namespace Masika

open PageTableEntry

namespace VirtualMemoryManager

section Unmapping

variable {E : PageEntryOps} {vmm : VirtualMemoryManager} {s : TableMem}

/-- A round of `unmap_range`. -/
def unmapRound (E : PageEntryOps) (addr : U64) (i : ℕ) (st : VmmState) : VmmAnswer Unit :=
  st.1.unmapPage E st.2 (pageAddr addr i)

lemma unmapRange_eq (E : PageEntryOps) (vmm : VirtualMemoryManager) (s : TableMem)
    (addr length : U64) :
    vmm.unmapRange E s addr length = forPages (unmapRound E addr) (pagesOf length) 0 (vmm, s) := rfl

/-- `unmap_page` fails if and only if a table is missing. -/
lemma unmapPage_eq_ok_iff (E : PageEntryOps) (st : VmmState) (virt : U64) :
    (st.1.unmapPage E st.2 virt).1 = .ok () ↔
      st.1.walkPte E st.2 virt ≠ none := by
  rw [unmapPage]
  cases st.1.walkPte E st.2 virt with
  | none => simp
  | some pte =>
    simp only
    split_ifs <;> simp

/-- After the first `k` rounds, which have all succeeded: their pages are unmapped, all others are
as before, and so are the tables. -/
structure Unmapped (E : PageEntryOps) (addr : U64) (st : VmmState) (k : ℕ) (st' : VmmState) :
    Prop where
  tree : InOrder E st'
  kept : KeptOutside (pageAddr addr) st k st'
  walk : ∀ v, st'.1.walkPte E st'.2 v = st.1.walkPte E st.2 v
  tables : ∀ i < k, st.1.walkPte E st.2 (pageAddr addr i) ≠ none
  cleared : ∀ i < k, st'.2.leafOf st.1.pml4 (pageAddr addr i) = 0#64

/-- A round leaves the tables as they are and clears its page. -/
lemma unmapRound_spec {st : VmmState} (hst : InOrder E st) (addr : U64) (i : ℕ) :
    InOrder E (unmapRound E addr i st).2 ∧
      TouchesPage (pageAddr addr i) st (unmapRound E addr i st) ∧
      (∀ v, (unmapRound E addr i st).2.1.walkPte E (unmapRound E addr i st).2.2 v
        = st.1.walkPte E st.2 v) ∧
      (unmapRound E addr i st).2.2.leafOf st.1.pml4 (pageAddr addr i) = 0#64 := by
  obtain ⟨hroot, htree, hset, hfail⟩ := unmapPage_spec hst (pageAddr addr i)
  have htree' : InOrder E (unmapRound E addr i st).2 := .of_root hroot htree
  refine ⟨htree', ⟨hroot, fun v hv => ?_⟩, fun v => ?_, ?_⟩
  · rw [unmapRound, hset.leaf _ rfl v]
    split_ifs with hpage
    · -- on its own page the round has failed, because the page was not mapped
      cases hanswer : (st.1.unmapPage E st.2 (pageAddr addr i)).1 with
      | ok _ => exact absurd hpage.2 (hv hanswer)
      | error e => rw [TableMem.leafOf_congr hpage.2, hfail e hanswer]
    · rfl
  · rw [walkPte_eq_hwLeafSlot htree', walkPte_eq_hwLeafSlot hst, hwLeafSlot, hwLeafSlot, unmapRound,
      hroot, hset.tables _ rfl _ (upperPath_length v).le]
  · rw [unmapRound, hset.leaf _ rfl, if_pos ⟨rfl, rfl⟩]

lemma Unmapped.step {addr : U64} {st st₁ st' : VmmState} {k : ℕ} (h : Unmapped E addr st k st₁)
    (hround : unmapRound E addr k st₁ = (.ok (), st')) : Unmapped E addr st (k + 1) st' := by
  obtain ⟨htree, htouch, hwalk, hcleared⟩ := unmapRound_spec h.tree addr k
  have hok := (unmapPage_eq_ok_iff E st₁ (pageAddr addr k)).mp (congrArg Prod.fst hround)
  have hkept := h.kept.step htouch
  rw [hround] at htree htouch hwalk hcleared hkept
  refine ⟨htree, hkept, fun v => (hwalk v).trans (h.walk v), fun i hi => ?_, fun i hi => ?_⟩
  · rcases Nat.eq_or_lt_of_le (Nat.le_of_lt_succ hi) with rfl | hi
    · rwa [← h.walk]
    · exact h.tables i hi
  · rw [← h.kept.root]
    by_cases hpage : pageNumber (pageAddr addr i) = pageNumber (pageAddr addr k)
    · rw [TableMem.leafOf_congr hpage]
      exact hcleared
    · have hlt : i < k := by
        refine lt_of_le_of_ne (Nat.le_of_lt_succ hi) ?_
        rintro rfl
        exact hpage rfl
      have hsame := htouch.leaf (pageAddr addr i) fun _ => hpage
      rw [hsame, h.kept.root]
      exact h.cleared i hlt

/-- **Where the loop stops, and what it has done by then.** -/
lemma unmapRange_spec (hs : InOrder E (vmm, s)) (addr length : U64) :
    ∃ k ≤ pagesOf length, Unmapped E addr (vmm, s) k (vmm.unmapRange E s addr length).2 ∧
      (k < pagesOf length → vmm.walkPte E s (pageAddr addr k) = none) := by
  have hstart : Unmapped E addr (vmm, s) 0 (vmm, s) :=
    ⟨hs, ⟨rfl, fun _ _ => rfl⟩, fun _ => rfl, fun i hi => absurd hi (Nat.not_lt_zero i),
      fun i hi => absurd hi (Nat.not_lt_zero i)⟩
  obtain ⟨k, st₁, h₁, ⟨hall, hend⟩ | ⟨hlt, e, st', hfail, hend⟩⟩ :=
    forPages_cases (fun i st st' h hround => Unmapped.step h hround) (pagesOf length) 0 hstart
  · rw [Nat.zero_add] at h₁
    refine ⟨_, hall.le, ?_, fun hlt => absurd hall hlt.ne⟩
    rw [unmapRange_eq, hend]
    exact h₁
  · rw [Nat.zero_add] at h₁ hfail
    have hnone : st₁.1.walkPte E st₁.2 (pageAddr addr k) = none := by
      by_contra hsome
      have hok := (unmapPage_eq_ok_iff E st₁ _).mpr hsome
      rw [show st₁.1.unmapPage E st₁.2 _ = (.error e, st') from hfail] at hok
      cases hok
    -- the failing round has changed nothing
    have hsame : st' = st₁ := by
      rw [unmapRound, unmapPage, hnone] at hfail
      exact (Prod.mk.inj hfail).2.symm
    refine ⟨_, hlt.le, ?_, fun _ => ?_⟩
    · rw [unmapRange_eq, hend, hsame]
      exact h₁
    · rw [← h₁.walk]
      exact hnone

/-! ## The whole range -/

/-- No byte of the range is translated any more, and the pages outside are translated as before. -/
structure RangeRemoved (E : PageEntryApi) (addr length : U64) (st st' : VmmState) : Prop where
  removed : ∀ x : U64, addr.toNat ≤ x.toNat → x.toNat < addr.toNat + length.toNat →
    st'.1.translate E st'.2 x = none
  others : ∀ v, (∀ x : U64, addr.toNat ≤ x.toNat → x.toNat < addr.toNat + length.toNat →
      pageNumber v ≠ pageNumber x) → st'.1.translate E st'.2 v = st.1.translate E st.2 v

/-- Behind a page for which a table is missing, no page of the range is mapped. -/
def NothingBehindHoles (E : PageEntryApi) (addr length : U64) (st : VmmState) : Prop :=
  ∀ i j, i < j → j < pagesOf length → st.1.walkPte E st.2 (pageAddr addr i) = none →
    st.1.translate E st.2 (pageAddr addr j) = none

section Range

variable {addr length : U64}

lemma pagesOf_eq_strides (h : length.toNat < 2 ^ 47) :
    pagesOf length = strides 0x1000 length.toNat := by
  rw [pagesOf, strides, wrap_of_lt (by omega)]
  omega

/-- The pages of the range are those of its bytes. -/
lemma pageNumber_byte (hal : addr.toNat % 0x1000 = 0) (hend : addr.toNat + length.toNat < 2 ^ 47)
    {x : U64} (hx : addr.toNat ≤ x.toNat) (hlt : x.toNat < addr.toNat + length.toNat) :
    ∃ i < pagesOf length, pageNumber x = pageNumber (pageAddr addr i) := by
  refine ⟨(x.toNat - addr.toNat) / 0x1000, ?_, ?_⟩
  · rw [pagesOf_eq_strides (by omega), lt_strides_iff (by decide)]
    omega
  · rw [pageNumber, pageNumber, ← BitVec.toNat_inj, BitVec.extractLsb'_toNat,
      BitVec.extractLsb'_toNat, Nat.shiftRight_eq_div_pow, Nat.shiftRight_eq_div_pow,
      toNat_pageAddr]
    omega

lemma pageAddr_mem_range (hend : addr.toNat + length.toNat < 2 ^ 47) {i : ℕ}
    (hi : i < pagesOf length) : addr.toNat ≤ (pageAddr addr i).toNat ∧
      (pageAddr addr i).toNat < addr.toNat + length.toNat := by
  rw [pagesOf_eq_strides (by omega), lt_strides_iff (by decide)] at hi
  rw [toNat_pageAddr]
  omega

/-- An address space in which one page is mapped, at the beginning of a gigabyte. -/
def onePageSpace : VmmState :=
  (emptySpace.1.mapPage plainPageEntry bumpFrames emptySpace.2 0x40000000#64 0x9000#64 3#64).2

/-- The next page is mapped too. -/
def twoPageSpace : VmmState :=
  (onePageSpace.1.mapPage plainPageEntry bumpFrames onePageSpace.2 0x40001000#64 0xA000#64 3#64).2

lemma twoPageSpace_inOrder : InOrder plainPageEntry twoPageSpace := by
  have hempty : CleanSpace plainPageEntry bumpFrames emptySpace :=
    ⟨emptySpace_tree _, fun n a _ i => rfl⟩
  have hone : CleanSpace plainPageEntry bumpFrames onePageSpace :=
    (hempty.mapPage 0x40000000#64 0x9000#64 3#64).1
  exact (hone.mapPage 0x40001000#64 0xA000#64 3#64).1.tree

end Range

end Unmapping

end VirtualMemoryManager

end Masika
