import Mathlib.Data.FinEnum
import Mathlib.Data.Set.Card
import Masika.Memory.Virtual.CopyOnWrite
import Masika.Memory.Virtual.Rollback
import Masika.Memory.Virtual.Unmapping

/-!
# The number of pages in use

`page_count` should be the number of tables below the top table plus the number of used bottom
entries.  `map_page` adds one for every table that it links and one for the page, and `unmap_page`
takes one away if the entry was used.

The tables are counted rightly: each one that is linked was not a table before.  The pages are not.
`map_page` does not look at the entry that it overwrites, so a page that is mapped again is counted
again.  The counter is the number of pages in use plus a *surplus*, which no operation reduces
(`Surplus`, `Adds`).  `pageCount_right_iff` says which steps leave it at zero.
-/

namespace Masika

open PageTableEntry

namespace VirtualMemoryManager

/-! ## What is counted -/

/-- The counter. -/
def getUsedPages (vmm : VirtualMemoryManager) : U64 := vmm.pageCount

/-- The tables that are linked below the top table `r`. -/
def tablesBelow (r : ℕ) (s : TableMem) : Set ℕ := {t | IsTable {r} s t ∧ t ≠ r}

/-- The pages whose bottom entry is used. -/
def usedPages (r : ℕ) (s : TableMem) : Set (BitVec 36) :=
  {p | ∃ v, pageNumber v = p ∧ s.leafOf r v ≠ 0#64}

/-- Tables and used pages. -/
noncomputable def pagesInUse (st : VmmState) : ℕ :=
  (tablesBelow st.1.pml4 st.2).ncard + (usedPages st.1.pml4 st.2).ncard

/-- The counter is right. -/
def CountsPages (st : VmmState) : Prop := st.1.getUsedPages.toNat = pagesInUse st

section Sets

variable {E : PageEntryApi} {r : ℕ} {s s' : TableMem}

lemma isTable_singleton {t : ℕ} :
    IsTable {r} s t ↔ ∃ π : Path, π.length ≤ 3 ∧ x86.tableAt s.mem r π = some t := by
  simp [IsTable]

lemma mem_usedPages {v : U64} : pageNumber v ∈ usedPages r s ↔ s.leafOf r v ≠ 0#64 := by
  constructor
  · rintro ⟨w, hpage, hused⟩
    rwa [← TableMem.leafOf_congr hpage]
  · exact fun h => ⟨v, rfl, h⟩

lemma usedPages_finite : (usedPages r s).Finite := Set.toFinite _

lemma usedPages_ncard_le : (usedPages r s).ncard ≤ 2 ^ 36 := by
  have hle := Set.ncard_le_card (usedPages r s)
  rwa [Nat.card_eq_fintype_card, ← FinEnum.card_eq_fintypeCard, FinEnum.card_bitVec] at hle

/-- Every entry refers to an address of 52 bits. -/
lemma tablesBelow_lt {t : ℕ} (ht : t ∈ tablesBelow r s) : t < 2 ^ 52 := by
  obtain ⟨htable, hne⟩ := ht
  obtain ⟨π, -, hπ⟩ := isTable_singleton.mp htable
  induction π using List.reverseRecOn with
  | nil => exact absurd (Option.some.inj hπ).symm hne
  | append_singleton π i _ =>
    rw [RadixFormat.tableAt_snoc, Option.bind_eq_some_iff] at hπ
    obtain ⟨u, -, hnext⟩ := hπ
    change hwNext _ = some t at hnext
    rw [hwNext] at hnext
    split_ifs at hnext
    rw [← Option.some.inj hnext, hwAddr, BitVec.toNat_and]
    exact lt_of_le_of_lt Nat.and_le_right (by decide)

lemma tablesBelow_finite : (tablesBelow r s).Finite :=
  (Set.finite_lt_nat (2 ^ 52)).subset fun _ ht => tablesBelow_lt ht

lemma tablesBelow_ncard_le : (tablesBelow r s).ncard ≤ 2 ^ 52 := by
  have hsub : tablesBelow r s ⊆ (Finset.range (2 ^ 52) : Set ℕ) := fun t ht => by
    rw [Finset.coe_range]
    exact tablesBelow_lt ht
  have hle := Set.ncard_le_ncard hsub (Finset.finite_toSet _)
  rwa [Set.ncard_coe_finset, Finset.card_range] at hle

lemma pagesInUse_le (st : VmmState) : pagesInUse st ≤ 2 ^ 53 := by
  have htables := tablesBelow_ncard_le (r := st.1.pml4) (s := st.2)
  have hpages := usedPages_ncard_le (r := st.1.pml4) (s := st.2)
  rw [pagesInUse]
  omega

/-- A new table is one more. -/
lemma tablesBelow_ncard_link {a : ℕ} (hs : OwnTree E r s)
    (hs' : OwnTree E r s') (hgrows : Grows {r} s s')
    (hlive : s'.live = a :: s.live) (hfresh : a ∉ s.live) :
    (tablesBelow r s').ncard = (tablesBelow r s).ncard + 1 := by
  have hroot : r ∈ s.live := hs.forest.table_live r rfl [] r (Nat.zero_le 3) rfl
  have hnew : tablesBelow r s' = insert a (tablesBelow r s) := by
    ext t
    constructor
    · rintro ⟨ht, hne⟩
      obtain ⟨π, hπ, hpath⟩ := isTable_singleton.mp ht
      have hmem := hs'.forest.table_live r rfl π t hπ hpath
      rw [hlive] at hmem
      rcases List.mem_cons.mp hmem with rfl | hold
      · exact .inl rfl
      · refine .inr ⟨?_, hne⟩
        by_contra hdata
        exact (hgrows.data t hold hdata).1 ht
    · rintro (rfl | ⟨ht, hne⟩)
      · refine ⟨?_, fun heq => hfresh (heq ▸ hroot)⟩
        refine (hgrows.obtained t ?_).resolve_left hfresh
        rw [hlive]
        exact List.mem_cons_self
      · obtain ⟨π, hπ, hpath⟩ := isTable_singleton.mp ht
        exact ⟨⟨r, rfl, π, hπ, hgrows.kept r rfl π hπ t hpath⟩, hne⟩
  have hnot : a ∉ tablesBelow r s := by
    rintro ⟨ht, -⟩
    obtain ⟨π, hπ, hpath⟩ := isTable_singleton.mp ht
    exact hfresh (hs.forest.table_live r rfl π a hπ hpath)
  rw [hnew, Set.ncard_insert_of_notMem hnot tablesBelow_finite]

lemma tablesBelow_congr (h : ∀ t, IsTable {r} s' t ↔ IsTable {r} s t) :
    tablesBelow r s' = tablesBelow r s := by
  simp only [tablesBelow, h]

lemma usedPages_congr (h : ∀ v, s'.leafOf r v = s.leafOf r v) : usedPages r s' = usedPages r s := by
  simp only [usedPages, h]

/-- `1` if the entry is used. -/
def inUse (e : U64) : ℕ := if e = 0#64 then 0 else 1

/-- Setting one entry. -/
lemma usedPages_ncard_set {virt e : U64}
    (hleaf : ∀ v, s'.leafOf r v = if pageNumber v = pageNumber virt then e else s.leafOf r v) :
    (usedPages r s').ncard + inUse (s.leafOf r virt) = (usedPages r s).ncard + inUse e := by
  have hself : s'.leafOf r virt = e := by rw [hleaf, if_pos rfl]
  -- without the page of `virt` the sets are the same
  have hrest : usedPages r s' \ {pageNumber virt} = usedPages r s \ {pageNumber virt} := by
    ext p
    simp only [Set.mem_sdiff, Set.mem_singleton_iff, and_congr_left_iff]
    rintro hne
    constructor
    · rintro ⟨v, rfl, hused⟩
      rw [hleaf, if_neg hne] at hused
      exact ⟨v, rfl, hused⟩
    · rintro ⟨v, rfl, hused⟩
      refine ⟨v, rfl, ?_⟩
      rwa [hleaf, if_neg hne]
  have hsplit : ∀ u : TableMem, (usedPages r u).ncard
      = (usedPages r u \ {pageNumber virt}).ncard + inUse (u.leafOf r virt) := by
    intro u
    rw [inUse]
    split_ifs with hzero
    · rw [Set.sdiff_singleton_eq_self fun hmem => mem_usedPages.mp hmem hzero, Nat.add_zero]
    · exact (Set.ncard_sdiff_singleton_add_one (mem_usedPages.mpr hzero) usedPages_finite).symm
  have h := hsplit s
  have h' := hsplit s'
  rw [hrest, hself] at h'
  omega

end Sets

/-! ## The surplus -/

/-- The counter exceeds the number of pages in use by `n`, modulo `2 ^ 64`. -/
structure Surplus (E : PageEntryApi) (n : ℕ) (st : VmmState) : Prop where
  tree : InOrder E st
  count : st.1.pageCount = BitVec.ofNat 64 (pagesInUse st + n)

/-- From `st` to `st'` the surplus grows by at most `k`, and it stays the same if `ok` holds and
only then. -/
def Adds (E : PageEntryApi) (k : ℕ) (ok : Prop) (st st' : VmmState) : Prop :=
  ∀ n, Surplus E n st → ∃ n', Surplus E n' st' ∧ n ≤ n' ∧ n' ≤ n + k ∧ (n' = n ↔ ok)

lemma error_ne_ok (e : VmmError) : (.error e : Except VmmError Unit) ≠ .ok () := by
  intro h
  cases h

section Surplus

variable {E : PageEntryApi} {A : FrameAllocator} {n : ℕ} {st st' : VmmState}

/-- A small surplus shows. -/
lemma Surplus.countsPages_iff (h : Surplus E n st) (hn : n ≤ 2 ^ 53) : CountsPages st ↔ n = 0 := by
  have hle := pagesInUse_le st
  rw [CountsPages, getUsedPages, h.count, BitVec.toNat_ofNat, Nat.mod_eq_of_lt (by omega)]
  omega

lemma CountsPages.counted (h : CountsPages st) (hs : InOrder E st) : Surplus E 0 st := by
  refine ⟨hs, ?_⟩
  rw [Nat.add_zero, ← h, getUsedPages, BitVec.ofNat_toNat, BitVec.setWidth_eq]

/-- `page_count.fetch_add(1, ..)`, with a page more in use or not. -/
lemma Surplus.fetchAdd {n' : ℕ} (h : Surplus E n st) (hs' : InOrder E st')
    (hcount : st'.1.pageCount = st.1.pageCount + 1#64)
    (hpages : pagesInUse st' + n' = pagesInUse st + n + 1) : Surplus E n' st' := by
  refine ⟨hs', ?_⟩
  rw [hcount, h.count, hpages]
  exact (BitVec.ofNat_add _ 1).symm

/-- `page_count.fetch_sub(1, ..)`, with a page less in use. -/
lemma Surplus.fetchSub (h : Surplus E n st) (hs' : InOrder E st')
    (hcount : st'.1.pageCount = st.1.pageCount - 1#64)
    (hpages : pagesInUse st' + 1 = pagesInUse st) : Surplus E n st' := by
  refine ⟨hs', ?_⟩
  rw [hcount, h.count, ← hpages, Nat.add_right_comm, BitVec.ofNat_add _ 1]
  exact BitVec.add_sub_cancel _ _

/-- The surplus is the same. -/
lemma Surplus.keeps {k : ℕ} {ok : Prop} (h : Surplus E n st') (hok : ok) :
    ∃ n', Surplus E n' st' ∧ n ≤ n' ∧ n' ≤ n + k ∧ (n' = n ↔ ok) :=
  ⟨n, h, le_rfl, Nat.le_add_right n k, iff_of_true rfl hok⟩

lemma Adds.of_counted {k : ℕ} {ok : Prop} (hok : ok)
    (h : ∀ n, Surplus E n st → Surplus E n st') : Adds E k ok st st' :=
  fun n hn => (h n hn).keeps hok

lemma Adds.mono {k k' : ℕ} {ok : Prop} (h : Adds E k ok st st') (hk : k ≤ k') :
    Adds E k' ok st st' := by
  intro n hn
  obtain ⟨n', hn', hle, hbound, hiff⟩ := h n hn
  exact ⟨n', hn', hle, by omega, hiff⟩

lemma Adds.congr {k : ℕ} {ok ok' : Prop} (h : Adds E k ok st st') (hok : ok ↔ ok') :
    Adds E k ok' st st' := by
  rwa [← hok]

lemma Adds.trans {k k' : ℕ} {ok ok' : Prop} {st'' : VmmState} (h : Adds E k ok st st')
    (h' : Adds E k' ok' st' st'') : Adds E (k + k') (ok ∧ ok') st st'' := by
  intro n hn
  obtain ⟨n₁, hn₁, hle, hbound, hiff⟩ := h n hn
  obtain ⟨n₂, hn₂, hle', hbound', hiff'⟩ := h' n₁ hn₁
  refine ⟨n₂, hn₂, hle.trans hle', by omega, ?_⟩
  rw [← hiff, ← hiff']
  constructor
  · intro heq
    exact ⟨by omega, by omega⟩
  · rintro ⟨heq, heq'⟩
    exact heq'.trans heq

/-! ## Tables -/

/-- A level of `map_page`: a new table is counted, once. -/
lemma Surplus.ensureTable {vmm vmm' : VirtualMemoryManager} {s s' : TableMem}
    (h : Surplus E n (vmm, s)) (hc : Clean A s) {ρ : Path} {t : ℕ} {i : Fin 512}
    (hlen : ρ.length < 3) (ht : x86.tableAt s.mem vmm.pml4 ρ = some t)
    (hstep : vmmEnsureTable E A vmm s (x86.slot t i) = some (vmm', s')) :
    Surplus E n (vmm', s') := by
  obtain ⟨-, hs', hgrows, -, -⟩ :=
    vmmEnsureTable_spec h.tree hlen ht (hc (missingTables E s.mem t [i])) hstep
  rw [vmmEnsureTable] at hstep
  split_ifs at hstep with hu
  · obtain ⟨a, ha, heq⟩ := Option.map_eq_some_iff.mp hstep
    obtain ⟨rfl, rfl⟩ := Prod.mk.inj heq
    have htables := tablesBelow_ncard_link h.tree hs' hgrows rfl (A.fresh _ _ ha)
    have hpages := usedPages_congr fun v => hgrows.leaves _ rfl _ _ (upperPath_length v)
    refine h.fetchAdd hs' rfl ?_
    dsimp only [pagesInUse] at htables hpages ⊢
    rw [htables, hpages]
    omega
  · obtain ⟨rfl, rfl⟩ := Prod.mk.inj (Option.some.inj hstep)
    exact h

end Surplus

/-! ## Pages -/

/-- If there are frames for the missing tables, so that the page gets mapped, its entry is unused
before and used afterwards. -/
def MapsUnused (E : PageEntryApi) (A : FrameAllocator) (st : VmmState) (virt phys flags : U64) :
    Prop :=
  Supplies A st.2.live (tablesMissing st.2.mem st.1.pml4 (tablePaths virt)) →
    st.2.leafOf st.1.pml4 virt = 0#64 ∧ E.set phys flags 0#64 ≠ 0#64

lemma inUse_eq_zero {e : U64} : inUse e = 0 ↔ e = 0#64 := by
  by_cases h : e = 0#64 <;> simp [inUse, h]

lemma inUse_le (e : U64) : inUse e ≤ 1 := by
  rw [inUse]
  split_ifs <;> decide

lemma surplus_eq_iff (n : ℕ) (old new : U64) :
    n + inUse old + (1 - inUse new) = n ↔ old = 0#64 ∧ new ≠ 0#64 := by
  have hle := inUse_le new
  rw [ne_eq, ← inUse_eq_zero, ← inUse_eq_zero (e := new)]
  omega

section Pages

variable {E : PageEntryApi} {A : FrameAllocator} {vmm : VirtualMemoryManager} {s : TableMem}

/-- **`map_page`** counts the page, whatever its entry was. -/
lemma mapPage_adds (hc : Clean A s) (virt phys flags : U64) :
    Adds E 2 (MapsUnused E A (vmm, s) virt phys flags) (vmm, s)
      (vmm.mapPage E A s virt phys flags).2 := by
  intro n h
  have hlen : ([] : Path).length + (upperPath virt).length ≤ 3 := by simp
  obtain ⟨answer, vmm₁, s₁, heq, hroot, hs₁, hgrows, htable⟩ :=
    vmmEnsurePath_spec h.tree hlen rfl (hc _)
  have h₁ : Surplus E n (vmmEnsurePath E A vmm s vmm.pml4 (upperPath virt)).2 := by
    refine vmmEnsurePath_keeps (fun hr _ hc hlt ht hlevel h => ?_) rfl h.tree hc hlen rfl h
    rw [← hr] at ht
    exact h.ensureTable hc hlt ht hlevel
  rw [MapsUnused, ← mapPage_ok_iff ⟨h.tree, hc⟩ virt phys flags, vmm_mapPage_eq]
  rw [heq] at h₁ ⊢
  cases answer with
  | none => exact h₁.keeps fun hok => absurd hok (error_ne_ok _)
  | some pt =>
    have hpt := htable pt rfl
    have hsame : s₁.leafOf vmm.pml4 virt = s.leafOf vmm.pml4 virt :=
      hgrows.leaves _ rfl _ _ (upperPath_length virt)
    have hword : s₁.mem (x86.slot pt (ptIndex virt)) = s.leafOf vmm.pml4 virt := by
      rw [← leafOf_of_tableAt hpt, hsame]
    dsimp only
    rw [hword]
    obtain ⟨hs', hset⟩ := LeafSet.write hs₁ hpt (E.set phys flags (s.leafOf vmm.pml4 virt))
    have htables := tablesBelow_congr hset.isTable
    have hpages := usedPages_ncard_set fun v => by simpa using hset.leaf _ rfl v
    rw [hsame] at hpages
    have hold := inUse_le (s.leafOf vmm.pml4 virt)
    have hnew := inUse_le (E.set phys flags (s.leafOf vmm.pml4 virt))
    refine ⟨n + inUse (s.leafOf vmm.pml4 virt)
      + (1 - inUse (E.set phys flags (s.leafOf vmm.pml4 virt))), ?_, by omega, by omega, ?_⟩
    · refine h₁.fetchAdd (.of_root hroot hs') rfl ?_
      dsimp only [pagesInUse] at htables hpages ⊢
      rw [hroot, htables]
      omega
    · rw [surplus_eq_iff]
      constructor
      · rintro ⟨hzero, hused⟩ _
        rw [hzero] at hused
        exact ⟨hzero, hused⟩
      · intro hok
        obtain ⟨hzero, hused⟩ := hok rfl
        rw [hzero]
        exact ⟨rfl, hused⟩

/-- Frames that come into use for data are not counted. -/
lemma Surplus.take {n a : ℕ} (h : Surplus E n (vmm, s)) (ha : A.new s.live = some a) :
    Surplus E n (vmm, ⟨s.mem, a :: s.live⟩) :=
  ⟨h.tree.addLive [a] (by simpa using A.aligned _ _ ha), h.count⟩

/-- Neither are changes outside of the tables. -/
lemma Surplus.sameTables {n : ℕ} {s' : TableMem} (h : Surplus E n (vmm, s))
    (htab : SameTables {vmm.pml4} s s') : Surplus E n (vmm, s') := by
  refine ⟨⟨htab.forest h.tree.forest, rfl, rfl⟩, ?_⟩
  have hcount := h.count
  dsimp only [pagesInUse] at hcount ⊢
  rw [hcount, tablesBelow_congr htab.isTable, usedPages_congr fun v => htab.leafOf rfl v]

/-- What `MapsUnused` says of `mapFresh`. -/
def FreshUnused (E : PageEntryApi) (A : FrameAllocator) (st : VmmState) (virt flags : U64) : Prop :=
  ∀ a, A.new st.2.live = some a →
    MapsUnused E A (st.1, ⟨st.2.mem, a :: st.2.live⟩) virt (BitVec.ofNat 64 a) flags

end Pages

section Calls

variable {E : PageEntryOps} {A : FrameAllocator} {vmm : VirtualMemoryManager} {s : TableMem}

lemma mapFresh_adds (hc : Clean A s) (virt flags : U64) :
    Adds E 2 (FreshUnused E A (vmm, s) virt flags) (vmm, s)
      (mapFresh E A vmm s virt flags).2 := by
  rw [mapFresh, withFrame]
  cases hnew : A.new s.live with
  | none =>
    refine .of_counted (fun a ha => ?_) fun n h => h
    rw [hnew] at ha
    cases ha
  | some a =>
    intro n h
    obtain ⟨n', hn', hle, hbound, hiff⟩ :=
      mapPage_adds (hc.take hnew) virt (BitVec.ofNat 64 a) flags n (h.take hnew)
    refine ⟨n', hn', hle, hbound, hiff.trans ⟨fun hok b hb => ?_, fun hok => hok a hnew⟩⟩
    obtain rfl : a = b := Option.some.inj (hnew.symm.trans hb)
    exact hok

/-- The frame that is mapped in round `i` of a loop that takes one for each page. -/
def frameOfRound (A : FrameAllocator) (page : ℕ → U64) (st : VmmState) (i : ℕ) : Option ℕ :=
  (handedOut A st.2.live (framesNeeded 1 st.2.mem st.1.pml4 page i + 1))[
    framesNeeded 1 st.2.mem st.1.pml4 page i]?

/-- Round `i` of such a loop maps a page that is unused before the loop and is not the page of an
earlier round, and it stores a used entry. -/
structure RoundUnused (E : PageEntryApi) (A : FrameAllocator) (page : ℕ → U64) (flags : U64)
    (st : VmmState) (i : ℕ) : Prop where
  unused : st.2.leafOf st.1.pml4 (page i) = 0#64
  first : ∀ j < i, pageNumber (page i) ≠ pageNumber (page j)
  used : ∀ a, frameOfRound A page st i = some a → E.set (BitVec.ofNat 64 a) flags 0#64 ≠ 0#64

section Rounds

variable {page : ℕ → U64} {flags : U64} {st st₁ st' : VmmState} {k a : ℕ}

lemma frameOfRound_eq {E : PageEntryApi} (h : Reached E A 1 page st k st₁)
    (ha : A.new st₁.2.live = some a) : frameOfRound A page st k = some a := by
  have hlen : (handedOut A st.2.live (framesNeeded 1 st.2.mem st.1.pml4 page k)).length
      = framesNeeded 1 st.2.mem st.1.pml4 page k := h.enough
  have hnext : handedOut A st.2.live (framesNeeded 1 st.2.mem st.1.pml4 page k + 1)
      = handedOut A st.2.live (framesNeeded 1 st.2.mem st.1.pml4 page k) ++ [a] :=
    h.built.frames.handedOut_next ha
  rw [frameOfRound, hnext, List.getElem?_append_right hlen.le, hlen, Nat.sub_self]
  rfl

/-- A round succeeds if there is a frame, and after it enough for the missing tables. -/
lemma mapFresh_ok_iff (hs : CleanSpace E A st₁) (virt flags : U64) :
    (mapFresh E A st₁.1 st₁.2 virt flags).1 = .ok () ↔ ∃ a, A.new st₁.2.live = some a ∧
      Supplies A (a :: st₁.2.live) (tablesMissing st₁.2.mem st₁.1.pml4 (tablePaths virt)) := by
  rw [mapFresh, withFrame]
  cases hnew : A.new st₁.2.live with
  | none => simp
  | some a =>
    refine (mapPage_ok_iff (hs.take hnew) virt _ flags).trans ⟨fun h => ⟨a, rfl, h⟩, ?_⟩
    rintro ⟨b, hb, h⟩
    exact Option.some.inj hb ▸ h

/-- What a round that succeeds meets, in terms of the state before the loop. -/
lemma freshUnused_iff (h : Reached E A 1 page st k st₁)
    (hused : ∀ i < k, st₁.2.leafOf st.1.pml4 (page i) ≠ 0#64)
    (hok : mapFresh E A st₁.1 st₁.2 (page k) flags = (.ok (), st')) :
    FreshUnused E A st₁ (page k) flags ↔
      RoundUnused E A page flags st k := by
  obtain ⟨a, hnew, hframes⟩ :=
    (mapFresh_ok_iff h.space (page k) flags).mp (congrArg Prod.fst hok)
  have hframe := frameOfRound_eq h hnew
  constructor
  · intro hfresh
    obtain ⟨hzero, hset⟩ := hfresh a hnew hframes
    have hzero' : st₁.2.leafOf st.1.pml4 (page k) = 0#64 := h.kept.root ▸ hzero
    have hfirst : ∀ j < k, pageNumber (page k) ≠ pageNumber (page j) := by
      intro j hj hpage
      rw [TableMem.leafOf_congr hpage] at hzero'
      exact hused j hj hzero'
    refine ⟨(h.kept.leaf _ hfirst).symm.trans hzero', hfirst, fun b hb => ?_⟩
    obtain rfl : a = b := Option.some.inj (hframe.symm.trans hb)
    exact hset
  · rintro ⟨hzero, hfirst, hset⟩ b hb _
    obtain rfl : a = b := Option.some.inj (hnew.symm.trans hb)
    refine ⟨?_, hset a hframe⟩
    rw [← h.kept.leaf _ hfirst, ← h.kept.root] at hzero
    exact hzero

/-- After `k` rounds that have all succeeded. -/
structure RoundsCounted (E : PageEntryApi) (A : FrameAllocator) (page : ℕ → U64) (flags : U64)
    (st : VmmState) (k : ℕ) (st₁ : VmmState) : Prop where
  adds : Adds E (2 * k) (∀ i < k, RoundUnused E A page flags st i) st st₁
  used : (∀ i < k, RoundUnused E A page flags st i) →
    ∀ i < k, st₁.2.leafOf st.1.pml4 (page i) ≠ 0#64

lemma RoundsCounted.step (hreached : Reached E A 1 page st k st₁)
    (h : RoundsCounted E A page flags st k st₁)
    (hok : mapFresh E A st₁.1 st₁.2 (page k) flags = (.ok (), st')) :
    RoundsCounted E A page flags st (k + 1) st' := by
  have hround : Adds E 2 (FreshUnused E A st₁ (page k) flags) st₁
      (mapFresh E A st₁.1 st₁.2 (page k) flags).2 :=
    mapFresh_adds hreached.space.clean (page k) flags
  have hsets := (hreached.space.mapFresh (page k) flags).2
  obtain ⟨a, hnew, -⟩ :=
    (mapFresh_ok_iff hreached.space (page k) flags).mp (congrArg Prod.fst hok)
  rw [hok] at hround hsets
  refine ⟨(h.adds.trans hround).congr ?_, fun hall i hi => ?_⟩
  · constructor
    · rintro ⟨hall, hfresh⟩ i hi
      rcases Nat.eq_or_lt_of_le (Nat.le_of_lt_succ hi) with rfl | hlt
      · exact (freshUnused_iff hreached (h.used hall) hok).mp hfresh
      · exact hall i hlt
    · intro hall
      have hbefore : ∀ i < k, RoundUnused E A page flags st i :=
        fun i hi => hall i (Nat.lt_succ_of_lt hi)
      exact ⟨hbefore,
        (freshUnused_iff hreached (h.used hbefore) hok).mpr (hall k k.lt_succ_self)⟩
  · obtain ⟨hzero, hfirst, hset⟩ := hall k k.lt_succ_self
    rw [← hreached.kept.root]
    rcases Nat.eq_or_lt_of_le (Nat.le_of_lt_succ hi) with rfl | hlt
    · rw [hsets.own rfl _ rfl, freshEntry, hnew]
      dsimp only
      rw [hreached.kept.root, hreached.kept.leaf _ hfirst, hzero]
      exact hset a (frameOfRound_eq hreached hnew)
    · rw [hsets.leaf _ fun _ => (hfirst i hlt).symm]
      dsimp only
      rw [hreached.kept.root]
      exact h.used (fun i hi => hall i (Nat.lt_succ_of_lt hi)) i hlt

/-- **The loop of `mmap`.**  The surplus stays the same if every page for which there are frames is
unused before the loop and is met once. -/
lemma mmapLoop_adds (hs : CleanSpace E A st) (start prot : U64) (n : ℕ) :
    Adds E (2 * n)
      (∀ i < n, Supplies A st.2.live (framesNeeded 1 st.2.mem st.1.pml4 (pageAddr start) (i + 1)) →
        RoundUnused E A (pageAddr start) prot st i)
      st (forPages (mmapRound E A start prot) n 0 st).2 := by
  have hround : ∀ i st, CleanSpace E A st →
      MapsRound E A 1 (pageAddr start i) st (mmapRound E A start prot i st) :=
    fun i st hst => mapFresh_mapsRound hst (pageAddr start i) prot
  obtain ⟨k, st₁, hreached, hcounted, hiff, hend⟩ :=
    forPages_reached (I := RoundsCounted E A (pageAddr start) prot st) hround
      (fun i st₁ st' h hI hok => hI.step h hok) hs
      ⟨.of_counted (fun i hi => absurd hi (Nat.not_lt_zero i)) fun n h => h,
        fun _ i hi => absurd hi (Nat.not_lt_zero i)⟩ n
  rcases hend with ⟨rfl, heq⟩ | ⟨hlt, e, st', hfail, heq⟩
  · rw [heq]
    exact hcounted.adds.congr
      ⟨fun h i hi _ => h i hi, fun h i hi => h i hi ((hiff i hi).mpr hi)⟩
  · -- the round that fails maps nothing
    have hadds : Adds E 2
        (FreshUnused E A st₁ (pageAddr start k) prot) st₁
        (mapFresh E A st₁.1 st₁.2 (pageAddr start k) prot).2 :=
      mapFresh_adds hreached.space.clean (pageAddr start k) prot
    have hnone : FreshUnused E A st₁ (pageAddr start k) prot := by
      intro a hnew hframes
      have hok := (mapFresh_ok_iff hreached.space (pageAddr start k) prot).mpr ⟨a, hnew, hframes⟩
      rw [show mapFresh E A st₁.1 st₁.2 (pageAddr start k) prot = (.error e, st') from hfail] at hok
      cases hok
    rw [show mapFresh E A st₁.1 st₁.2 (pageAddr start k) prot = (.error e, st') from hfail] at hadds
    rw [heq]
    refine ((hcounted.adds.trans hadds).mono (by omega)).congr
      ⟨fun h i hi hframes => h.1 i ((hiff i hi).mp hframes), fun h => ⟨fun i hi => ?_, hnone⟩⟩
    exact h i (hi.trans hlt) ((hiff i (hi.trans hlt)).mpr hi)

end Rounds

lemma unmapPage_pageCount (hs : InOrder E (vmm, s)) {virt : U64}
    (hused : s.leafOf vmm.pml4 virt ≠ 0#64) :
    (vmm.unmapPage E s virt).2.1.pageCount = vmm.pageCount - 1#64 := by
  rcases walkPte_cases hs virt with ⟨-, hleaf⟩ | ⟨t, -, hwalk, hleaf⟩
  · exact absurd hleaf hused
  · rw [hleaf] at hused
    simp only [unmapPage, hwalk, E.isUnused_eq, beq_iff_eq, if_neg hused]

/-- **`unmap_page`** takes away what it removes. -/
lemma Surplus.unmapPage {n : ℕ} (h : Surplus E n (vmm, s)) (virt : U64) :
    Surplus E n (vmm.unmapPage E s virt).2 := by
  by_cases hzero : s.leafOf vmm.pml4 virt = 0#64
  · rw [unmapPage_of_unused h.tree hzero]
    exact h
  · obtain ⟨hroot, hs', hset, -⟩ := unmapPage_spec h.tree virt
    have htables := tablesBelow_congr hset.isTable
    have hpages := usedPages_ncard_set fun v => by simpa using hset.leaf _ rfl v
    rw [inUse, inUse, if_pos rfl, if_neg hzero] at hpages
    refine h.fetchSub (.of_root hroot hs') (unmapPage_pageCount h.tree hzero) ?_
    dsimp only [pagesInUse] at hroot htables hpages ⊢
    rw [hroot, htables]
    omega

/-- A page that is marked for copying has a used entry. -/
lemma leafOf_ne_zero_of_isCowPage (hs : InOrder E (vmm, s)) {addr : U64}
    (h : vmm.isCowPage E s addr = true) : s.leafOf vmm.pml4 addr ≠ 0#64 := by
  rw [isCowPage, Bool.and_eq_true] at h
  rcases walkPte_cases hs addr with ⟨hwalk, -⟩ | ⟨t, -, hwalk, hleaf⟩
  · rw [hwalk] at h
    exact absurd h.2 (by simp)
  · rw [hwalk] at h
    intro hzero
    have hword : s.mem (x86.slot t (ptIndex addr)) = 0#64 := hleaf.symm.trans hzero
    simp [hword, E.flags_eq] at h

/-- **`handle_cow_fault`** counts the page again, unless there is no frame for the copy. -/
lemma handleCowFault_adds (hc : Clean A s) {addr : U64} (hused : s.leafOf vmm.pml4 addr ≠ 0#64) :
    Adds E 2 (A.new s.live = none) (vmm, s) (handleCowFault E A vmm s addr).2 := by
  intro n h
  rw [handleCowFault, withFrame]
  cases hnew : A.new s.live with
  | none => exact h.keeps rfl
  | some a =>
    have htaken := h.take hnew
    have hal := A.aligned _ _ hnew
    obtain ⟨n', hn', hle, hbound, hiff⟩ :=
      mapPage_adds (hc.take hnew) addr (BitVec.ofNat 64 a) 0x07#64 n htaken
    have hdata : DataFrame E A vmm.pml4 a
        (vmm.mapPage E A ⟨s.mem, a :: s.live⟩ addr (BitVec.ofNat 64 a) 0x07#64).2 :=
      DataFrame.mapPage ⟨⟨htaken.tree, hc.take hnew⟩, rfl, List.mem_cons_self,
        not_isTable_of_fresh h.tree (A.fresh _ _ hnew)⟩ addr _ _
    -- the entry is used, so no table is missing
    have htable : x86.tableAt s.mem vmm.pml4 (upperPath addr) ≠ none := fun hnone =>
      hused (RadixFormat.leafWord_of_none x86 hnone _)
    have hok := (mapPage_ok_iff ⟨htaken.tree, hc.take hnew⟩ addr (BitVec.ofNat 64 a) 0x07#64).mpr
      (by rw [tablesMissing_tablePaths htable]; rfl)
    have hmoved : n' ≠ n := fun heq => hused (hiff.mp heq
      (by rw [tablesMissing_tablePaths htable]; rfl)).1
    have hold : vmm.translate E ⟨s.mem, a :: s.live⟩ addr
        = some (hwAddr (s.leafOf vmm.pml4 addr)) :=
      (translate_eq htaken.tree addr).trans (mappedFrame_of_ne hused)
    simp only [hold]
    generalize vmm.mapPage E A ⟨s.mem, a :: s.live⟩ addr (BitVec.ofNat 64 a)
      0x07#64 = result at hn' hdata hok
    obtain ⟨_ | _, vmm', s'⟩ := result
    · cases hok
    · have htab := SameTables.of_frame hdata.space.tree.forest hdata.live
        (hdata.root ▸ hdata.data) fun t ht hne i =>
          copyFrame_other s'.mem (hwAddr (s.leafOf vmm.pml4 addr)).toNat hal ht hne i
      exact ⟨n', hn'.sameTables htab, hle, hbound, iff_of_false hmoved (by simp)⟩

end Calls

/-! ## Runs -/

/-- The calls that change the counter. -/
inductive PageOp where
  | mapPage (A : FrameAllocator) (virt phys flags : U64)
  | mapKernelPage (A : FrameAllocator) (virt phys flags : U64)
  | unmapPage (virt : U64)
  | mmap (A : FrameAllocator) (addr length prot flags : U64)
  | munmap (addr length : U64)
  | handlePageFault (A : FrameAllocator) (addr errorCode : U64)

section Ops

variable (E : PageEntryOps)

/-- What a call does. -/
def PageOp.exec : PageOp → VmmState → VmmState
  | mapPage A virt phys flags, (vmm, s) => (vmm.mapPage E A s virt phys flags).2
  | mapKernelPage A virt phys flags, (vmm, s) => (vmm.mapKernelPage E A s virt phys flags).2
  | unmapPage virt, (vmm, s) => (vmm.unmapPage E s virt).2
  | mmap A addr length prot flags, (vmm, s) => (vmm.mmap E A s addr length prot flags).2
  | munmap addr length, (vmm, s) => (vmm.munmap E s addr length).2
  | handlePageFault A addr errorCode, (vmm, s) => (vmm.handlePageFault E A s addr errorCode).2

/-- Every operation comes back, whether it fails or not. -/
def pageStep (st : VmmState) (op : PageOp) : Option VmmState := some (op.exec E st)

/-- All frames that would be handed out from the call on hold zeros. -/
def PageOp.Zeroed (st : VmmState) : PageOp → Prop
  | mapPage A _ _ _ | mapKernelPage A _ _ _ | mmap A _ _ _ _ | handlePageFault A _ _ => Clean A st.2
  | unmapPage _ | munmap _ _ => True

/-- The operation maps no page whose entry is used, stores no unused entry, and copies no page. -/
def PageOp.MapsUnused (st : VmmState) : PageOp → Prop
  | mapPage A virt phys flags | mapKernelPage A virt phys flags =>
    VirtualMemoryManager.MapsUnused E A st virt phys flags
  | mmap A addr length prot _ =>
    ∀ start, st.1.mmapStart E st.2 addr length = .ok start →
      ∀ i < pagesOf length,
        Supplies A st.2.live (framesNeeded 1 st.2.mem st.1.pml4 (pageAddr start) (i + 1)) →
          RoundUnused E A (pageAddr start) prot st i
  | handlePageFault A addr errorCode =>
    let vaddr := addr &&& ~~~0xFFF#64
    if errorCode &&& 0x01#64 = 0#64 then FreshUnused E A st vaddr 0x03#64
    else errorCode &&& 0x02#64 ≠ 0#64 ∧ st.1.isCowPage E st.2 vaddr → A.new st.2.live = none
  | unmapPage _ | munmap _ _ => True

/-- `fetch_sub` is not executed on zero. -/
def DecrementsAbove (st : VmmState) (virt : U64) : Prop :=
  st.2.leafOf st.1.pml4 virt ≠ 0#64 → st.1.pageCount ≠ 0#64

/-- The counter does not wrap around below zero. -/
def PageOp.StaysAbove (st : VmmState) : PageOp → Prop
  | unmapPage virt => DecrementsAbove st virt
  | munmap addr length =>
    EveryRound (unmapRound E addr) (fun i st => DecrementsAbove st (pageAddr addr i))
      (pagesOf length) 0 st
  | _ => True

end Ops

section Runs

variable {E : PageEntryOps} {st : VmmState}

lemma pagesOf_lt (size : U64) : pagesOf size < 2 ^ 52 := by
  rw [pagesOf, wrap]
  omega

/-- **Every operation.**  The surplus stays the same exactly if no used entry is overwritten. -/
lemma PageOp.adds (op : PageOp) (hs : InOrder E st) (hc : op.Zeroed st) :
    Adds E (2 ^ 53) (op.MapsUnused E st) st (op.exec E st) := by
  obtain ⟨vmm, s⟩ := st
  cases op with
  | mapPage A virt phys flags => exact (mapPage_adds hc virt phys flags).mono (by decide)
  | mapKernelPage A virt phys flags => exact (mapPage_adds hc virt phys flags).mono (by decide)
  | unmapPage virt => exact .of_counted trivial fun n h => h.unmapPage virt
  | munmap addr length =>
    refine .of_counted trivial fun n h => ?_
    exact forPages_invariant (fun i st hst => hst.unmapPage (pageAddr addr i)) _ 0 h
  | mmap A addr length prot flags =>
    rw [PageOp.exec, PageOp.MapsUnused, mmap_eq]
    cases hstart : vmm.mmapStart E s addr length with
    | error e =>
      refine .of_counted (fun start heq => ?_) fun n h => h
      cases heq
    | ok start =>
      have hpages := pagesOf_lt length
      have hloop := mmapLoop_adds ⟨hs, hc⟩ start prot (pagesOf length)
      refine (hloop.mono (by omega)).congr ⟨fun hall start' heq => ?_, fun h => h start rfl⟩
      rwa [← Except.ok.inj heq]
  | handlePageFault A addr errorCode =>
    rw [PageOp.exec, PageOp.MapsUnused, VirtualMemoryManager.handlePageFault]
    dsimp only
    split_ifs with hpresent hcow
    · exact (mapFresh_adds hc _ _).mono (by decide)
    · have hused := leafOf_ne_zero_of_isCowPage hs hcow.2
      exact ((handleCowFault_adds hc hused).mono (by decide)).congr
        ⟨fun h _ => h, fun h => h hcow⟩
    · exact .of_counted (fun h => absurd h hcow) fun n h => h

/-- What an operation leaves right. -/
lemma PageOp.countsPages_iff (op : PageOp) (hs : InOrder E st) (hc : op.Zeroed st)
    (hright : CountsPages st) : CountsPages (op.exec E st) ↔ op.MapsUnused E st := by
  obtain ⟨n, hn, -, hbound, hiff⟩ := op.adds hs hc 0 (hright.counted hs)
  rw [hn.countsPages_iff (by omega), hiff]

/-- Every tree in order has some surplus. -/
lemma InOrder.counted (hs : InOrder E st) : ∃ n, Surplus E n st := by
  have hle := pagesInUse_le st
  refine ⟨st.1.pageCount.toNat + 2 ^ 64 - pagesInUse st, hs, BitVec.eq_of_toNat_eq ?_⟩
  have hlt := st.1.pageCount.isLt
  rw [BitVec.toNat_ofNat]
  omega

lemma PageOp.inOrder (op : PageOp) (hs : InOrder E st) (hc : op.Zeroed st) :
    InOrder E (op.exec E st) := by
  obtain ⟨n, hn⟩ := hs.counted
  obtain ⟨n', hn', -⟩ := op.adds hs hc n hn
  exact hn'.tree

lemma Surplus.decrementsAbove (h : Surplus E 0 st) (virt : U64) : DecrementsAbove st virt := by
  intro hused hzero
  have hle := pagesInUse_le st
  have hpos : 0 < (usedPages st.1.pml4 st.2).ncard :=
    (Set.ncard_pos usedPages_finite).mpr ⟨_, mem_usedPages.mpr hused⟩
  have hcount := congrArg BitVec.toNat (h.count.symm.trans hzero)
  rw [BitVec.toNat_ofNat, Nat.mod_eq_of_lt (by omega), pagesInUse, BitVec.toNat_zero] at hcount
  omega

lemma everyRound_of_invariant {P : VmmState → Prop} {ok : ℕ → VmmState → Prop}
    {body : ℕ → VmmState → VmmAnswer Unit}
    (hround : ∀ i st, P st → ok i st ∧ P (body i st).2) (left : ℕ) :
    ∀ (i : ℕ) {st : VmmState}, P st → EveryRound body ok left i st := by
  induction left with
  | zero => exact fun i st _ => trivial
  | succ left ih =>
    intro i st h
    obtain ⟨hok, hnext⟩ := hround i st h
    refine ⟨hok, fun st' hbody => ih (i + 1) ?_⟩
    rw [hbody] at hnext
    exact hnext

/-- A counter that is right does not wrap around. -/
lemma PageOp.staysAbove (op : PageOp) (h : Surplus E 0 st) : op.StaysAbove E st := by
  cases op with
  | unmapPage virt => exact h.decrementsAbove virt
  | munmap addr length =>
    exact everyRound_of_invariant (fun i st hst =>
      ⟨hst.decrementsAbove (pageAddr addr i), hst.unmapPage (pageAddr addr i)⟩) _ 0 h
  | _ => trivial

/-- Nothing is in use below a cleared top table. -/
lemma pagesInUse_of_zero {vmm : VirtualMemoryManager} {s : TableMem}
    (hzero : ∀ i, s.mem (x86.slot vmm.pml4 i) = 0#64) : pagesInUse (vmm, s) = 0 := by
  have htables : tablesBelow vmm.pml4 s = ∅ := by
    rw [Set.eq_empty_iff_forall_notMem]
    rintro t ⟨ht, hne⟩
    obtain ⟨π, -, hπ⟩ := isTable_singleton.mp ht
    cases π with
    | nil => exact hne (Option.some.inj hπ).symm
    | cons i π =>
      rw [RadixFormat.tableAt, hzero] at hπ
      cases hπ
  have hpages : usedPages vmm.pml4 s = ∅ := by
    rw [Set.eq_empty_iff_forall_notMem]
    rintro p ⟨v, -, hused⟩
    exact hused (leafOf_of_zero hzero v)
  rw [pagesInUse, htables, hpages, Set.ncard_empty, Set.ncard_empty]

/-- A new address space. -/
lemma new_counted {A : FrameAllocator} {s₀ : TableMem} (hal : ∀ t ∈ s₀.live, t % 4096 = 0)
    (hnew : VirtualMemoryManager.new A s₀ = some st) : Surplus E 0 st := by
  refine ⟨(Implements.new hal hnew).tree, ?_⟩
  rw [VirtualMemoryManager.new, Option.map_eq_some_iff] at hnew
  obtain ⟨a, -, rfl⟩ := hnew
  rw [pagesInUse_of_zero fun i => RadixFormat.zeroTable_self s₀.mem a i]

/-- **When the counter is right.**  It is, and never wraps around below zero, as long as no
operation maps a page whose entry is used, stores an unused entry or copies a page. -/
theorem pageCount_right_iff (E : PageEntryOps) (A : FrameAllocator) {s₀ : TableMem}
    (hal : ∀ t ∈ s₀.live, t % 4096 = 0) {st : VmmState}
    (hnew : VirtualMemoryManager.new A s₀ = some st) {ops : List PageOp}
    (hzeroed : Meets (fun st op => op.Zeroed st) (pageStep E) st ops) :
    Always CountsPages (pageStep E) st ops ∧
        Meets (fun st op => op.StaysAbove E st) (pageStep E) st ops ↔
      Meets (fun st op => op.MapsUnused E st) (pageStep E) st ops := by
  have hstart : Surplus E 0 st := new_counted hal hnew
  have hinv : ∀ st (op : PageOp) st', InOrder E st → op.Zeroed st →
      pageStep E st op = some st' → InOrder E st' := by
    intro st op st' hs hc hstep
    rw [← Option.some.inj hstep]
    exact op.inOrder hs hc
  have hexact : Always CountsPages (pageStep E) st ops ↔
      Meets (fun st op => op.MapsUnused E st) (pageStep E) st ops := by
    refine always_iff_meets_of_meets hinv (fun st op hs hc hright => ?_) hstart.tree
      ((hstart.countsPages_iff (Nat.zero_le _)).mpr rfl) hzeroed
    rw [← op.countsPages_iff hs hc hright]
    exact ⟨fun h st' hstep => Option.some.inj hstep ▸ h, fun h => h _ rfl⟩
  rw [← hexact, and_iff_left_iff_imp]
  exact meets_of_always hinv (fun st op hs hright => op.staysAbove (hright.counted hs))
    hstart.tree hzeroed

/-- A page is mapped and unmapped. -/
def mapOnce : List PageOp := [.mapPage bumpFrames 0x5000#64 0x9000#64 3#64, .unmapPage 0x5000#64]

/-- A page is mapped a second time. -/
def mapTwice : List PageOp :=
  [.mapPage bumpFrames 0x5000#64 0x9000#64 3#64, .mapPage bumpFrames 0x5000#64 0xA000#64 3#64]

lemma new_emptySpace :
    VirtualMemoryManager.new bumpFrames ⟨fun _ => 0#64, []⟩ = some emptySpace := by
  have hmem : x86.zeroTable (fun _ => 0#64) 0x200000 = fun _ => 0#64 :=
    RadixFormat.zeroTable_eq_self fun _ => rfl
  change some ((⟨0x200000, 0#64, true⟩, ⟨x86.zeroTable (fun _ => 0#64) 0x200000, [0x200000]⟩) :
    VmmState) = some emptySpace
  rw [hmem, emptySpace]

/-- A page mapped once. -/
theorem pageCount_right_mapOnce :
    VirtualMemoryManager.new bumpFrames ⟨fun _ => 0#64, []⟩ = some emptySpace ∧
      Always CountsPages (pageStep plainEntryOps) emptySpace mapOnce ∧
      Meets (fun st op => op.StaysAbove plainEntryOps st) (pageStep plainEntryOps) emptySpace
        mapOnce := by
  refine ⟨new_emptySpace, (pageCount_right_iff plainEntryOps bumpFrames (by simp) new_emptySpace
    ?_).mpr ?_⟩
  · exact ⟨fun n a _ i => rfl, fun _ _ => ⟨trivial, fun _ _ => trivial⟩⟩
  · exact ⟨fun _ => ⟨by decide +kernel, by decide⟩, fun _ _ => ⟨trivial, fun _ _ => trivial⟩⟩

/-- **A page that is mapped again is counted again.** -/
theorem pageCount_wrong_mapTwice :
    VirtualMemoryManager.new bumpFrames ⟨fun _ => 0#64, []⟩ = some emptySpace ∧
      Meets (fun st op => op.Zeroed st) (pageStep plainEntryOps) emptySpace mapTwice ∧
      ¬ Always CountsPages (pageStep plainEntryOps) emptySpace mapTwice := by
  have hspace : CleanSpace plainPageEntry bumpFrames emptySpace :=
    ⟨emptySpace_tree _, fun n a _ i => rfl⟩
  obtain ⟨⟨htree, hclean⟩, -⟩ := hspace.mapPage 0x5000#64 0x9000#64 3#64
  refine ⟨new_emptySpace, ⟨hspace.clean, fun st hstep => ⟨?_, fun _ _ => trivial⟩⟩,
    fun hright => ?_⟩
  · rw [← Option.some.inj hstep]
    exact hclean
  · obtain ⟨hfirst, hsecond⟩ := hright.2 _ rfl
    have hunused := (PageOp.countsPages_iff (E := plainEntryOps)
      (.mapPage bumpFrames 0x5000#64 0xA000#64 3#64) htree hclean hfirst).mp (hsecond _ rfl)
    exact absurd (hunused (by decide +kernel)).1 (by decide +kernel)

end Runs

end VirtualMemoryManager

end Masika
