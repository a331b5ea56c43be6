import Masika.Memory.Virtual.Operations

/-!
# Tables made of stale frames

`map_page` links frames from `alloc_pages` as tables without clearing them, and the frame allocator
does not clear them either.  A frame that happens to hold words that look like entries brings
mappings with it, for up to `2 ^ 27` pages at the top level.

The worst contents are easy to name: a frame full of links to itself serves as a table of every
level at once (`stale_path`).  So whenever `map_page` gets a frame for a table there are contents
for which it changes the translation of a page other than its own; and when it needs no table, or
gets no frame, there are none (`mapPage_touches_one_page_iff`).
-/

namespace Masika

open VirtualMemoryManager

/-- Whatever the frames not in use hold: when `map_page` succeeds, it changes the translation of no
address outside of the page. -/
def MapTouchesOnePage (E : PageEntryApi) (A : FrameAllocator) (vmm : VirtualMemoryManager)
    (s : TableMem) (virt phys flags : U64) : Prop :=
  ∀ mem', AgreesInUse s mem' → ∀ vmm' s',
    vmm.mapPage E A ⟨mem', s.live⟩ virt phys flags = (.ok (), vmm', s') →
    ∀ w, pageNumber w ≠ pageNumber virt →
      vmm'.translate E s' w = vmm.translate E ⟨mem', s.live⟩ w

section

variable {E : PageEntryApi} {A : FrameAllocator} {Node : ℕ → U64 → Prop} {roots : Set ℕ}

/-! ## Without new tables -/

/-- Which tables are missing depends on the frames in use only. -/
lemma missingTables_of_agrees {s : TableMem} {mem' : ℕ → U64} {r : ℕ}
    (hs : VmmForest E Node roots r s) (hagree : AgreesInUse s mem')
    {π : Path} : ∀ {ρ : Path} {t : ℕ}, ρ.length + π.length ≤ 3 →
    x86.tableAt s.mem r ρ = some t → missingTables E mem' t π = missingTables E s.mem t π := by
  induction π with
  | nil =>
    intro ρ t _ _
    rfl
  | cons i π ih =>
    intro ρ t hlen ht
    rw [List.length_cons] at hlen
    have hentry := hagree t (hs.forest.table_live r hs.root ρ t (by omega) ht) i
    rw [missingTables, missingTables, hentry]
    cases hu : E.isUnused (s.mem (x86.slot t i)) with
    | true => rfl
    | false =>
      simp only [Bool.false_eq_true, if_false]
      have hlen' : (ρ ++ [i]).length + π.length ≤ 3 := by
        simp only [List.length_append, List.length_singleton]
        omega
      exact ih hlen' (hs.tableAt_of_used (by omega) ht hu)

/-- When no table is missing, only the page itself changes. -/
lemma mapTouchesOnePage_of_no_missing {vmm : VirtualMemoryManager} {s : TableMem} {virt : U64}
    (phys flags : U64) (hs : VmmForest E Node roots vmm.pml4 s)
    (hmissing : missingTables E s.mem vmm.pml4 (upperPath virt) = 0) :
    MapTouchesOnePage E A vmm s virt phys flags := by
  intro mem' hagree vmm' s' hmap w hw
  have hs' : VmmForest E Node roots vmm.pml4 ⟨mem', s.live⟩ :=
    ⟨RadixFormat.Forest.of_agree (hs.forest.agree_of_live hagree) hs.forest, hs.root, hs.entries⟩
  have hz : ZeroFor A ⟨mem', s.live⟩ (missingTables E mem' vmm.pml4 (upperPath virt)) := by
    rw [missingTables_of_agrees hs hagree (show ([] : Path).length + _ ≤ 3 by simp) rfl,
      hmissing]
    intro a ha
    cases ha
  obtain ⟨hroot, htree, hmapped⟩ := vmm_mapPage_spec phys flags hs' hz
  rw [hmap] at hroot htree hmapped
  have htree' : VmmForest E Node roots vmm'.pml4 s' := by rw [hroot]; exact htree
  rw [translate_eq htree', translate_eq hs', hroot, hmapped vmm.pml4 hs.root w,
    if_neg fun h => hw h.2]

/-! ## A frame full of links to itself -/

/-- The link to the frame `f`. -/
def vmmLink (E : PageEntryApi) (f : ℕ) : U64 := E.set (BitVec.ofNat 64 f) 0x03#64 0#64

lemma vmmNext_vmmLink_self {f : ℕ} (hal : f % 4096 = 0) (hlow : f < 2 ^ 52) :
    vmmNext E (vmmLink E f) = some f :=
  vmmNext_vmmLink E hal hlow 0#64

/-- The memory in which the frame `f` is full of links to itself. -/
def selfLinked (E : PageEntryApi) (mem : ℕ → U64) (f : ℕ) : ℕ → U64 :=
  fun x => if x86.inTable f x then vmmLink E f else mem x

lemma selfLinked_self (mem : ℕ → U64) (f : ℕ) (i : Fin 512) :
    selfLinked E mem f (x86.slot f i) = vmmLink E f := by
  rw [selfLinked, x86.slot_inTable, if_pos rfl]

section

variable {s : TableMem} {f : ℕ} (hlive : ∀ t ∈ s.live, t % 4096 = 0) (hnew : A.new s.live = some f)

include hlive hnew

lemma selfLinked_agrees : AgreesInUse s (selfLinked E s.mem f) := by
  intro t ht i
  have hout : x86.inTable f (x86.slot t i) = false := by
    cases h : x86.inTable f (x86.slot t i) with
    | false => rfl
    | true =>
      have htf := x86.apart t f _ (hlive t ht) (A.aligned _ _ hnew) (x86.slot_inTable t i) h
      exact absurd (htf ▸ ht) (A.fresh _ _ hnew)
  rw [selfLinked, hout, if_neg (by simp)]

/-- A slot of a frame in use is not a slot of the new frame. -/
lemma slot_ne_of_live {t : ℕ} (ht : t ∈ s.live) (i j : Fin 512) : x86.slot f j ≠ x86.slot t i := by
  intro hslot
  obtain ⟨rfl, -⟩ := x86.slot_eq (A.aligned _ _ hnew) (hlive t ht) hslot
  exact A.fresh _ _ hnew ht

end

/-- Below a frame full of links to itself no table is ever missing. -/
lemma ensurePath_selfLinked {vmm : VirtualMemoryManager} {s : TableMem} {f : ℕ}
    (hal : f % 4096 = 0) (hlow : f < 2 ^ 52) (h : ∀ i, s.mem (x86.slot f i) = vmmLink E f)
    (π : Path) : vmmEnsurePath E A vmm s f π = (some f, vmm, s) := by
  have hnext := vmmNext_vmmLink_self (E := E) hal hlow
  rw [vmmNext] at hnext
  split_ifs at hnext with hused
  induction π with
  | nil => rfl
  | cons i π ih =>
    have hptr : vmmTablePtr E s (x86.slot f i) = f := by
      rw [vmmTablePtr, h i]
      exact Option.some.inj hnext
    rw [vmmEnsurePath, vmmEnsureTable, h i, if_neg hused]
    simp only [hptr, ih]

/-- **`map_page` gets a frame full of links to itself.**  Where the first table is missing, the
frame is linked, and then it serves as all the tables below. -/
lemma stale_path {s : TableMem} {r f : ℕ} (hs : VmmForest E Node roots r s)
    (hnew : A.new s.live = some f) (vmm : VirtualMemoryManager) {π : Path} :
    ∀ {ρ : Path} {t : ℕ}, ρ.length + π.length ≤ 3 → x86.tableAt s.mem r ρ = some t →
    missingTables E s.mem t π ≠ 0 →
    ∃ π₁ i π₂ t₁ vmm', π = π₁ ++ i :: π₂ ∧ x86.tableAt s.mem r (ρ ++ π₁) = some t₁ ∧
      s.mem (x86.slot t₁ i) = 0#64 ∧ vmm'.pml4 = vmm.pml4 ∧
      vmmEnsurePath E A vmm ⟨selfLinked E s.mem f, s.live⟩ t π
        = (some f, vmm',
            ⟨Function.update (selfLinked E s.mem f) (x86.slot t₁ i) (vmmLink E f),
              f :: s.live⟩) := by
  have hal := A.aligned _ _ hnew
  have hlow := A.low _ _ hnew
  induction π with
  | nil =>
    intro ρ t _ _ hmissing
    exact absurd rfl hmissing
  | cons i π ih =>
    intro ρ t hlen ht hmissing
    rw [List.length_cons] at hlen
    have htlive := hs.forest.table_live r hs.root ρ t (by omega) ht
    have hentry : selfLinked E s.mem f (x86.slot t i) = s.mem (x86.slot t i) :=
      selfLinked_agrees hs.forest.aligned hnew t htlive i
    rw [vmmEnsurePath, vmmEnsureTable]
    simp only [hentry]
    cases hu : E.isUnused (s.mem (x86.slot t i)) with
    | true =>
      have hzero : s.mem (x86.slot t i) = 0#64 := by rwa [E.isUnused_eq, beq_iff_eq] at hu
      have hlink : E.set (BitVec.ofNat 64 f) 0x03#64 (s.mem (x86.slot t i)) = vmmLink E f := by
        rw [hzero]
        rfl
      have hself : ∀ j, Function.update (selfLinked E s.mem f) (x86.slot t i) (vmmLink E f)
          (x86.slot f j) = vmmLink E f := fun j => by
        rw [Function.update_of_ne (slot_ne_of_live hs.forest.aligned hnew htlive i j),
          selfLinked_self]
      have hptr : (E.addr (vmmLink E f)).toNat = f := vmmLink_addr E hal hlow 0#64
      refine ⟨[], i, π, t, { vmm with pageCount := vmm.pageCount + 1#64 }, rfl,
        by rwa [List.append_nil], hzero, rfl, ?_⟩
      simp only [if_true, hnew, Option.map_some, hlink, vmmTablePtr, Function.update_self, hptr]
      exact ensurePath_selfLinked hal hlow hself π
    | false =>
      simp only [Bool.false_eq_true, if_false, vmmTablePtr, hentry]
      rw [missingTables, hu, if_neg (by simp)] at hmissing
      have hlen' : (ρ ++ [i]).length + π.length ≤ 3 := by
        simp only [List.length_append, List.length_singleton]
        omega
      obtain ⟨π₁, j, π₂, t₁, vmm', hπ, ht₁, hzero, hroot, heq⟩ :=
        ih hlen' (hs.tableAt_of_used (by omega) ht hu) hmissing
      refine ⟨i :: π₁, j, π₂, t₁, vmm', by rw [hπ, List.cons_append], ?_, hzero, hroot, heq⟩
      rwa [List.append_assoc, List.singleton_append] at ht₁

/-- Some address has a given path and a last index other than a given one. -/
lemma exists_other_page {π : Path} (hπ : π.length = 3) (l : Fin 512) :
    ∃ w, upperPath w = π ∧ ptIndex w = l := by
  obtain ⟨i, j, k, rfl⟩ := List.length_eq_three.mp hπ
  exact ⟨virtOf i j k l, upperPath_virtOf i j k l, ptIndex_virtOf i j k l⟩

/-- A walk that goes round in a frame full of links to itself. -/
lemma tableAt_selfLinked {mem : ℕ → U64} {f : ℕ} (hal : f % 4096 = 0) (hlow : f < 2 ^ 52)
    {j : Fin 512} (h : mem (x86.slot f j) = vmmLink E f) (n : ℕ) :
    (vmmFormat E).tableAt mem f (List.replicate n j) = some f := by
  induction n with
  | zero => rfl
  | succ n ih =>
    rw [List.replicate_succ, RadixFormat.tableAt, vmmFormat_slot, vmmFormat_decode, h,
      vmmNext_vmmLink_self hal hlow, Option.bind_some, ih]

/-- Writing into the new frame and below `π₁` does not disturb the walk along `π₁`. -/
lemma tableAt_beside {s : TableMem} {r f t₁ : ℕ} {π₁ : Path} {i : Fin 512}
    (hs : VmmForest E Node roots r s) (hnew : A.new s.live = some f)
    (hlen : π₁.length ≤ 3) (ht₁ : x86.tableAt s.mem r π₁ = some t₁) (l : Fin 512) (x y : U64) :
    (vmmFormat E).tableAt (Function.update (Function.update (selfLinked E s.mem f)
      (x86.slot t₁ i) x) (x86.slot f l) y) r π₁ = some t₁ := by
  rw [← ht₁, ← vmmFormat_tableAt hs hlen]
  refine (vmmFormat E).tableAt_congr fun ρ j u hρ hu => ?_
  have hlt : ρ.length < π₁.length := by
    have := hρ.length_le
    simp only [List.length_append, List.length_singleton] at this
    omega
  rw [vmmFormat_tableAt hs (by omega)] at hu
  have hulive := hs.forest.table_live r hs.root ρ u (by omega) hu
  have htlive := hs.forest.table_live r hs.root π₁ t₁ hlen ht₁
  rw [vmmFormat_slot,
    Function.update_of_ne (slot_ne_of_live hs.forest.aligned hnew hulive j l).symm,
    Function.update_of_ne, selfLinked_agrees hs.forest.aligned hnew u hulive]
  intro hslot
  obtain ⟨rfl, -⟩ := x86.slot_eq (hs.forest.aligned u hulive) (hs.forest.aligned t₁ htlive) hslot
  obtain ⟨-, rfl⟩ := hs.forest.unshared r hs.root r hs.root ρ π₁ u (by omega) hlen hu ht₁
  omega

/-- Afterwards the walk goes on through the new frame, which leads to itself. -/
lemma translate_stale {s : TableMem} {r f t₁ : ℕ} {π₁ : Path} {i j l : Fin 512}
    (hs : VmmForest E Node roots r s) (hnew : A.new s.live = some f)
    (hlen : π₁.length ≤ 3) (ht₁ : x86.tableAt s.mem r π₁ = some t₁) (hj : j ≠ l) {w : U64} {n : ℕ}
    (hw : upperPath w = π₁ ++ i :: List.replicate n j) (hwidx : ptIndex w = j)
    {vmm : VirtualMemoryManager} (hroot : vmm.pml4 = r) (y : U64) (live : List ℕ) :
    vmm.translate E ⟨Function.update (Function.update (selfLinked E s.mem f) (x86.slot t₁ i)
      (vmmLink E f)) (x86.slot f l) y, live⟩ w ≠ none := by
  have hal := A.aligned _ _ hnew
  have hlow := A.low _ _ hnew
  have htlive := hs.forest.table_live r hs.root π₁ t₁ hlen ht₁
  have hne := slot_ne_of_live hs.forest.aligned hnew htlive i
  have htop := tableAt_beside hs hnew hlen ht₁ (i := i) l (vmmLink E f) y
  set mem₂ := Function.update (Function.update (selfLinked E s.mem f) (x86.slot t₁ i)
    (vmmLink E f)) (x86.slot f l) y with hmem₂
  have hlink : mem₂ (x86.slot t₁ i) = vmmLink E f := by
    rw [hmem₂, Function.update_of_ne (hne l).symm, Function.update_self]
  have hself : mem₂ (x86.slot f j) = vmmLink E f := by
    rw [hmem₂, Function.update_of_ne fun h => hj (x86.slot_inj f _ _ h),
      Function.update_of_ne (hne j), selfLinked_self]
  have hwalk : (vmmFormat E).tableAt mem₂ r (upperPath w) = some f := by
    rw [hw, RadixFormat.tableAt_append, htop, Option.bind_some, RadixFormat.tableAt,
      vmmFormat_slot, vmmFormat_decode, hlink, vmmNext_vmmLink_self hal hlow, Option.bind_some]
    exact tableAt_selfLinked hal hlow hself n
  have hused := vmmNext_vmmLink_self (E := E) hal hlow
  rw [vmmNext] at hused
  split_ifs at hused with hunused
  rw [VirtualMemoryManager.translate, walkPte_eq_tableAt, hroot, hwalk, Option.map_some,
    Option.bind_some, hwidx]
  simp only [hself, if_neg hunused]
  exact Option.some_ne_none _

/-- **Stale contents that matter.**  When a table is missing and a frame is there, some contents of
the frame make `map_page` map another page as well. -/
lemma not_mapTouchesOnePage {vmm : VirtualMemoryManager} {s : TableMem} {virt : U64} {f : ℕ}
    (phys flags : U64) (hs : VmmForest E Node roots vmm.pml4 s)
    (hmissing : missingTables E s.mem vmm.pml4 (upperPath virt) ≠ 0)
    (hnew : A.new s.live = some f) : ¬ MapTouchesOnePage E A vmm s virt phys flags := by
  have hal := A.aligned _ _ hnew
  have hlow := A.low _ _ hnew
  have hagree := selfLinked_agrees (E := E) hs.forest.aligned hnew
  obtain ⟨π₁, i, π₂, t₁, vmm₁, hπ, ht₁, hzero, hroot, hpath⟩ :=
    stale_path hs hnew vmm (show ([] : Path).length + _ ≤ 3 by simp) rfl hmissing
  rw [List.nil_append] at ht₁
  have hlen : π₁.length + π₂.length = 2 := by
    have := congrArg List.length hπ
    simp only [upperPath_length, List.length_append, List.length_cons] at this
    omega
  -- the other page: the same way down to the new frame, then round and round
  obtain ⟨j, hj⟩ : ∃ j : Fin 512, j ≠ ptIndex virt := by
    by_cases h : ptIndex virt = 0
    · exact ⟨1, by rw [h]; decide⟩
    · exact ⟨0, Ne.symm h⟩
  obtain ⟨w, hw, hwidx⟩ := exists_other_page
    (show (π₁ ++ i :: List.replicate π₂.length j).length = 3 by
      simp only [List.length_append, List.length_cons, List.length_replicate]; omega) j
  intro hall
  have hsame := hall _ hagree _ _ (by rw [vmm_mapPage_eq, hpath]) w fun h =>
    hj (by rw [← hwidx]; exact ((pageNumber_eq_iff _ _).mp h).2)
  -- before the call the entry above the page was unused
  have hbefore : vmm.translate E ⟨selfLinked E s.mem f, s.live⟩ w = none := by
    have hs' : VmmForest E Node roots vmm.pml4 ⟨selfLinked E s.mem f, s.live⟩ :=
      ⟨RadixFormat.Forest.of_agree (hs.forest.agree_of_live hagree) hs.forest, hs.root, hs.entries⟩
    have hnone : x86.tableAt (selfLinked E s.mem f) vmm.pml4 (upperPath w) = none := by
      rw [RadixFormat.tableAt_of_agree (hs.forest.agree_of_live hagree) hs.root
          (upperPath_length w).le, hw, RadixFormat.tableAt_append, ht₁, Option.bind_some,
        RadixFormat.tableAt, hzero]
      rfl
    rw [translate_eq hs', TableMem.leafOf, RadixFormat.leafWord_of_none x86 hnone]
    rfl
  exact translate_stale hs hnew (by omega) ht₁ hj hw hwidx hroot _ _ (hsame.trans hbefore)

/-- Without a frame for the first missing table the call fails. -/
lemma ensurePath_no_frame {vmm : VirtualMemoryManager} {s : TableMem} (hnew : A.new s.live = none)
    {π : Path} : ∀ {t : ℕ}, missingTables E s.mem t π ≠ 0 →
    (vmmEnsurePath E A vmm s t π).1 = none := by
  induction π with
  | nil =>
    intro t hmissing
    exact absurd rfl hmissing
  | cons i π ih =>
    intro t hmissing
    rw [missingTables] at hmissing
    rw [vmmEnsurePath, vmmEnsureTable]
    cases hu : E.isUnused (s.mem (x86.slot t i)) with
    | true => simp [hnew]
    | false =>
      rw [hu, if_neg (by simp)] at hmissing
      exact ih hmissing

end

/-- An address space with one page, at 0x5000. -/
def lowPageSpace : VmmState :=
  (emptySpace.1.mapPage plainPageEntry bumpFrames emptySpace.2 0x5000#64 0x9000#64 3#64).2

lemma lowPageSpace_tree : OwnTree plainPageEntry 0x200000 lowPageSpace.2 :=
  (vmm_mapPage_spec _ _ (show TreeIn _ _ _ emptySpace.1.pml4 _ from emptySpace_tree _)
    fun _ _ _ => rfl).2.1

end Masika
