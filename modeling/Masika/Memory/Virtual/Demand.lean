import Mathlib.Data.Finset.Union
import Masika.Memory.Virtual.Rounds

/-!
# How far a loop that maps pages gets

`map_page` takes a frame for every table above its page that does not exist yet, and `mmap` takes
one more for each page.  All of them come from `alloc_pages(1)`, and a call fails when there is none
left.  How far a call gets can therefore be said of the state before it.

**Frames.**  `Obtained` says which frames are in use after a number of calls of `alloc_pages(1)`.

**Tables.**  A table is known by its path, so the tables above a page are the initial segments of
the path of the page (`tablePaths`), and those that several pages need are counted once.  `Built`
says that the tables at certain paths have been added, for exactly as many frames as are missing.

**Loops.**  `framesNeeded` is what the first `k` rounds take together.  Round `i` succeeds if and
only if there are enough frames for it and the rounds before (`forPages_reached`).
-/

namespace Masika

open PageTableEntry VirtualMemoryManager

/-! ## Frames in a row -/

section Frames

variable {A : FrameAllocator} {live live₁ live₂ : List ℕ} {m n : ℕ}

lemma handedOut_of_none (h : A.new live = none) : handedOut A live n = [] := by
  cases n with
  | zero => rfl
  | succ n => rw [handedOut, h]

/-- A frame that is handed out is an answer of `alloc_pages(1)`. -/
lemma new_of_mem_handedOut {a : ℕ} : ∀ {live : List ℕ}, a ∈ handedOut A live n →
    ∃ live', A.new live' = some a := by
  induction n with
  | zero => exact fun h => absurd h List.not_mem_nil
  | succ n ih =>
    intro live h
    cases hnew : A.new live with
    | none =>
      rw [handedOut_of_none hnew] at h
      cases h
    | some b =>
      rw [handedOut_succ hnew, List.mem_cons] at h
      rcases h with rfl | h
      · exact ⟨live, hnew⟩
      · exact ih h

/-- The frames that come after the first `m`. -/
lemma handedOut_add (m n : ℕ) : ∀ live : List ℕ, handedOut A live (m + n)
    = handedOut A live m ++ handedOut A ((handedOut A live m).reverse ++ live) n := by
  induction m with
  | zero =>
    intro live
    rw [Nat.zero_add]
    rfl
  | succ m ih =>
    intro live
    cases hnew : A.new live with
    | none => simp [handedOut_of_none hnew]
    | some a => simp [Nat.add_right_comm, handedOut_succ hnew, ih]

/-- `live₁` are the frames in use after `n` calls of `alloc_pages(1)`, which have all succeeded. -/
structure Obtained (A : FrameAllocator) (n : ℕ) (live live₁ : List ℕ) : Prop where
  enough : Supplies A live n
  frames : live₁ = (handedOut A live n).reverse ++ live

lemma Obtained.refl (A : FrameAllocator) (live : List ℕ) : Obtained A 0 live live := ⟨rfl, rfl⟩

lemma Obtained.one {a : ℕ} (h : A.new live = some a) : Obtained A 1 live (a :: live) := by
  refine ⟨?_, ?_⟩
  · rw [Supplies, handedOut_succ h]
    rfl
  · rw [handedOut_succ h]
    rfl

/-- What is left afterwards. -/
lemma Obtained.supplies_iff (h : Obtained A m live live₁) :
    Supplies A live₁ n ↔ Supplies A live (m + n) := by
  have hm := h.enough
  rw [Supplies] at hm ⊢
  rw [Supplies, handedOut_add, List.length_append, hm, ← h.frames]
  omega

lemma Obtained.trans (h : Obtained A m live live₁) (h' : Obtained A n live₁ live₂) :
    Obtained A (m + n) live live₂ := by
  refine ⟨h.supplies_iff.mp h'.enough, ?_⟩
  rw [handedOut_add, ← h.frames, List.reverse_append, List.append_assoc, ← h.frames]
  exact h'.frames

/-- The frame that is handed out next. -/
lemma Obtained.handedOut_next {a : ℕ} (h : Obtained A n live live₁) (ha : A.new live₁ = some a) :
    handedOut A live (n + 1) = handedOut A live n ++ [a] := by
  rw [handedOut_add, ← h.frames, handedOut_succ ha]
  rfl

/-- When `alloc_pages(1)` fails then, there are no more. -/
lemma Obtained.not_supplies (h : Obtained A m live live₁) (hnone : A.new live₁ = none)
    (hlt : m < n) : ¬ Supplies A live n := by
  intro hn
  have hone : Supplies A live₁ 1 := h.supplies_iff.mpr (hn.mono hlt)
  obtain ⟨a, ha, -⟩ := hone.next
  rw [hnone] at ha
  cases ha

end Frames

/-! ## Tables by their paths -/

/-- The paths of the tables that are met on the way `π` below the table at `ρ`. -/
def pathsBelow : Path → Path → Finset Path
  | _, [] => ∅
  | ρ, i :: π => {ρ ++ [i]} ∪ pathsBelow (ρ ++ [i]) π

/-- The paths of the three tables between the top table and the bottom entry of `virt`. -/
def tablePaths (virt : U64) : Finset Path := pathsBelow [] (upperPath virt)

/-- How many of the tables at the paths `D` do not exist. -/
def tablesMissing (mem : ℕ → U64) (r : ℕ) (D : Finset Path) : ℕ :=
  (D.filter fun ρ => x86.tableAt mem r ρ = none).card

/-- The paths of the tables above the first `k` pages. -/
def pathsOf (page : ℕ → U64) (k : ℕ) : Finset Path :=
  (Finset.range k).biUnion fun i => tablePaths (page i)

/-- The frames that it takes to map the first `k` pages: `data` for each page, and one for each
table that does not exist. -/
def framesNeeded (data : ℕ) (mem : ℕ → U64) (r : ℕ) (page : ℕ → U64) (k : ℕ) : ℕ :=
  data * k + tablesMissing mem r (pathsOf page k)

section Paths

variable {mem : ℕ → U64} {r : ℕ} {D D' : Finset Path} {page : ℕ → U64}

lemma prefix_of_mem_pathsBelow {σ π : Path} : ∀ {ρ : Path}, σ ∈ pathsBelow ρ π → σ <+: ρ ++ π := by
  induction π with
  | nil => exact fun h => absurd h (Finset.notMem_empty σ)
  | cons i π ih =>
    intro ρ h
    rw [List.append_cons]
    rcases Finset.mem_union.mp h with h | h
    · rw [Finset.mem_singleton.mp h]
      exact List.prefix_append _ π
    · exact ih h

lemma length_of_mem_tablePaths {virt : U64} {ρ : Path} (h : ρ ∈ tablePaths virt) : ρ.length ≤ 3 :=
  (prefix_of_mem_pathsBelow h).length_le.trans_eq (upperPath_length virt)

lemma tablePaths_congr {v w : U64} (h : pageNumber v = pageNumber w) :
    tablePaths v = tablePaths w := by
  rw [tablePaths, tablePaths, ((pageNumber_eq_iff v w).mp h).1]

lemma tablesMissing_eq_zero : tablesMissing mem r D = 0 ↔ ∀ ρ ∈ D, x86.tableAt mem r ρ ≠ none := by
  rw [tablesMissing, Finset.card_eq_zero, Finset.filter_eq_empty_iff]

lemma tablesMissing_mono (h : D ⊆ D') : tablesMissing mem r D ≤ tablesMissing mem r D' :=
  Finset.card_le_card (Finset.filter_subset_filter _ h)

/-- A table that exists is not missing. -/
lemma tablesMissing_union_of_some {ρ : Path} (h : x86.tableAt mem r ρ ≠ none) :
    tablesMissing mem r ({ρ} ∪ D) = tablesMissing mem r D := by
  rw [tablesMissing, tablesMissing, Finset.filter_union, Finset.filter_singleton, if_neg h,
    Finset.empty_union]

lemma tablesMissing_le_length (mem : ℕ → U64) (r : ℕ) (ρ π : Path) :
    tablesMissing mem r (pathsBelow ρ π) ≤ π.length := by
  refine (Finset.card_filter_le _ _).trans ?_
  induction π generalizing ρ with
  | nil => exact le_rfl
  | cons i π ih =>
    refine (Finset.card_union_le _ _).trans ?_
    rw [Finset.card_singleton, List.length_cons, Nat.add_comm]
    exact Nat.succ_le_succ (ih (ρ ++ [i]))

/-- A page whose bottom table exists needs no table. -/
lemma tablesMissing_tablePaths {virt : U64} (h : x86.tableAt mem r (upperPath virt) ≠ none) :
    tablesMissing mem r (tablePaths virt) = 0 := by
  rw [tablesMissing_eq_zero]
  intro ρ hρ hnone
  obtain ⟨π, hπ⟩ : ρ <+: upperPath virt := prefix_of_mem_pathsBelow hρ
  rw [← hπ, RadixFormat.tableAt_append, hnone] at h
  exact h rfl

lemma pathsOf_succ (page : ℕ → U64) (k : ℕ) :
    pathsOf page (k + 1) = pathsOf page k ∪ tablePaths (page k) := by
  rw [pathsOf, Finset.range_add_one, Finset.biUnion_insert, Finset.union_comm]
  rfl

lemma framesNeeded_mono {data i k : ℕ} (h : i ≤ k) :
    framesNeeded data mem r page i ≤ framesNeeded data mem r page k :=
  Nat.add_le_add (Nat.mul_le_mul_left data h)
    (tablesMissing_mono (Finset.biUnion_subset_biUnion_of_subset_left _ (Finset.range_mono h)))

end Paths

/-! ## What has been built -/

/-- From `s` to `s'` the missing ones of the tables at the paths `D` were added, and `n` frames were
obtained for data. -/
structure Built (A : FrameAllocator) (r n : ℕ) (D : Finset Path) (s s' : TableMem) :
    Prop where
  tables : ∀ ρ : Path, ρ.length ≤ 3 →
    (x86.tableAt s'.mem r ρ = none ↔ x86.tableAt s.mem r ρ = none ∧ ρ ∉ D)
  frames : Obtained A (n + tablesMissing s.mem r D) s.live s'.live

/-- A result for which the tables at the paths `D` and `n` frames for data are needed: they are all
there, or `alloc_pages(1)` has failed before. -/
def MapServed (A : FrameAllocator) (r n : ℕ) (D : Finset Path) (s : TableMem) :
    VmmAnswer Unit → Prop
  | (.ok (), st') => Built A r n D s st'.2
  | (.error _, st') => ∃ k < n + tablesMissing s.mem r D,
      Obtained A k s.live st'.2.live ∧ A.new st'.2.live = none

section Building

variable {E : PageEntryApi} {A : FrameAllocator} {r m n : ℕ} {D D' : Finset Path}
  {s s₁ s₂ : TableMem}

lemma Built.refl (A : FrameAllocator) (h : tablesMissing s.mem r D = 0) : Built A r 0 D s s := by
  refine ⟨fun ρ _ => ⟨fun hnone => ⟨hnone, fun hρ => ?_⟩, And.left⟩, ?_⟩
  · exact tablesMissing_eq_zero.mp h ρ hρ hnone
  · rw [h]
    exact .refl A s.live

/-- Tables that were added are not missing any more. -/
lemma Built.tablesMissing_union (h : Built A r m D s s₁) (hD : ∀ ρ ∈ D', ρ.length ≤ 3) :
    tablesMissing s.mem r (D ∪ D') = tablesMissing s.mem r D + tablesMissing s₁.mem r D' := by
  have hrest : (D'.filter fun ρ => x86.tableAt s₁.mem r ρ = none)
      = D'.filter fun ρ => x86.tableAt s.mem r ρ = none ∧ ρ ∉ D :=
    Finset.filter_congr fun ρ hρ => h.tables ρ (hD ρ hρ)
  rw [tablesMissing, tablesMissing, tablesMissing, hrest, ← Finset.card_union_of_disjoint]
  · congr 1
    ext ρ
    simp only [Finset.mem_filter, Finset.mem_union]
    tauto
  · rw [Finset.disjoint_left]
    intro ρ hρ hρ'
    exact (Finset.mem_filter.mp hρ').2.2 (Finset.mem_filter.mp hρ).1

lemma Built.trans (h : Built A r m D s s₁) (h' : Built A r n D' s₁ s₂)
    (hD : ∀ ρ ∈ D', ρ.length ≤ 3) : Built A r (m + n) (D ∪ D') s s₂ := by
  refine ⟨fun ρ hρ => ?_, ?_⟩
  · rw [h'.tables ρ hρ, h.tables ρ hρ, Finset.mem_union, not_or, and_assoc]
  · rw [h.tablesMissing_union hD, Nat.add_add_add_comm]
    exact h.frames.trans h'.frames

/-- **When such a call succeeds.** -/
lemma MapServed.ok_iff {result : VmmAnswer Unit} (h : MapServed A r n D s result) :
    result.1 = .ok () ↔ Supplies A s.live (n + tablesMissing s.mem r D) := by
  obtain ⟨_ | _, st'⟩ := result
  · obtain ⟨k, hk, hframes, hnone⟩ := h
    exact iff_of_false (fun hok => by cases hok) (hframes.not_supplies hnone hk)
  · exact iff_of_true rfl h.frames.enough

/-- **One level of `map_page`.** -/
lemma vmmEnsureTable_built {vmm vmm' : VirtualMemoryManager} {Node : ℕ → U64 → Prop}
    {roots : Set ℕ} (hs : VmmForest E Node roots r s) (hc : Clean A s)
    {ρ : Path} {t : ℕ} {i : Fin 512} (hlen : ρ.length < 3) (ht : x86.tableAt s.mem r ρ = some t)
    (h : vmmEnsureTable E A vmm s (x86.slot t i) = some (vmm', s₁)) :
    Built A r 0 {ρ ++ [i]} s s₁ := by
  obtain ⟨hused, -, rfl⟩ | ⟨a, ha, he, -, rfl⟩ := vmmEnsureTable_cases (fun a ha => hc.next ha) h
  · refine .refl A (tablesMissing_eq_zero.mpr fun π hπ => ?_)
    rw [Finset.mem_singleton.mp hπ, hs.tableAt_of_used hlen ht hused]
    exact Option.some_ne_none _
  · have hal := A.aligned _ _ ha
    have hfresh := A.fresh _ _ ha
    have hlink := hwNext_vmmLink E hal (A.low _ _ ha) 0#64
    have hbefore : x86.tableAt s.mem r (ρ ++ [i]) = none := by
      rw [RadixFormat.tableAt_snoc, ht, Option.bind_some, he]
      rfl
    refine ⟨fun π hπ => ?_, ?_⟩
    · rw [Finset.mem_singleton]
      exact RadixFormat.tableAt_link_eq_none_iff hs.forest hs.root hlen ht (by rw [he]; rfl) hal
        hfresh hlink hπ
    · rw [tablesMissing, Finset.filter_singleton, if_pos hbefore, Finset.card_singleton]
      exact .one ha

/-- A level of `map_page` fails when a table is missing and there is no frame for it. -/
lemma vmmEnsureTable_eq_none {vmm : VirtualMemoryManager} {ρ : Path} {t : ℕ}
    {i : Fin 512} (ht : x86.tableAt s.mem r ρ = some t)
    (h : vmmEnsureTable E A vmm s (x86.slot t i) = none) :
    A.new s.live = none ∧ x86.tableAt s.mem r (ρ ++ [i]) = none := by
  rw [vmmEnsureTable] at h
  split_ifs at h with hu
  rw [E.isUnused_eq, beq_iff_eq] at hu
  refine ⟨Option.map_eq_none_iff.mp h, ?_⟩
  rw [RadixFormat.tableAt_snoc, ht, Option.bind_some, hu]
  rfl

/-- **The way down to a bottom entry.**  By induction on the rest of the path: `ρ` is the part that
has been walked. -/
lemma vmmEnsurePath_served {Node : ℕ → U64 → Prop} {roots : Set ℕ} {π : Path} :
    ∀ {vmm : VirtualMemoryManager} {s : TableMem} {ρ : Path} {t : ℕ},
    VmmForest E Node roots r s → Clean A s → ρ.length + π.length ≤ 3 →
    x86.tableAt s.mem r ρ = some t →
    match vmmEnsurePath E A vmm s t π with
    | (some _, _, s') => Built A r 0 (pathsBelow ρ π) s s'
    | (none, _, s') => ∃ k < tablesMissing s.mem r (pathsBelow ρ π),
        Obtained A k s.live s'.live ∧ A.new s'.live = none := by
  induction π with
  | nil => exact fun _ _ _ _ => .refl A rfl
  | cons i π ih =>
    intro vmm s ρ t hs hc hlen ht
    rw [List.length_cons] at hlen
    have hlt : ρ.length < 3 := by omega
    have hlen₁ : (ρ ++ [i]).length + π.length ≤ 3 := by
      rw [List.length_append, List.length_singleton]
      omega
    have hshort : ∀ σ ∈ pathsBelow (ρ ++ [i]) π, σ.length ≤ 3 := by
      intro σ hσ
      have hle := (prefix_of_mem_pathsBelow hσ).length_le
      rw [List.length_append] at hle
      exact hle.trans hlen₁
    rw [pathsBelow, vmmEnsurePath]
    cases h₁ : vmmEnsureTable E A vmm s (x86.slot t i) with
    | none =>
      -- the table is missing, and nothing has been obtained for it
      obtain ⟨hnew, hnone⟩ := vmmEnsureTable_eq_none ht h₁
      refine ⟨0, ?_, .refl A s.live, hnew⟩
      refine lt_of_lt_of_le ?_ (tablesMissing_mono Finset.subset_union_left)
      rw [tablesMissing, Finset.filter_singleton, if_pos hnone]
      exact Nat.one_pos
    | some p =>
      have hbuilt := vmmEnsureTable_built hs hc hlt ht h₁
      obtain ⟨-, hs₁, -, ht₁, -⟩ :=
        vmmEnsureTable_spec hs hlt ht (hc (missingTables E s.mem t (i :: π))) h₁
      have hrest := @ih p.1 p.2 _ _ hs₁ (vmmEnsureTable_clean hs hc hlt ht h₁) hlen₁ ht₁
      dsimp only
      generalize vmmEnsurePath E A p.1 p.2 (vmmTablePtr E p.2 (x86.slot t i)) π = res at hrest
      obtain ⟨_ | _, _, s'⟩ := res
      · obtain ⟨k, hk, hframes, hnew⟩ := hrest
        refine ⟨_, ?_, hbuilt.frames.trans hframes, hnew⟩
        rw [hbuilt.tablesMissing_union hshort]
        omega
      · exact hbuilt.trans hrest hshort

/-- **`map_page`.** -/
lemma mapPage_served {vmm : VirtualMemoryManager} (h : CleanSpace E A (vmm, s))
    (virt phys flags : U64) :
    MapServed A vmm.pml4 0 (tablePaths virt) s (vmm.mapPage E A s virt phys flags) := by
  have hlen : ([] : Path).length + (upperPath virt).length ≤ 3 := by simp
  have hpath := @vmmEnsurePath_served E A vmm.pml4 _ _ (upperPath virt) vmm s [] _ h.tree h.clean
    hlen rfl
  obtain ⟨answer, vmm₁, s₁, heq, -, hs₁, -, htable⟩ :=
    vmmEnsurePath_spec h.tree hlen rfl (h.clean _)
  rw [vmm_mapPage_eq]
  rw [heq] at hpath ⊢
  cases answer with
  | none =>
    obtain ⟨k, hk, hframes, hnew⟩ := hpath
    exact ⟨k, by rwa [Nat.zero_add], hframes, hnew⟩
  | some pt =>
    obtain ⟨-, hset⟩ := LeafSet.write hs₁ (htable pt rfl)
      (E.set phys flags (s₁.mem (x86.slot pt (ptIndex virt))))
    refine ⟨fun ρ hρ => ?_, hpath.frames⟩
    rw [hset.tables _ rfl ρ hρ]
    exact hpath.tables ρ hρ

lemma mapPage_ok_iff {vmm : VirtualMemoryManager} (h : CleanSpace E A (vmm, s))
    (virt phys flags : U64) :
    (vmm.mapPage E A s virt phys flags).1 = .ok () ↔
      Supplies A s.live (tablesMissing s.mem vmm.pml4 (tablePaths virt)) := by
  rw [(mapPage_served h virt phys flags).ok_iff, Nat.zero_add]

/-- **A frame that is mapped**: one for the page, and those for the tables. -/
lemma mapFresh_served {E : PageEntryOps} {vmm : VirtualMemoryManager}
    (h : CleanSpace E A (vmm, s)) (virt flags : U64) :
    MapServed A vmm.pml4 1 (tablePaths virt) s (mapFresh E A vmm s virt flags) := by
  rw [VirtualMemoryManager.mapFresh, withFrame]
  cases hnew : A.new s.live with
  | none => exact ⟨0, by omega, .refl A s.live, hnew⟩
  | some a =>
    have hmap := mapPage_served (h.take hnew) virt (BitVec.ofNat 64 a) flags
    dsimp only at hmap ⊢
    generalize vmm.mapPage E A ⟨s.mem, a :: s.live⟩ virt (BitVec.ofNat 64 a) flags
      = result at hmap
    obtain ⟨_ | _, vmm', s'⟩ := result
    · obtain ⟨k, hk, hframes, hnone⟩ := hmap
      rw [Nat.zero_add] at hk
      exact ⟨1 + k, Nat.add_lt_add_left hk 1, (Obtained.one hnew).trans hframes, hnone⟩
    · refine ⟨hmap.tables, ?_⟩
      have hframes := (Obtained.one hnew).trans hmap.frames
      rwa [Nat.zero_add] at hframes

end Building

/-! ## Loops -/

section Loops

variable {E : PageEntryApi} {A : FrameAllocator} {data : ℕ} {page : ℕ → U64} {st st₁ : VmmState}
  {body : ℕ → VmmState → VmmAnswer Unit}

/-- A round that maps `page`, with `data` frames for it. -/
structure MapsRound (E : PageEntryApi) (A : FrameAllocator) (data : ℕ) (page : U64) (st : VmmState)
    (result : VmmAnswer Unit) : Prop where
  space : CleanSpace E A result.2
  touches : TouchesPage page st result
  served : MapServed A st.1.pml4 data (tablePaths page) st.2 result

/-- The state after `k` rounds, which have all succeeded. -/
structure Reached (E : PageEntryApi) (A : FrameAllocator) (data : ℕ) (page : ℕ → U64)
    (st : VmmState) (k : ℕ) (st₁ : VmmState) : Prop where
  space : CleanSpace E A st₁
  kept : KeptOutside page st k st₁
  built : Built A st.1.pml4 (data * k) (pathsOf page k) st.2 st₁.2

lemma Reached.init (h : CleanSpace E A st) : Reached E A data page st 0 st :=
  ⟨h, ⟨rfl, fun _ _ => rfl⟩, .refl A rfl⟩

lemma Reached.enough {k : ℕ} (h : Reached E A data page st k st₁) :
    Supplies A st.2.live (framesNeeded data st.2.mem st.1.pml4 page k) :=
  h.built.frames.enough

/-- What the next round needs, and what has been needed before. -/
lemma Reached.framesNeeded_succ {k : ℕ} (h : Reached E A data page st k st₁) :
    framesNeeded data st.2.mem st.1.pml4 page (k + 1)
      = framesNeeded data st.2.mem st.1.pml4 page k
        + (data + tablesMissing st₁.2.mem st.1.pml4 (tablePaths (page k))) := by
  rw [framesNeeded, framesNeeded, pathsOf_succ,
    h.built.tablesMissing_union fun ρ hρ => length_of_mem_tablePaths hρ, Nat.mul_succ]
  omega

lemma Reached.step {k : ℕ} {st' : VmmState} (h : Reached E A data page st k st₁)
    (hround : MapsRound E A data (page k) st₁ (body k st₁)) (hok : body k st₁ = (.ok (), st')) :
    Reached E A data page st (k + 1) st' := by
  have hkept := h.kept.step hround.touches
  obtain ⟨hspace, -, hserved⟩ := hround
  rw [hok] at hspace hkept hserved
  rw [h.kept.root] at hserved
  refine ⟨hspace, hkept, ?_⟩
  rw [pathsOf_succ, Nat.mul_succ]
  exact h.built.trans hserved fun ρ hρ => length_of_mem_tablePaths hρ

/-- A round fails for want of frames. -/
lemma Reached.not_supplies {k : ℕ} {e : VmmError} {st' : VmmState}
    (h : Reached E A data page st k st₁) (hround : MapsRound E A data (page k) st₁ (body k st₁))
    (hfail : body k st₁ = (.error e, st')) :
    ¬ Supplies A st.2.live (framesNeeded data st.2.mem st.1.pml4 page (k + 1)) := by
  have hserved := hround.served
  rw [hfail, h.kept.root] at hserved
  obtain ⟨n, hn, hframes, hnone⟩ := hserved
  refine (h.built.frames.trans hframes).not_supplies hnone ?_
  rw [h.framesNeeded_succ, framesNeeded]
  omega

/-- A round that fails changes no bottom entry. -/
lemma Reached.of_error {k : ℕ} {e : VmmError} {st' : VmmState} (h : Reached E A data page st k st₁)
    (hround : MapsRound E A data (page k) st₁ (.error e, st')) :
    CleanSpace E A st' ∧ st'.1.pml4 = st.1.pml4 ∧
      ∀ v, st'.2.leafOf st.1.pml4 v = st₁.2.leafOf st.1.pml4 v := by
  obtain ⟨hspace, ⟨hroot, hleaf⟩, -⟩ := hround
  rw [h.kept.root] at hroot hleaf
  exact ⟨hspace, hroot, fun v => hleaf v fun hok => by cases hok⟩

/-- **How far a loop gets.**  `k` rounds succeed, and these are the rounds for which there are
frames.  `I i` holds before round `i`. -/
theorem forPages_reached {I : ℕ → VmmState → Prop}
    (hround : ∀ i st, CleanSpace E A st → MapsRound E A data (page i) st (body i st))
    (hI : ∀ i st₁ st', Reached E A data page st i st₁ → I i st₁ → body i st₁ = (.ok (), st') →
      I (i + 1) st')
    (hst : CleanSpace E A st) (h₀ : I 0 st) (n : ℕ) :
    ∃ k st₁, Reached E A data page st k st₁ ∧ I k st₁ ∧
      (∀ i < n, Supplies A st.2.live (framesNeeded data st.2.mem st.1.pml4 page (i + 1)) ↔ i < k) ∧
      ((k = n ∧ forPages body n 0 st = (.ok (), st₁)) ∨
        k < n ∧ ∃ e st', body k st₁ = (.error e, st') ∧
          forPages body n 0 st = (.error e, st')) := by
  obtain ⟨k, st₁, ⟨hreached, hinv⟩, hend⟩ :=
    forPages_cases (I := fun i st₁ => Reached E A data page st i st₁ ∧ I i st₁)
      (fun i st₁ st' h hok => ⟨h.1.step (hround i st₁ h.1.space) hok, hI i st₁ st' h.1 h.2 hok⟩) n 0
      ⟨.init hst, h₀⟩
  rw [Nat.zero_add] at hreached hinv hend
  refine ⟨k, st₁, hreached, hinv, fun i hi => ⟨fun hframes => ?_, fun hik => ?_⟩, hend⟩
  · rcases hend with ⟨rfl, -⟩ | ⟨-, e, st', hfail, -⟩
    · exact hi
    · by_contra hki
      refine hreached.not_supplies (hround k st₁ hreached.space) hfail (hframes.mono ?_)
      exact framesNeeded_mono (Nat.succ_le_succ (not_lt.mp hki))
  · exact hreached.enough.mono (framesNeeded_mono hik)

/-- **When a loop succeeds.** -/
theorem forPages_ok_iff
    (hround : ∀ i st, CleanSpace E A st → MapsRound E A data (page i) st (body i st))
    (hst : CleanSpace E A st) (n : ℕ) :
    (forPages body n 0 st).1 = .ok () ↔
      Supplies A st.2.live (framesNeeded data st.2.mem st.1.pml4 page n) := by
  obtain ⟨k, st₁, hreached, -, -, ⟨rfl, heq⟩ | ⟨hlt, e, st', hfail, heq⟩⟩ :=
    forPages_reached (I := fun _ _ => True) hround (fun _ _ _ _ _ _ => trivial) hst trivial n
  · rw [heq]
    exact iff_of_true rfl hreached.enough
  · rw [heq]
    refine iff_of_false (fun hok => by cases hok) fun hframes => ?_
    exact hreached.not_supplies (hround k st₁ hreached.space) hfail
      (hframes.mono (framesNeeded_mono hlt))

end Loops

/-! ## The two kinds of rounds -/

section Rounds

variable {A : FrameAllocator}

/-- A page is mapped to an address that the caller names. -/
lemma mapPage_mapsRound {E : PageEntryApi} {st : VmmState} (h : CleanSpace E A st)
    (virt phys flags : U64) : MapsRound E A 0 virt st (st.1.mapPage E A st.2 virt phys flags) :=
  ⟨(h.mapPage virt phys flags).1, (h.mapPage_sets virt phys flags).toTouchesPage,
    mapPage_served h virt phys flags⟩

/-- A page is mapped to a frame from `alloc_pages(1)`. -/
lemma mapFresh_mapsRound {E : PageEntryOps} {st : VmmState} (h : CleanSpace E A st)
    (virt flags : U64) : MapsRound E A 1 virt st (mapFresh E A st.1 st.2 virt flags) :=
  ⟨(h.mapFresh virt flags).1, (h.mapFresh virt flags).2.toTouchesPage,
    mapFresh_served h virt flags⟩

end Rounds

end Masika
