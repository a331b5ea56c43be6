import Masika.Memory.Virtual.Operations

/-!
# Loops over the pages of a range

`mmap`, `munmap`, `map_range` and the others go over the pages of a range and stop at the first page
for which they fail.  What has been done by then is not undone, so that the state in which such a
call ends is that after the rounds that have succeeded, changed by the failing round.

* `forPages_cases` is the rule for such loops: an invariant of the rounds that succeed holds after
  all of them, and then either the loop is over or one more round fails.
* A round sets the bottom entry of its page or fails (`SetsPage`), and what lies outside of the
  pages of the rounds stays as it is (`KeptOutside`).
* `CleanSpace` is what the mapping rounds need and keep: the tree is in order, and the frames that
  become tables hold zeros.  `MapEffect` says what one of them does to the bottom entries and to
  the frames in use, whether it succeeds or not.
-/

namespace Masika

open PageTableEntry

namespace VirtualMemoryManager

/-- All addresses of a page are translated alike, whatever is in memory. -/
lemma translate_congr_page {E : PageEntryApi} {vmm : VirtualMemoryManager} {s : TableMem}
    {v w : U64} (h : pageNumber v = pageNumber w) : vmm.translate E s v = vmm.translate E s w := by
  obtain ⟨hpath, hidx⟩ := (pageNumber_eq_iff v w).mp h
  rw [translate, translate, walkPte_eq_tableAt, walkPte_eq_tableAt, hpath, hidx]

/-! ## The rule -/

section Loops

variable {body : ℕ → VmmState → VmmAnswer Unit}

/-- **Loops that stop at the first failure.**  `I i` holds before round `i`, and `k` rounds
succeed. -/
theorem forPages_cases {I : ℕ → VmmState → Prop}
    (hok : ∀ i st st', I i st → body i st = (.ok (), st') → I (i + 1) st') (left : ℕ) :
    ∀ (i : ℕ) {st : VmmState}, I i st →
      ∃ k st₁, I (i + k) st₁ ∧ ((k = left ∧ forPages body left i st = (.ok (), st₁)) ∨
        k < left ∧ ∃ e st', body (i + k) st₁ = (.error e, st') ∧
          forPages body left i st = (.error e, st')) := by
  induction left with
  | zero => exact fun i st h => ⟨0, st, h, .inl ⟨rfl, rfl⟩⟩
  | succ left ih =>
    intro i st h
    cases hbody : body i st with
    | mk answer st' =>
      rw [forPages, hbody]
      cases answer with
      | error e => exact ⟨0, st, h, .inr ⟨Nat.succ_pos left, e, st', hbody, rfl⟩⟩
      | ok _ =>
        obtain ⟨k, st₁, h₁, hend⟩ := ih (i + 1) (hok i st st' h hbody)
        refine ⟨k + 1, st₁, ?_⟩
        rw [Nat.add_right_cancel_iff, Nat.add_lt_add_iff_right, ← Nat.add_assoc,
          Nat.add_right_comm]
        exact ⟨h₁, hend⟩

/-- What every round keeps, the loop keeps. -/
lemma forPages_invariant {P : VmmState → Prop} (hround : ∀ i st, P st → P (body i st).2)
    (left : ℕ) : ∀ (i : ℕ) {st : VmmState}, P st → P (forPages body left i st).2 := by
  induction left with
  | zero => exact fun i st h => h
  | succ left ih =>
    intro i st h
    have hnext := hround i st h
    rw [forPages]
    generalize body i st = result at hnext
    obtain ⟨_ | _, st'⟩ := result
    · exact hnext
    · exact ih (i + 1) hnext

/-- Every round that is begun meets `ok` in the state it starts from. -/
def EveryRound (body : ℕ → VmmState → VmmAnswer Unit) (ok : ℕ → VmmState → Prop) :
    ℕ → ℕ → VmmState → Prop
  | 0, _, _ => True
  | left + 1, i, st =>
    ok i st ∧ ∀ st', body i st = (.ok (), st') → EveryRound body ok left (i + 1) st'

/-- A round that changes the bottom entry of `page` at most, and only if it succeeds. -/
structure TouchesPage (page : U64) (st : VmmState) (result : VmmAnswer Unit) :
    Prop where
  root : result.2.1.pml4 = st.1.pml4
  leaf : ∀ v, (result.1 = .ok () → pageNumber v ≠ pageNumber page) →
    result.2.2.leafOf st.1.pml4 v = st.2.leafOf st.1.pml4 v

/-- From `st` to `st'` only the bottom entries of the first `k` pages have changed. -/
structure KeptOutside (page : ℕ → U64) (st : VmmState) (k : ℕ) (st' : VmmState) : Prop where
  root : st'.1.pml4 = st.1.pml4
  leaf : ∀ v, (∀ i < k, pageNumber v ≠ pageNumber (page i)) →
    st'.2.leafOf st.1.pml4 v = st.2.leafOf st.1.pml4 v

lemma KeptOutside.step {page : ℕ → U64} {k : ℕ} {st st₁ : VmmState}
    {result : VmmAnswer Unit} (h : KeptOutside page st k st₁)
    (htouch : TouchesPage (page k) st₁ result) : KeptOutside page st (k + 1) result.2 := by
  refine ⟨htouch.root.trans h.root, fun v hv => ?_⟩
  rw [← h.leaf v fun i hi => hv i (Nat.lt_succ_of_lt hi), ← h.root]
  exact htouch.leaf v fun _ => hv k (Nat.lt_succ_self k)

/-- Such a round that changes the entry with `set` if it succeeds. -/
structure SetsPage (page : U64) (set : U64 → U64) (st : VmmState)
    (result : VmmAnswer Unit) : Prop extends TouchesPage page st result where
  own : result.1 = .ok () → ∀ v, pageNumber v = pageNumber page →
    result.2.2.leafOf st.1.pml4 v = set (st.2.leafOf st.1.pml4 v)

end Loops

/-! ## Rounds that map a page -/

/-- The tree of the manager is in order. -/
abbrev InOrder (E : PageEntryApi) (st : VmmState) : Prop :=
  OwnTree E st.1.pml4 st.2

lemma InOrder.of_root {E : PageEntryApi} {vmm vmm' : VirtualMemoryManager} {s : TableMem}
    (hroot : vmm'.pml4 = vmm.pml4) (h : InOrder E (vmm, s)) : InOrder E (vmm', s) := by
  rw [InOrder] at h ⊢
  rwa [hroot]

/-- The tree is in order, and the frames that `A` hands out hold zeros. -/
structure CleanSpace (E : PageEntryApi) (A : FrameAllocator) (st : VmmState) : Prop where
  tree : InOrder E st
  clean : Clean A st.2

/-- The bottom entry of `virt` becomes `e` in case of success; frames are obtained for tables
only. -/
structure MapEffect (r : ℕ) (virt e : U64) (ok : Prop) (s s' : TableMem) : Prop where
  leaf : ∀ v, (ok ∧ pageNumber v = pageNumber virt → s'.leafOf r v = e) ∧
    (¬ (ok ∧ pageNumber v = pageNumber virt) → s'.leafOf r v = s.leafOf r v)
  live : s.live ⊆ s'.live
  obtained : ∀ t ∈ s'.live, t ∈ s.live ∨ IsTable {r} s' t
  tables : ∀ t, IsTable {r} s t → IsTable {r} s' t
  data : ∀ d ∈ s.live, ¬ IsTable {r} s d → ¬ IsTable {r} s' d

section Mapping

variable {E : PageEntryApi} {A : FrameAllocator} {vmm : VirtualMemoryManager} {s : TableMem}

lemma vmmEnsureTable_clean {r t : ℕ} {vmm' : VirtualMemoryManager} {s' : TableMem}
    {Node : ℕ → U64 → Prop} {roots : Set ℕ} (hs : VmmForest E Node roots r s)
    (hc : Clean A s) {π : Path} {i : Fin 512} (hlen : π.length < 3)
    (ht : x86.tableAt s.mem r π = some t)
    (h : vmmEnsureTable E A vmm s (x86.slot t i) = some (vmm', s')) : Clean A s' := by
  rw [vmmEnsureTable] at h
  split_ifs at h with hu
  · obtain ⟨a, ha, h⟩ := Option.map_eq_some_iff.mp h
    rw [← (Prod.mk.inj h).2]
    have hlive := hs.forest.table_live r hs.root π t hlen.le ht
    have hal := (hs.addLive [a] (by simpa using A.aligned _ _ ha)).forest.aligned
    exact (hc.take ha).write hal (List.mem_cons_of_mem a hlive) i _
  · rw [← (Prod.mk.inj (Option.some.inj h)).2]
    exact hc

/-- **The way down to a bottom entry.**  What each level keeps, all levels keep; `ρ` is the part of
the path that has been walked. -/
lemma vmmEnsurePath_keeps {P : VmmState → Prop} {r : ℕ} {Node : ℕ → U64 → Prop} {roots : Set ℕ}
    (hlevel : ∀ {vmm s ρ t i vmm' s'}, vmm.pml4 = r → VmmForest E Node roots r s →
      Clean A s → ρ.length < 3 → x86.tableAt s.mem r ρ = some t →
      vmmEnsureTable E A vmm s (x86.slot t i) = some (vmm', s') → P (vmm, s) → P (vmm', s'))
    {π : Path} : ∀ {vmm : VirtualMemoryManager} {s : TableMem} {ρ : Path}
    {t : ℕ}, vmm.pml4 = r → VmmForest E Node roots r s → Clean A s →
    ρ.length + π.length ≤ 3 → x86.tableAt s.mem r ρ = some t → P (vmm, s) →
    P (vmmEnsurePath E A vmm s t π).2 := by
  induction π with
  | nil => exact fun _ _ _ _ _ h => h
  | cons i π ih =>
    intro vmm s ρ t hr hs hc hlen ht h
    rw [List.length_cons] at hlen
    have hlt : ρ.length < 3 := by omega
    rw [vmmEnsurePath]
    cases h₁ : vmmEnsureTable E A vmm s (x86.slot t i) with
    | none => exact h
    | some p =>
      obtain ⟨hroot, hs₁, -, ht₁, -⟩ :=
        vmmEnsureTable_spec hs hlt ht (hc (missingTables E s.mem t (i :: π))) h₁
      refine ih (hroot.trans hr) hs₁ (vmmEnsureTable_clean hs hc hlt ht h₁) ?_ ht₁
        (hlevel hr hs hc hlt ht h₁ h)
      simp only [List.length_append, List.length_singleton]
      omega

/-- **`map_page` on a clean space.** -/
lemma CleanSpace.mapPage (h : CleanSpace E A (vmm, s)) (virt phys flags : U64) :
    CleanSpace E A (vmm.mapPage E A s virt phys flags).2 ∧
      (vmm.mapPage E A s virt phys flags).2.1.pml4 = vmm.pml4 ∧
      MapEffect vmm.pml4 virt (E.set phys flags (s.leafOf vmm.pml4 virt))
        ((vmm.mapPage E A s virt phys flags).1 = .ok ()) s
        (vmm.mapPage E A s virt phys flags).2.2 := by
  have hlen : ([] : Path).length + (upperPath virt).length ≤ 3 := by simp
  obtain ⟨answer, vmm₁, s₁, heq, hroot, hs₁, hgrows, htable⟩ :=
    vmmEnsurePath_spec h.tree hlen rfl (h.clean _)
  have hc₁ : Clean A (vmmEnsurePath E A vmm s vmm.pml4 (upperPath virt)).2.2 :=
    vmmEnsurePath_keeps (P := fun st => Clean A st.2)
      (fun _ hs hc hlt ht hlevel _ => vmmEnsureTable_clean hs hc hlt ht hlevel) rfl h.tree h.clean
      hlen rfl h.clean
  have hsame : ∀ v, s₁.leafOf vmm.pml4 v = s.leafOf vmm.pml4 v := fun v =>
    hgrows.leaves _ rfl _ _ (upperPath_length v)
  have htables : ∀ t, IsTable {vmm.pml4} s t → IsTable {vmm.pml4} s₁ t := by
    rintro t ⟨r, hr, π, hπ, ht⟩
    exact ⟨r, hr, π, hπ, hgrows.kept r hr π hπ t ht⟩
  rw [vmm_mapPage_eq]
  rw [heq] at hc₁ ⊢
  cases answer with
  | none =>
    refine ⟨⟨.of_root hroot hs₁, hc₁⟩, hroot, fun v => ⟨fun hv => ?_, fun _ => hsame v⟩,
      hgrows.live, hgrows.obtained, htables, fun d hd hdata => (hgrows.data d hd hdata).1⟩
    cases hv.1
  | some pt =>
    have hpt := htable pt rfl
    obtain ⟨hs', hset⟩ := LeafSet.write hs₁ hpt
      (E.set phys flags (s₁.mem (x86.slot pt (ptIndex virt))))
    have hlive := hs₁.forest.table_live _ hs₁.root _ pt le_rfl hpt
    have hword : s₁.mem (x86.slot pt (ptIndex virt)) = s.leafOf vmm.pml4 virt := by
      rw [← leafOf_of_tableAt hpt, hsame]
    refine ⟨⟨.of_root hroot hs', hc₁.write hs₁.forest.aligned hlive _ _⟩, hroot,
      fun v => ⟨fun hv => ?_, fun hv => ?_⟩, hgrows.live, fun t ht => ?_,
      fun t ht => (hset.isTable t).mpr (htables t ht), fun d hd hdata => ?_⟩
    · rw [hset.leaf _ rfl v, if_pos ⟨rfl, hv.2⟩, hword]
    · rw [hset.leaf _ rfl v, if_neg fun hc => hv ⟨rfl, hc.2⟩, hsame]
    · exact (hgrows.obtained t ht).imp id (hset.isTable t).mpr
    · rw [hset.isTable d]
      exact (hgrows.data d hd hdata).1

lemma CleanSpace.mapPage_sets (h : CleanSpace E A (vmm, s)) (virt phys flags : U64) :
    SetsPage virt (E.set phys flags) (vmm, s) (vmm.mapPage E A s virt phys flags) := by
  obtain ⟨-, hroot, heffect⟩ := h.mapPage virt phys flags
  refine ⟨⟨hroot, fun v hv => (heffect.leaf v).2 fun hc => hv hc.1 hc.2⟩, fun hok v hpage => ?_⟩
  rw [TableMem.leafOf_congr hpage s]
  exact (heffect.leaf v).1 ⟨hok, hpage⟩

lemma CleanSpace.take {a : ℕ} (h : CleanSpace E A (vmm, s)) (ha : A.new s.live = some a) :
    CleanSpace E A (vmm, ⟨s.mem, a :: s.live⟩) :=
  ⟨h.tree.addLive [a] (by simpa using A.aligned _ _ ha), h.clean.take ha⟩

end Mapping

/-- What mapping the next frame makes of an entry; without a frame nothing is mapped. -/
def freshEntry (E : PageEntryApi) (A : FrameAllocator) (s : TableMem) (flags e : U64) : U64 :=
  match A.new s.live with
  | none => e
  | some frame => E.set (BitVec.ofNat 64 frame) flags e

/-- A frame is obtained and mapped. -/
lemma CleanSpace.mapFresh {E : PageEntryOps} {A : FrameAllocator} {vmm : VirtualMemoryManager}
    {s : TableMem} (h : CleanSpace E A (vmm, s)) (virt flags : U64) :
    CleanSpace E A (mapFresh E A vmm s virt flags).2 ∧
      SetsPage virt (freshEntry E A s flags) (vmm, s)
        (mapFresh E A vmm s virt flags) := by
  rw [VirtualMemoryManager.mapFresh, withFrame]
  cases hnew : A.new s.live with
  | none => exact ⟨h, ⟨rfl, fun _ _ => rfl⟩, fun hok => by cases hok⟩
  | some a =>
    have htaken := h.take hnew
    obtain ⟨⟨hroot, hleaf⟩, hown⟩ := htaken.mapPage_sets virt (BitVec.ofNat 64 a) flags
    refine ⟨(htaken.mapPage virt (BitVec.ofNat 64 a) flags).1, ⟨hroot, hleaf⟩,
      fun hok v hpage => ?_⟩
    rw [freshEntry, hnew]
    exact hown hok v hpage

end VirtualMemoryManager

end Masika
