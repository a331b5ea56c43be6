import Masika.Arch.Paging.Refinement
import Masika.Memory.Virtual.Manager

/-!
# Requested and effective rights

A page can be reached from user mode only if all four entries of its walk have the user bit, and
written only if all four have the writable bit.  Both the kernel's `map_page` and
`VirtualMemoryManager::map_page` link their tables present and writable but *without* the user bit,
whatever the caller asks for the page itself.  So, over any history of mappings in any number of
address spaces:

* the effective writable right is the one the page was last mapped with;
* no page whatsoever is accessible from user mode (`SpacesInv.effectiveRights_eq`).

Requested and effective rights are therefore the same exactly for the pages that were not mapped for
the user (`rightsAsRequested_iff`); `alloc_and_map_user_page`, whose purpose is to map a page for
the user, never achieves it (`user_page_is_out_of_reach`).
-/

namespace Masika

open PageTableEntry

/-! ## The kernel and the address spaces of processes -/

/-- The tables in memory, the managers that exist, and a record of the flags with which each page
below each top table was last mapped. -/
structure Spaces where
  tables : TableMem
  managers : List VirtualMemoryManager
  requested : ℕ → BitVec 36 → Option U64

/-- Note that the page of `virt` below `root` has been mapped with `flags`. -/
def recordFlags (requested : ℕ → BitVec 36 → Option U64) (root : ℕ) (virt flags : U64) :
    ℕ → BitVec 36 → Option U64 :=
  Function.update requested root
    (Function.update (requested root) (pageNumber virt) (some flags))

/-- The calls that map pages or make spaces. -/
inductive SpacesOp where
  | mapPage (virt phys flags : U64)
  /-- with the answer of `allocate_frame`, which is not part of the repository -/
  | allocAndMapUserPage (virt flags : U64) (frame : Option U64)
  | newManager
  | vmmMapPage (k : ℕ) (virt phys flags : U64)

section Step

variable (E : PageEntryApi) (A : FrameAllocator) (B : BoxAllocator) (pml4 : ℕ)

/-- The kernel's `map_page`, with the record. -/
def Spaces.mapPage (s : Spaces) (virt phys flags : U64) : Option Spaces :=
  (Masika.mapPage B pml4 s.tables virt phys flags).map fun t =>
    { s with tables := t, requested := recordFlags s.requested pml4 virt flags }

/-- A user page in the kernel's tree. -/
def Spaces.allocAndMapUserPage (s : Spaces) (virt flags : U64) (frame : Option U64) :
    Option Spaces :=
  match frame with
  | none => some s
  | some phys =>
    let userFlags := flags ||| 4#64
    s.mapPage B pml4 virt phys userFlags

/-- One more address space. -/
def Spaces.newManager (s : Spaces) : Option Spaces :=
  (VirtualMemoryManager.new A s.tables).map fun (vmm, t) =>
    { tables := t, managers := s.managers ++ [vmm],
      requested := Function.update s.requested vmm.pml4 fun _ => none }

/-- `map_page` of one of the managers; a call that fails maps nothing. -/
def Spaces.vmmMapPage (s : Spaces) (k : ℕ) (virt phys flags : U64) : Option Spaces :=
  s.managers[k]?.map fun vmm =>
    let (res, vmm', t) := vmm.mapPage E A s.tables virt phys flags
    { tables := t, managers := s.managers.set k vmm',
      requested := match res with
        | .ok () => recordFlags s.requested vmm.pml4 virt flags
        | .error _ => s.requested }

/-- One call. -/
def spacesStep (s : Spaces) : SpacesOp → Option Spaces
  | .mapPage virt phys flags => s.mapPage B pml4 virt phys flags
  | .allocAndMapUserPage virt flags frame => s.allocAndMapUserPage B pml4 virt flags frame
  | .newManager => s.newManager A
  | .vmmMapPage k virt phys flags => s.vmmMapPage E A k virt phys flags

/-- The frames that a manager is about to use as tables hold zeros. -/
def FreshTablesZero (s : Spaces) : SpacesOp → Prop
  | .vmmMapPage k virt _ _ => ∀ vmm, s.managers[k]? = some vmm →
      ZeroFor A s.tables (missingTables E s.tables.mem vmm.pml4 (upperPath virt))
  | _ => True

end Step

/-- Only the kernel's top table, nothing mapped. -/
def bootSpaces (mem : ℕ → U64) (pml4 : ℕ) : Spaces := ⟨bootTables mem pml4, [], fun _ _ => none⟩

/-- The top tables: the kernel's and one for every manager. -/
def Spaces.roots (pml4 : ℕ) (s : Spaces) : Set ℕ :=
  {r | r = pml4 ∨ r ∈ s.managers.map VirtualMemoryManager.pml4}

/-- Effective rights as requested: if the page of `virt` is mapped, it was last mapped with flags
whose user bit and writable bit are its effective rights. -/
def Spaces.RightsAsRequested (s : Spaces) (root : ℕ) (virt : U64) : Prop :=
  ∀ rights, effectiveRights s.tables.mem root virt = some rights →
    ∃ f, s.requested root (pageNumber virt) = some f ∧ rights = (userAccessible f, writable f)

/-! ## Walks through links without the user bit -/

/-- An entry of this kind takes the user right away, and nothing else. -/
def KernelOnly (e : PageTableEntry) : Prop :=
  present e = true → userAccessible e = false ∧ writable e = true

lemma KernelOnly.of_low {e : PageTableEntry} (h : ∀ j < 3, e.getLsbD j = decide (j < 2)) :
    KernelOnly e := by
  intro _
  rw [userAccessible_eq, writable_eq, h 2 (by decide), h 1 (by decide)]
  exact ⟨rfl, rfl⟩

lemma KernelOnly.empty : KernelOnly PageTableEntry.empty := fun h => absurd h (by decide)

lemma IsTableEntry.kernelOnly {e : PageTableEntry} (h : IsTableEntry e) : KernelOnly e := by
  rcases h with rfl | ⟨a, hal, hlow, rfl⟩
  · exact KernelOnly.empty
  · refine KernelOnly.of_low fun j hj => ?_
    by_cases h2 : j < 2
    · rw [getLsbD_linkEntry_of_lt_two a h2, decide_eq_true h2]
    · rw [getLsbD_linkEntry_of_two_le a (by omega), decide_eq_false h2,
        getLsbD_ofNat_aligned hal hlow (by omega)]

lemma IsVmmEntry.kernelOnly {E : PageEntryApi} {e : PageTableEntry} (h : IsVmmEntry E e) :
    KernelOnly e := by
  rcases h with rfl | ⟨a, -, -, rfl⟩
  · exact KernelOnly.empty
  · exact KernelOnly.of_low fun j hj => getLsbD_vmmLink E a _ (by omega)

/-- What the entries met on a walk grant together. -/
def grantedBy (es : List PageTableEntry) : Option (Bool × Bool) :=
  if es.all present then some (es.all userAccessible, es.all writable) else none

lemma grantedBy_cons {e : PageTableEntry} (hp : present e = true) (he : KernelOnly e)
    (es : List PageTableEntry) :
    grantedBy (e :: es) = (grantedBy es).map fun rights => (false, rights.2) := by
  obtain ⟨hu, hw⟩ := he hp
  simp only [grantedBy, List.all_cons, hp, hu, hw, Bool.true_and, Bool.false_and]
  split_ifs <;> rfl

/-- **A walk through such links grants what the last entry grants, except to the user.** -/
lemma grantedBy_entriesAlong {mem : ℕ → U64} {i : Fin 512} {π : Path} :
    ∀ {t : ℕ}, (∀ ρ u j, ρ ++ [j] <+: π → x86.tableAt mem t ρ = some u →
        KernelOnly (mem (x86.slot u j))) →
      (entriesAlong mem t π i).bind grantedBy
        = if present (x86.leafWord mem t π i) then
            some (π.isEmpty && userAccessible (x86.leafWord mem t π i),
              writable (x86.leafWord mem t π i))
          else none := by
  induction π with
  | nil =>
    intro t _
    have hleaf : x86.leafWord mem t [] i = mem (x86.slot t i) := rfl
    simp [entriesAlong, hleaf, grantedBy]
  | cons j π ih =>
    intro t hnode
    rw [entriesAlong]
    cases hnext : hwNext (mem (x86.slot t j)) with
    | none =>
      have hno : x86.tableAt mem t (j :: π) = none := by
        rw [RadixFormat.tableAt]
        exact congrArg (Option.bind · _) hnext
      rw [RadixFormat.leafWord_of_none x86 hno]
      rfl
    | some t' =>
      have htab : ∀ ρ, x86.tableAt mem t (j :: ρ) = x86.tableAt mem t' ρ := fun ρ => by
        rw [RadixFormat.tableAt]
        exact congrArg (Option.bind · _) hnext
      have hp : present (mem (x86.slot t j)) = true := by
        rw [hwNext] at hnext
        split_ifs at hnext with hp
        exact hp
      have hhead : KernelOnly (mem (x86.slot t j)) := hnode [] t j ⟨π, rfl⟩ rfl
      have htail := ih (t := t') fun ρ u k hρ hu =>
        hnode (j :: ρ) u k (List.cons_prefix_cons.mpr ⟨rfl, hρ⟩) (by rw [htab, hu])
      have hleaf : x86.leafWord mem t (j :: π) i = x86.leafWord mem t' π i := by
        rw [RadixFormat.leafWord, htab, RadixFormat.leafWord]
      have hbind : ∀ o : Option (List PageTableEntry),
          ((o.map (mem (x86.slot t j) :: ·)).bind grantedBy)
            = (o.bind grantedBy).map fun rights => (false, rights.2) := by
        rintro (_ | es)
        · rfl
        · exact grantedBy_cons hp hhead es
      rw [Option.bind_some, hbind, htail, hleaf]
      split_ifs <;> rfl

/-! ## The invariant -/

section Invariant

variable {E : PageEntryApi} {A : FrameAllocator} {B : BoxAllocator} {pml4 : ℕ}

/-- What the tree below each top table holds above its page tables. -/
def nodeKind (E : PageEntryApi) (pml4 r : ℕ) : U64 → Prop :=
  if r = pml4 then IsTableEntry else IsVmmEntry E

lemma nodeKind_kernelOnly {r : ℕ} {e : PageTableEntry} (h : nodeKind E pml4 r e) :
    KernelOnly e := by
  rw [nodeKind] at h
  split_ifs at h
  · exact h.kernelOnly
  · exact h.kernelOnly

/-- All trees are separate, no manager works on the kernel's tree, and the flags in every bottom
entry are the ones recorded. -/
structure SpacesInv (E : PageEntryApi) (pml4 : ℕ) (s : Spaces) : Prop where
  forest : x86.Forest (nodeKind E pml4) 3 (s.roots pml4) s.tables.live s.tables.mem
  apart : ∀ vmm ∈ s.managers, vmm.pml4 ≠ pml4
  recorded : ∀ r ∈ s.roots pml4, ∀ v,
    lowBits (s.tables.leafOf r v) = lowBits ((s.requested r (pageNumber v)).getD 0#64)

lemma bootSpaces_inv (mem : ℕ → U64) (hal : pml4 % 4096 = 0) :
    SpacesInv E pml4 (bootSpaces mem pml4) := by
  have hroots : (bootSpaces mem pml4).roots pml4 = {pml4} := by
    ext r
    simp [Spaces.roots, bootSpaces]
  refine ⟨?_, by simp [bootSpaces], ?_⟩
  · rw [hroots]
    have hforest := (bootTables_forest mem hal).forest
    refine ⟨hforest.aligned, hforest.table_live, hforest.unshared, ?_⟩
    intro r hr π t i hlen ht
    rw [nodeKind, if_pos (Set.mem_singleton_iff.mp hr)]
    exact hforest.node r hr π t i hlen ht
  · rw [hroots]
    rintro r rfl v
    exact congrArg lowBits (bootTables_leafOf mem r v)

lemma SpacesInv.kernelTree {s : Spaces} (hs : SpacesInv E pml4 s) :
    KernelForest (nodeKind E pml4) (s.roots pml4) pml4 s.tables :=
  ⟨hs.forest, Or.inl rfl, by simp [nodeKind]⟩

lemma SpacesInv.managerTree {s : Spaces} (hs : SpacesInv E pml4 s) {vmm : VirtualMemoryManager}
    (h : vmm ∈ s.managers) : VmmForest E (nodeKind E pml4) (s.roots pml4) vmm.pml4 s.tables :=
  ⟨hs.forest, Or.inr (List.mem_map_of_mem h), by simp [nodeKind, hs.apart vmm h]⟩

/-- Mapping one page and recording its flags keeps the records right, whichever code has written
the bottom entry. -/
lemma recorded_map {roots : Set ℕ} {t t' : TableMem} {req : ℕ → BitVec 36 → Option U64} {root : ℕ}
    {virt flags : U64} {e : PageTableEntry}
    (hreq : ∀ r ∈ roots, ∀ v, lowBits (t.leafOf r v) = lowBits ((req r (pageNumber v)).getD 0#64))
    (hleaf : ∀ r ∈ roots, ∀ v, t'.leafOf r v
      = if r = root ∧ pageNumber v = pageNumber virt then e else t.leafOf r v)
    (he : lowBits e = lowBits flags) :
    ∀ r ∈ roots, ∀ v, lowBits (t'.leafOf r v)
      = lowBits ((recordFlags req root virt flags r (pageNumber v)).getD 0#64) := by
  intro r hr v
  rw [hleaf r hr v, recordFlags]
  by_cases hroot : r = root
  · subst hroot
    rw [Function.update_self, Function.update_apply]
    by_cases hpage : pageNumber v = pageNumber virt
    · rw [if_pos ⟨rfl, hpage⟩, if_pos hpage, he, Option.getD_some]
    · rw [if_neg (fun h => hpage h.2), if_neg hpage]
      exact hreq r hr v
  · rw [if_neg (fun h => hroot h.1), Function.update_of_ne hroot]
    exact hreq r hr v

lemma SpacesInv.mapPage {s s' : Spaces} (hs : SpacesInv E pml4 s) {virt phys flags : U64}
    (h : s.mapPage B pml4 virt phys flags = some s') : SpacesInv E pml4 s' := by
  rw [Spaces.mapPage, Option.map_eq_some_iff] at h
  obtain ⟨t, ht, rfl⟩ := h
  obtain ⟨htree, hleaf⟩ := mapPage_spec hs.kernelTree ht
  refine ⟨htree.forest, hs.apart, recorded_map hs.recorded hleaf ?_⟩
  rw [leafEntry, lowBits_setFlags]

lemma SpacesInv.newManager {s s' : Spaces} (hs : SpacesInv E pml4 s)
    (h : s.newManager A = some s') : SpacesInv E pml4 s' := by
  rw [Spaces.newManager, VirtualMemoryManager.new, Option.map_map, Option.map_eq_some_iff] at h
  obtain ⟨a, ha, rfl⟩ := h
  simp only [Function.comp_apply]
  have hal := A.aligned _ _ ha
  have hfresh := A.fresh _ _ ha
  have hlive : ∀ r ∈ s.roots pml4, r ∈ s.tables.live := fun r hr =>
    hs.forest.table_live r hr [] r (by simp) rfl
  have hne : a ≠ pml4 := fun h => hfresh (h ▸ hlive pml4 (Or.inl rfl))
  have hroots : ∀ (t : TableMem) (req : ℕ → BitVec 36 → Option U64),
      Spaces.roots pml4 ⟨t, s.managers ++ [{ pml4 := a, pageCount := 0#64 }], req⟩
        = insert a (s.roots pml4) := by
    intro t req
    ext r
    simp only [Spaces.roots, List.map_append, List.map_cons, List.map_nil, List.mem_append,
      List.mem_singleton, Set.mem_ofPred_eq, Set.mem_insert_iff]
    tauto
  have hzero : nodeKind E pml4 a x86.zero := by
    rw [nodeKind, if_neg hne]
    exact Or.inl rfl
  refine ⟨?_, ?_, ?_⟩
  · rw [hroots]
    exact RadixFormat.Forest.addRoot hs.forest hal hfresh hzero
  · intro vmm hvmm
    rcases List.mem_append.mp hvmm with hvmm | hvmm
    · exact hs.apart vmm hvmm
    · rw [List.mem_singleton.mp hvmm]
      exact hne
  · rw [hroots]
    rintro r (rfl | hr) v
    · simp only [Function.update_self, Option.getD_none]
      refine congrArg lowBits ?_
      cases ht : x86.tableAt (x86.zeroTable s.tables.mem r) r (upperPath v) with
      | none => exact RadixFormat.leafWord_of_none x86 ht _
      | some t => exact absurd (RadixFormat.tableAt_zeroTable ht).1 (by simp [upperPath])
    · have hra : r ≠ a := fun h => hfresh (h ▸ hlive r hr)
      have hleaf := RadixFormat.leafWord_addRoot hs.forest hal hfresh hr
        (upperPath_length v).le (ptIndex v)
      simp only [TableMem.leafOf, hleaf, Function.update_of_ne hra]
      exact hs.recorded r hr v

lemma SpacesInv.vmmMapPage {s s' : Spaces} (hs : SpacesInv E pml4 s) {k : ℕ}
    {virt phys flags : U64} (hzero : FreshTablesZero E A s (.vmmMapPage k virt phys flags))
    (h : s.vmmMapPage E A k virt phys flags = some s') : SpacesInv E pml4 s' := by
  rw [Spaces.vmmMapPage, Option.map_eq_some_iff] at h
  obtain ⟨vmm, hk, rfl⟩ := h
  have htree := hs.managerTree (List.mem_of_getElem? hk)
  have hspec := vmm_mapPage_spec phys flags htree (hzero vmm hk)
  generalize vmm.mapPage E A s.tables virt phys flags = result at hspec ⊢
  obtain ⟨res, vmm', t⟩ := result
  obtain ⟨hpml4, htree', hmapped⟩ := hspec
  simp only at hpml4 htree' hmapped ⊢
  have hsame : (s.managers.set k vmm').map VirtualMemoryManager.pml4
      = s.managers.map VirtualMemoryManager.pml4 := by
    rw [List.map_set, hpml4]
    obtain ⟨hlt, hget⟩ := List.getElem?_eq_some_iff.mp hk
    have hlt' : k < (s.managers.map VirtualMemoryManager.pml4).length := by
      rwa [List.length_map]
    have hroot : vmm.pml4 = (s.managers.map VirtualMemoryManager.pml4)[k] := by
      rw [List.getElem_map, hget]
    rw [hroot, List.set_getElem_self]
  have hroots : ∀ req, Spaces.roots pml4 ⟨t, s.managers.set k vmm', req⟩ = s.roots pml4 := by
    intro req
    rw [Spaces.roots, Spaces.roots, hsame]
  refine ⟨by rw [hroots]; exact htree'.forest, ?_, ?_⟩
  · intro v hv
    have hmem : v.pml4 ∈ s.managers.map VirtualMemoryManager.pml4 := by
      rw [← hsame]
      exact List.mem_map_of_mem hv
    obtain ⟨u, hu, huv⟩ := List.mem_map.mp hmem
    rw [← huv]
    exact hs.apart u hu
  · rw [hroots]
    cases res with
    | error err =>
      intro r hr v
      have hleaf : t.leafOf r v = s.tables.leafOf r v := hmapped r hr _ _ (upperPath_length v)
      rw [hleaf]
      exact hs.recorded r hr v
    | ok =>
      refine recorded_map hs.recorded hmapped ?_
      apply BitVec.eq_of_getLsbD_eq
      intro j hj
      rw [getLsbD_lowBits _ hj, getLsbD_lowBits _ hj, E.set_flags _ _ _ j hj]

lemma SpacesInv.step (s : Spaces) (op : SpacesOp) (s' : Spaces) (hs : SpacesInv E pml4 s)
    (hok : FreshTablesZero E A s op) (h : spacesStep E A B pml4 s op = some s') :
    SpacesInv E pml4 s' := by
  cases op with
  | mapPage virt phys flags => exact hs.mapPage h
  | allocAndMapUserPage virt flags frame =>
    cases frame with
    | none => rw [← Option.some.inj h]; exact hs
    | some phys => exact hs.mapPage h
  | newManager => exact hs.newManager h
  | vmmMapPage k virt phys flags => exact hs.vmmMapPage hok h

/-- **The effective rights of every page.**  What was requested last decides, except that the user
right is never granted. -/
theorem SpacesInv.effectiveRights_eq {s : Spaces} (hs : SpacesInv E pml4 s) {r : ℕ}
    (hr : r ∈ s.roots pml4) (v : U64) :
    effectiveRights s.tables.mem r v
      = (s.requested r (pageNumber v)).bind fun f =>
          if present f then some (false, writable f) else none := by
  have hnode : ∀ ρ u j, ρ ++ [j] <+: upperPath v → x86.tableAt s.tables.mem r ρ = some u →
      KernelOnly (s.tables.mem (x86.slot u j)) := by
    intro ρ u j hρ hu
    have hlen : ρ.length < 3 := by
      have := hρ.length_le
      simp only [List.length_append, List.length_singleton, upperPath_length] at this
      omega
    exact nodeKind_kernelOnly (hs.forest.node r hr ρ u j hlen hu)
  have hwalk := grantedBy_entriesAlong (i := ptIndex v) hnode
  have hbits : ∀ j < 12, (s.tables.leafOf r v).getLsbD j
      = ((s.requested r (pageNumber v)).getD 0#64).getLsbD j := by
    intro j hj
    rw [← getLsbD_lowBits _ hj, hs.recorded r hr v, getLsbD_lowBits _ hj]
  have hp := hbits 0 (by decide)
  have hw := hbits 1 (by decide)
  rw [← present_eq, ← present_eq] at hp
  rw [← writable_eq, ← writable_eq] at hw
  have hleaf : effectiveRights s.tables.mem r v
      = if present (s.tables.leafOf r v) then some (false, writable (s.tables.leafOf r v))
        else none := hwalk
  rw [hleaf, hp, hw]
  cases s.requested r (pageNumber v) <;> rfl

/-- **Requested and effective rights.**  After any history of mappings, in which the managers got
cleared frames for their tables, a page below any top table has the rights requested for it exactly
if it was not last mapped for the user. -/
theorem rightsAsRequested_iff (E : PageEntryApi) (A : FrameAllocator) (B : BoxAllocator)
    (hal : pml4 % 4096 = 0) (mem : ℕ → U64) {ops : List SpacesOp} {s : Spaces}
    (hok : Meets (FreshTablesZero E A) (spacesStep E A B pml4) (bootSpaces mem pml4) ops)
    (h : run (spacesStep E A B pml4) (bootSpaces mem pml4) ops = some s) {r : ℕ}
    (hr : r ∈ s.roots pml4) (v : U64) :
    s.RightsAsRequested r v ↔
      ∀ f, s.requested r (pageNumber v) = some f → present f = true →
        userAccessible f = false := by
  have hinv : SpacesInv E pml4 s :=
    run_invariant_of_meets SpacesInv.step (bootSpaces_inv mem hal) hok h
  have hrights := hinv.effectiveRights_eq hr v
  rw [Spaces.RightsAsRequested, hrights]
  cases hreq : s.requested r (pageNumber v) with
  | none => simp
  | some f =>
    cases hp : present f with
    | false => simp [hp]
    | true =>
      simp only [Option.bind_some, hp, if_true, Option.some.injEq, forall_eq', exists_eq_left',
        Prod.mk.injEq, and_true, forall_const]
      exact eq_comm

end Invariant

/-- A process with a read-only page. -/
def readOnlyPage : List SpacesOp := [.newManager, .vmmMapPage 0 0x400000#64 0xA000#64 1#64]

/-- A page that is only read. -/
theorem rightsAsRequested_iff_readOnlyPage :
    ∃ s, run (spacesStep plainPageEntry bumpFrames bumpBox 0x1000)
        (bootSpaces (fun _ => 0#64) 0x1000) readOnlyPage = some s ∧
      effectiveRights s.tables.mem 0x201000 0x400000#64 = some (false, false) ∧
      s.RightsAsRequested 0x201000 0x400000#64 := by
  have hcomp : (run (spacesStep plainPageEntry bumpFrames bumpBox 0x1000)
      (bootSpaces (fun _ => 0#64) 0x1000) readOnlyPage).map (fun s =>
        (s.managers.map VirtualMemoryManager.pml4, s.requested 0x201000 (pageNumber 0x400000#64),
          effectiveRights s.tables.mem 0x201000 0x400000#64))
      = some ([0x201000], some 1#64, some (false, false)) := by decide
  obtain ⟨s, hs, hview⟩ := Option.map_eq_some_iff.mp hcomp
  simp only [Prod.mk.injEq] at hview
  refine ⟨s, hs, hview.2.2, ?_⟩
  have hroot : 0x201000 ∈ s.roots 0x1000 :=
    Or.inr (by rw [hview.1]; exact List.mem_singleton_self _)
  refine (rightsAsRequested_iff plainPageEntry bumpFrames bumpBox (by decide) _ ?_ hs
    hroot _).mpr ?_
  · -- memory is zero all over until the manager links its first table
    refine ⟨trivial, fun s₁ h₁ => ⟨fun vmm _ a _ i => ?_, fun _ _ => trivial⟩⟩
    simp only [spacesStep, Spaces.newManager, VirtualMemoryManager.new, Option.map_map,
      Option.map_eq_some_iff] at h₁
    obtain ⟨b, -, rfl⟩ := h₁
    have hzero : ∀ b, x86.zeroTable (fun _ => 0#64) b = fun _ => 0#64 :=
      fun b => RadixFormat.zeroTable_eq_self fun _ => rfl
    simp only [Function.comp_apply, bootSpaces, bootTables, hzero]
  · rw [hview.2.1]
    rintro f hf -
    rw [← Option.some.inj hf]
    decide

/-- **A page mapped for the user that the user cannot reach.** -/
theorem user_page_is_out_of_reach :
    ¬ ∀ (ops : List SpacesOp) (s : Spaces),
        Meets (FreshTablesZero plainPageEntry bumpFrames)
          (spacesStep plainPageEntry bumpFrames bumpBox 0x1000)
          (bootSpaces (fun _ => 0#64) 0x1000) ops →
        run (spacesStep plainPageEntry bumpFrames bumpBox 0x1000)
          (bootSpaces (fun _ => 0#64) 0x1000) ops = some s →
        ∀ v, s.RightsAsRequested 0x1000 v := by
  intro hall
  have hcomp : (run (spacesStep plainPageEntry bumpFrames bumpBox 0x1000)
      (bootSpaces (fun _ => 0#64) 0x1000)
        [.allocAndMapUserPage 0x400000#64 3#64 (some 0x9000#64)]).map (fun s =>
          (s.requested 0x1000 (pageNumber 0x400000#64),
            effectiveRights s.tables.mem 0x1000 0x400000#64))
      = some (some 7#64, some (false, true)) := by decide
  obtain ⟨s, hs, hview⟩ := Option.map_eq_some_iff.mp hcomp
  simp only [Prod.mk.injEq] at hview
  have hmapped := hall _ s (by exact ⟨trivial, fun _ _ => trivial⟩) hs _ _ hview.2
  obtain ⟨f, hf, hrights⟩ := hmapped
  rw [hview.1] at hf
  rw [← Option.some.inj hf] at hrights
  exact absurd hrights (by decide)

end Masika
