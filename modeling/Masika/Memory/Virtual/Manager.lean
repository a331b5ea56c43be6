import Masika.Arch.Paging.Tables

/-!
# Address spaces of processes

`VirtualMemoryManager` of `memory/virtual.rs` builds trees of the same shape as the kernel's, but
through another entry type, `PageEntry`, and with frames from `alloc_pages`.  Neither is defined in
the repository, so both are parameters.

* `PageEntryApi` — an entry is unused when its word is zero, `set` stores an address in bits 12 to
  51 and flags in bits 0 to 11, and `addr` reads the address back.
* `FrameAllocator` — `alloc_pages(1)` fails or answers with a page-aligned frame that is not one of
  the existing tables.  It says nothing about what the frame holds, and `map_page` does not clear it
  either: the specification `vmm_mapPage_spec` asks for the frames that become tables to hold zeros
  (`ZeroFor`).
-/

namespace Masika

open PageTableEntry

/-! ## What is missing from the repository -/

/-- `PageEntry`, as far as the manager relies on it. -/
structure PageEntryApi where
  isUnused : U64 → Bool
  addr : U64 → U64
  /-- `entry.set(frame, flags)`, given the entry it overwrites -/
  set : U64 → U64 → U64 → U64
  isUnused_eq : ∀ e, isUnused e = (e == 0#64)
  addr_eq : ∀ e, addr e = hwAddr e
  set_flags : ∀ frame flags e j, j < 12 → (set frame flags e).getLsbD j = flags.getLsbD j
  set_addr : ∀ frame flags e j, 12 ≤ j → j < 52 →
    (set frame flags e).getLsbD j = frame.getLsbD j

/-- An entry type of this kind: the address and the flags side by side. -/
def plainPageEntry : PageEntryApi where
  isUnused e := e == 0#64
  addr := hwAddr
  set frame flags _ := hwAddr frame ||| (flags &&& 0xFFF#64)
  isUnused_eq _ := rfl
  addr_eq _ := rfl
  set_flags frame flags _ j hj := by
    have hn : ¬ (12 ≤ j ∧ j < 52) := by omega
    rw [BitVec.getLsbD_or, BitVec.getLsbD_and, getLsbD_hwAddr, getLsbD_flagMask]
    simp [hn, hj]
  set_addr frame flags _ j h12 h52 := by
    have hn : ¬ j < 12 := by omega
    rw [BitVec.getLsbD_or, BitVec.getLsbD_and, getLsbD_hwAddr, getLsbD_flagMask]
    simp [hn, h12, h52]

/-- `alloc_pages(1)`, given the tables that exist. -/
structure FrameAllocator where
  new : List ℕ → Option ℕ
  fresh : ∀ live a, new live = some a → a ∉ live
  aligned : ∀ live a, new live = some a → a % 4096 = 0
  low : ∀ live a, new live = some a → a < 2 ^ 52

/-- Frames one after another. -/
def bumpFrames : FrameAllocator where
  new := bumpBox.new
  fresh := bumpBox.fresh
  aligned := bumpBox.aligned
  low live a h := lt_trans (bumpBox.low live a h) (by decide)

/-! ## The manager -/

/-- The errors of the manager. -/
inductive VmmError where
  | outOfMemory
  | invalidAddress
  | accessDenied
  | rangeOverlap
deriving DecidableEq, Repr

/-- The fields of `VirtualMemoryManager` that mapping and page faults use. -/
structure VirtualMemoryManager where
  pml4 : ℕ
  pageCount : U64
  cowEnabled : Bool := true

section Operations

variable (E : PageEntryApi) (A : FrameAllocator)

/-- An address space with a cleared top table.  `none` is the panic of
`alloc_pages(1).unwrap()`. -/
def VirtualMemoryManager.new (s : TableMem) : Option (VirtualMemoryManager × TableMem) :=
  (A.new s.live).map fun pml4 =>
    ({ pml4 := pml4, pageCount := 0#64 }, ⟨x86.zeroTable s.mem pml4, pml4 :: s.live⟩)

/-- `if entry.is_unused() { .. }`, the block repeated at the three upper levels.  `none` is the
early return with `VmmError::OutOfMemory`. -/
def vmmEnsureTable (vmm : VirtualMemoryManager) (s : TableMem) (entry : ℕ) :
    Option (VirtualMemoryManager × TableMem) :=
  if E.isUnused (s.mem entry) then
    (A.new s.live).map fun frame =>
      ({ vmm with pageCount := vmm.pageCount + 1#64 },
        { mem := Function.update s.mem entry
            (E.set (BitVec.ofNat 64 frame) 0x03#64 (s.mem entry)),
          live := frame :: s.live })
  else some (vmm, s)

/-- `PhysAddr(entry.addr()).as_mut_ptr()`. -/
def vmmTablePtr (s : TableMem) (entry : ℕ) : ℕ := (E.addr (s.mem entry)).toNat

/-- Make the tables that are missing, and write the entry. -/
def VirtualMemoryManager.mapPage (vmm : VirtualMemoryManager) (s : TableMem)
    (virt phys flags : U64) : Except VmmError Unit × VirtualMemoryManager × TableMem :=
  let pdptEntry := x86.slot vmm.pml4 (pml4Index virt)
  match vmmEnsureTable E A vmm s pdptEntry with
  | none => (.error .outOfMemory, vmm, s)
  | some (vmm₁, s₁) =>
    let pdEntry := x86.slot (vmmTablePtr E s₁ pdptEntry) (pdptIndex virt)
    match vmmEnsureTable E A vmm₁ s₁ pdEntry with
    | none => (.error .outOfMemory, vmm₁, s₁)
    | some (vmm₂, s₂) =>
      let ptEntry := x86.slot (vmmTablePtr E s₂ pdEntry) (pdIndex virt)
      match vmmEnsureTable E A vmm₂ s₂ ptEntry with
      | none => (.error .outOfMemory, vmm₂, s₂)
      | some (vmm₃, s₃) =>
        let pte := x86.slot (vmmTablePtr E s₃ ptEntry) (ptIndex virt)
        (.ok (), { vmm₃ with pageCount := vmm₃.pageCount + 1#64 },
          s₃.write pte (E.set phys flags (s₃.mem pte)))

/-- The first part of `map_page`, along a path of any length: the table at its end, or `none` when a
frame was missing, with what has been done by then. -/
def vmmEnsurePath (vmm : VirtualMemoryManager) (s : TableMem) :
    ℕ → Path → Option ℕ × VirtualMemoryManager × TableMem
  | t, [] => (some t, vmm, s)
  | t, i :: π =>
    match vmmEnsureTable E A vmm s (x86.slot t i) with
    | none => (none, vmm, s)
    | some (vmm, s) => vmmEnsurePath vmm s (vmmTablePtr E s (x86.slot t i)) π

lemma vmm_mapPage_eq (vmm : VirtualMemoryManager) (s : TableMem) (virt phys flags : U64) :
    vmm.mapPage E A s virt phys flags
      = match vmmEnsurePath E A vmm s vmm.pml4 (upperPath virt) with
        | (none, vmm, s) => (.error .outOfMemory, vmm, s)
        | (some pt, vmm, s) =>
          (.ok (), { vmm with pageCount := vmm.pageCount + 1#64 },
            s.write (x86.slot pt (ptIndex virt))
              (E.set phys flags (s.mem (x86.slot pt (ptIndex virt))))) := by
  simp only [VirtualMemoryManager.mapPage, upperPath, vmmEnsurePath]
  cases vmmEnsureTable E A vmm s (x86.slot vmm.pml4 (pml4Index virt)) with
  | none => rfl
  | some p₁ =>
    simp only
    cases vmmEnsureTable E A p₁.1 p₁.2
        (x86.slot (vmmTablePtr E p₁.2 (x86.slot vmm.pml4 (pml4Index virt))) (pdptIndex virt)) with
    | none => rfl
    | some p₂ =>
      simp only
      cases vmmEnsureTable E A p₂.1 p₂.2 (x86.slot (vmmTablePtr E p₂.2 (x86.slot
          (vmmTablePtr E p₁.2 (x86.slot vmm.pml4 (pml4Index virt))) (pdptIndex virt)))
          (pdIndex virt)) <;> rfl

/-! ## Which frames must hold zeros -/

/-- How many tables `map_page` has to create on the way down. -/
def missingTables (mem : ℕ → U64) : ℕ → Path → ℕ
  | _, [] => 0
  | t, i :: π =>
    if E.isUnused (mem (x86.slot t i)) then π.length + 1
    else missingTables mem (E.addr (mem (x86.slot t i))).toNat π

/-- The next `n` answers of `alloc_pages(1)`, as far as it does not fail. -/
def handedOut (live : List ℕ) : ℕ → List ℕ
  | 0 => []
  | n + 1 => match A.new live with
    | none => []
    | some a => a :: handedOut (a :: live) n

/-- The next `n` frames hold zeros. -/
def ZeroFor (s : TableMem) (n : ℕ) : Prop :=
  ∀ a ∈ handedOut A s.live n, ∀ i, s.mem (x86.slot a i) = 0#64

end Operations

lemma handedOut_spec {A : FrameAllocator} {n : ℕ} : ∀ {live : List ℕ} {a : ℕ},
    a ∈ handedOut A live n → a ∉ live ∧ a % 4096 = 0 := by
  induction n with
  | zero => intro live a h; simp [handedOut] at h
  | succ n ih =>
    intro live a h
    rw [handedOut] at h
    cases hnew : A.new live with
    | none => simp [hnew] at h
    | some b =>
      simp only [hnew, List.mem_cons] at h
      rcases h with rfl | h
      · exact ⟨A.fresh _ _ hnew, A.aligned _ _ hnew⟩
      · obtain ⟨hne, hal⟩ := ih h
        exact ⟨fun hmem => hne (List.mem_cons_of_mem b hmem), hal⟩

/-! ## What the manager stores above the page tables -/

/-- Nothing, or a link with the flags `0x03`. -/
def IsVmmEntry (E : PageEntryApi) (e : U64) : Prop :=
  e = 0#64 ∨ ∃ a, a % 4096 = 0 ∧ a < 2 ^ 52 ∧ e = E.set (BitVec.ofNat 64 a) 0x03#64 0#64

/-- The tree below `r` is one of the manager's, among others. -/
abbrev VmmForest (E : PageEntryApi) (Node : ℕ → U64 → Prop) (roots : Set ℕ) (r : ℕ) (s : TableMem) :
    Prop :=
  TreeIn (IsVmmEntry E) Node roots r s

/-- The tree below `r` is one of the manager's, and there is no other. -/
abbrev OwnTree (E : PageEntryApi) (r : ℕ) (s : TableMem) : Prop :=
  TreeIn (IsVmmEntry E) (fun _ => IsVmmEntry E) {r} r s

/-- The low bits of a link: present and writable, not user-accessible. -/
lemma getLsbD_vmmLink (E : PageEntryApi) (a : ℕ) (e : U64) {j : ℕ} (hj : j < 12) :
    (E.set (BitVec.ofNat 64 a) 0x03#64 e).getLsbD j = decide (j < 2) := by
  rw [E.set_flags _ _ _ j hj]
  exact getLsbD_three j

/-- `set` stores the frame of the address. -/
lemma PageEntryApi.hwAddr_set (E : PageEntryApi) (phys flags e : U64) :
    hwAddr (E.set phys flags e) = hwAddr phys := by
  apply BitVec.eq_of_getLsbD_eq
  intro j _
  rw [getLsbD_hwAddr, getLsbD_hwAddr]
  by_cases hmid : 12 ≤ j ∧ j < 52
  · rw [E.set_addr _ _ _ j hmid.1 hmid.2]
  · simp [hmid]

/-- The address of a frame is all address. -/
lemma hwAddr_ofNat {a : ℕ} (hal : a % 4096 = 0) (hlow : a < 2 ^ 52) :
    hwAddr (BitVec.ofNat 64 a) = BitVec.ofNat 64 a := by
  apply BitVec.eq_of_getLsbD_eq
  intro j _
  rw [getLsbD_hwAddr]
  by_cases hmid : 12 ≤ j ∧ j < 52
  · simp [hmid]
  · rw [getLsbD_ofNat_aligned hal hlow (by omega)]
    simp [hmid]

lemma toNat_hwAddr_ofNat {a : ℕ} (hal : a % 4096 = 0) (hlow : a < 2 ^ 52) :
    (hwAddr (BitVec.ofNat 64 a)).toNat = a := by
  rw [hwAddr_ofNat hal hlow, BitVec.toNat_ofNat, Nat.mod_eq_of_lt]
  exact lt_of_lt_of_le hlow (by decide)

lemma hwNext_vmmLink (E : PageEntryApi) {a : ℕ} (hal : a % 4096 = 0) (hlow : a < 2 ^ 52) (e : U64) :
    hwNext (E.set (BitVec.ofNat 64 a) 0x03#64 e) = some a := by
  have hp : present (E.set (BitVec.ofNat 64 a) 0x03#64 e) = true := by
    rw [present_eq, getLsbD_vmmLink E a e (by decide)]
    rfl
  rw [hwNext, hp, if_pos rfl, E.hwAddr_set, toNat_hwAddr_ofNat hal hlow]

/-- The manager follows a link to where the processor does. -/
lemma vmmLink_addr (E : PageEntryApi) {a : ℕ} (hal : a % 4096 = 0) (hlow : a < 2 ^ 52) (e : U64) :
    (E.addr (E.set (BitVec.ofNat 64 a) 0x03#64 e)).toNat = a := by
  have hnext := hwNext_vmmLink E hal hlow e
  rw [hwNext] at hnext
  split_ifs at hnext with hp
  rw [E.addr_eq]
  exact Option.some.inj hnext

/-! ## Specifications -/

section Specs

variable {E : PageEntryApi} {A : FrameAllocator} {Node : ℕ → U64 → Prop} {roots : Set ℕ}

/-- `t` is a table of one of the trees. -/
def IsTable (roots : Set ℕ) (s : TableMem) (t : ℕ) : Prop :=
  ∃ r ∈ roots, ∃ π : Path, π.length ≤ 3 ∧ x86.tableAt s.mem r π = some t

/-- From `s` to `s'` new empty tables were linked into the trees, and nothing else happened. -/
structure Grows (roots : Set ℕ) (s s' : TableMem) : Prop where
  live : s.live ⊆ s'.live
  leaves : SameLeaves roots s s'
  /-- tables stay in their places -/
  kept : ∀ r ∈ roots, ∀ π : Path, π.length ≤ 3 → ∀ t,
    x86.tableAt s.mem r π = some t → x86.tableAt s'.mem r π = some t
  /-- frames obtained on the way have become tables -/
  obtained : ∀ t ∈ s'.live, t ∈ s.live ∨ IsTable roots s' t
  /-- a frame in use that was not a table has not become one, and holds what it held -/
  data : ∀ d ∈ s.live, ¬ IsTable roots s d →
    ¬ IsTable roots s' d ∧ ∀ i, s'.mem (x86.slot d i) = s.mem (x86.slot d i)

lemma Grows.refl (s : TableMem) : Grows roots s s :=
  ⟨fun _ h => h, fun _ _ _ _ _ => rfl, fun _ _ _ _ _ h => h, fun _ h => .inl h,
    fun _ _ h => ⟨h, fun _ => rfl⟩⟩

lemma Grows.trans {s₁ s₂ s₃ : TableMem} (h₁ : Grows roots s₁ s₂) (h₂ : Grows roots s₂ s₃) :
    Grows roots s₁ s₃ := by
  refine ⟨fun t ht => h₂.live (h₁.live ht), h₁.leaves.trans h₂.leaves,
    fun r hr π hπ t ht => h₂.kept r hr π hπ t (h₁.kept r hr π hπ t ht), fun t ht => ?_,
    fun d hd hdata => ?_⟩
  · rcases h₂.obtained t ht with h | h
    · rcases h₁.obtained t h with h | ⟨r, hr, π, hπ, ht⟩
      · exact .inl h
      · exact .inr ⟨r, hr, π, hπ, h₂.kept r hr π hπ t ht⟩
    · exact .inr h
  · obtain ⟨hmid, hsame₁⟩ := h₁.data d hd hdata
    obtain ⟨hend, hsame₂⟩ := h₂.data d (h₁.live hd) hmid
    exact ⟨hend, fun i => (hsame₂ i).trans (hsame₁ i)⟩

/-- Linking one fresh table. -/
lemma Grows.link {P : PageTableEntry → Prop} {r t a : ℕ} {s : TableMem}
    (hs : TreeIn P Node roots r s) {π : Path} {i : Fin 512} (hlen : π.length < 3)
    (ht : x86.tableAt s.mem r π = some t) (hempty : s.mem (x86.slot t i) = empty)
    (hal : a % 4096 = 0) (hfresh : a ∉ s.live) {w : PageTableEntry} (hw : hwNext w = some a) :
    Grows roots s ⟨x86.linkTable s.mem (x86.slot t i) a w, a :: s.live⟩ := by
  have hnone : x86.decode (s.mem (x86.slot t i)) = none := by rw [hempty]; rfl
  refine ⟨fun _ h => List.mem_cons_of_mem a h, ?_, ?_, ?_, ?_⟩
  · intro r' hr' π' j hπ'
    exact RadixFormat.leafWord_link hs.forest hs.root hlen ht hnone hal hfresh hw hr' hπ' j
  · intro r' hr' π' hπ' u hu
    exact RadixFormat.tableAt_link_mono hs.forest hs.root hlen ht hnone hal hfresh hr' hπ' hu
  · intro u hu
    rcases List.mem_cons.mp hu with rfl | hu
    · have hlen' : (π ++ [i]).length ≤ 3 := by simpa using Nat.succ_le_of_lt hlen
      refine .inr ⟨r, hs.root, π ++ [i], hlen', ?_⟩
      exact RadixFormat.tableAt_link_self hs.forest hs.root hlen ht hal hfresh hw
    · exact .inl hu
  · intro d hd hdata
    refine ⟨?_, fun j => ?_⟩
    · rintro ⟨r', hr', π', hπ', hu⟩
      rcases RadixFormat.tableAt_link_cases hs.forest hs.root hlen ht hal hfresh hw hr' hπ' hu with
        ⟨-, -, rfl⟩ | hold
      · exact hfresh hd
      · exact hdata ⟨r', hr', π', hπ', hold⟩
    · refine RadixFormat.link_slot_live hs.forest hs.root hlen ht hal hfresh hd ?_
      rintro ⟨rfl, -⟩
      exact hdata ⟨r, hs.root, π, hlen.le, ht⟩

/-- A table whose entries are all zero has everything below it missing. -/
lemma missingTables_of_zero {mem : ℕ → U64} {a : ℕ} (h : ∀ i, mem (x86.slot a i) = 0#64)
    (π : Path) : missingTables E mem a π = π.length := by
  cases π with
  | nil => rfl
  | cons i π =>
    rw [missingTables, h i, E.isUnused_eq]
    rfl

lemma handedOut_succ {live : List ℕ} {a : ℕ} (ha : A.new live = some a) (n : ℕ) :
    handedOut A live (n + 1) = a :: handedOut A (a :: live) n := by
  rw [handedOut, ha]

/-- The frame that is handed out next holds zeros. -/
lemma ZeroFor.next {s : TableMem} {a n : ℕ} (hz : ZeroFor A s (n + 1))
    (ha : A.new s.live = some a) (j : Fin 512) : s.mem (x86.slot a j) = 0#64 :=
  hz a (by rw [handedOut_succ ha]; exact List.mem_cons_self) j

/-- Using it for a table leaves the zeros of the others in place. -/
lemma ZeroFor.link {P : PageTableEntry → Prop} {s : TableMem} {r t a n : ℕ}
    (hs : TreeIn P Node roots r s) {π : Path} {i : Fin 512} (hlen : π.length < 3)
    (ht : x86.tableAt s.mem r π = some t) (hz : ZeroFor A s (n + 1))
    (ha : A.new s.live = some a) (w : U64) :
    ZeroFor A ⟨x86.linkTable s.mem (x86.slot t i) a w, a :: s.live⟩ n := by
  intro b hb j
  obtain ⟨hbfresh, hbal⟩ := handedOut_spec hb
  have htlive := hs.forest.table_live r hs.root π t hlen.le ht
  have hne : x86.slot b j ≠ x86.slot t i := by
    intro hslot
    obtain ⟨rfl, -⟩ := x86.slot_eq hbal (hs.forest.aligned t htlive) hslot
    exact hbfresh (List.mem_cons_of_mem a htlive)
  simp only [RadixFormat.linkTable, RadixFormat.zeroTable_eq_self (hz.next ha),
    Function.update_of_ne hne]
  exact hz b (by rw [handedOut_succ ha]; exact List.mem_cons_of_mem a hb) j

/-- A used entry leads to the next table. -/
lemma TreeIn.tableAt_of_used {s : TableMem} {r t : ℕ} (hs : VmmForest E Node roots r s)
    {ρ : Path} {i : Fin 512} (hlen : ρ.length < 3) (ht : x86.tableAt s.mem r ρ = some t)
    (hu : E.isUnused (s.mem (x86.slot t i)) = false) :
    x86.tableAt s.mem r (ρ ++ [i]) = some (E.addr (s.mem (x86.slot t i))).toNat := by
  rw [RadixFormat.tableAt_snoc, ht, Option.bind_some]
  rcases hs.node hlen ht i with he | ⟨a, hal, hlow, he⟩
  · rw [he, E.isUnused_eq] at hu
    exact absurd hu (by decide)
  · rw [he, vmmLink_addr E hal hlow]
    exact hwNext_vmmLink E hal hlow _

/-- What one level of `map_page` does: nothing, or it links a fresh table that holds zeros. -/
lemma vmmEnsureTable_cases {vmm vmm' : VirtualMemoryManager} {s s' : TableMem} {entry : ℕ}
    (hzero : ∀ a, A.new s.live = some a → ∀ j, s.mem (x86.slot a j) = 0#64)
    (h : vmmEnsureTable E A vmm s entry = some (vmm', s')) :
    (E.isUnused (s.mem entry) = false ∧ vmm' = vmm ∧ s' = s) ∨
      ∃ a, A.new s.live = some a ∧ s.mem entry = 0#64 ∧
        vmm' = { vmm with pageCount := vmm.pageCount + 1#64 } ∧
        s' = ⟨x86.linkTable s.mem entry a (E.set (BitVec.ofNat 64 a) 0x03#64 0#64),
          a :: s.live⟩ := by
  rw [vmmEnsureTable] at h
  cases hu : E.isUnused (s.mem entry) with
  | false =>
    rw [hu, if_neg (by simp), Option.some.injEq, Prod.mk.injEq] at h
    exact .inl ⟨rfl, h.1.symm, h.2.symm⟩
  | true =>
    rw [hu, if_pos rfl, Option.map_eq_some_iff] at h
    obtain ⟨a, ha, h⟩ := h
    rw [Prod.mk.injEq] at h
    rw [E.isUnused_eq, beq_iff_eq] at hu
    refine .inr ⟨a, ha, hu, h.1.symm, ?_⟩
    rw [← h.2, RadixFormat.linkTable, RadixFormat.zeroTable_eq_self (hzero a ha), hu]

/-- **One level of `map_page`.**  Afterwards the table below the entry exists, the entry leads to
it, nothing but new tables has been added, and the frames still needed further down hold zeros. -/
lemma vmmEnsureTable_spec {vmm vmm' : VirtualMemoryManager} {s s' : TableMem} {r t : ℕ}
    (hs : VmmForest E Node roots r s) {π rest : Path} {i : Fin 512}
    (hlen : π.length < 3) (ht : x86.tableAt s.mem r π = some t)
    (hz : ZeroFor A s (missingTables E s.mem t (i :: rest)))
    (h : vmmEnsureTable E A vmm s (x86.slot t i) = some (vmm', s')) :
    vmm'.pml4 = vmm.pml4 ∧ VmmForest E Node roots r s' ∧ Grows roots s s' ∧
      x86.tableAt s'.mem r (π ++ [i]) = some (vmmTablePtr E s' (x86.slot t i)) ∧
      ZeroFor A s' (missingTables E s'.mem (vmmTablePtr E s' (x86.slot t i)) rest) := by
  rw [missingTables] at hz
  cases hu : E.isUnused (s.mem (x86.slot t i)) with
  | false =>
    rw [vmmEnsureTable, hu, if_neg (by simp), Option.some.injEq, Prod.mk.injEq] at h
    rw [hu, if_neg (by simp)] at hz
    obtain ⟨rfl, rfl⟩ := h
    exact ⟨rfl, hs, .refl s, hs.tableAt_of_used hlen ht hu, hz⟩
  | true =>
    rw [hu, if_pos rfl] at hz
    obtain ⟨hused, -, -⟩ | ⟨a, ha, he, rfl, rfl⟩ :=
      vmmEnsureTable_cases (fun a ha => hz.next ha) h
    · rw [hu] at hused
      cases hused
    have hal := A.aligned _ _ ha
    have hlow := A.low _ _ ha
    have hfresh := A.fresh _ _ ha
    obtain ⟨hs', -, htab⟩ := hs.link hlen ht he hal hfresh (hwNext_vmmLink E hal hlow 0#64)
      (Or.inr ⟨a, hal, hlow, rfl⟩) (Or.inl rfl)
    have hgrows := Grows.link hs hlen ht he hal hfresh (hwNext_vmmLink E hal hlow 0#64)
    have hptr : (E.addr (x86.linkTable s.mem (x86.slot t i) a
        (E.set (BitVec.ofNat 64 a) 0x03#64 0#64) (x86.slot t i))).toNat = a := by
      rw [RadixFormat.linkTable, Function.update_self, vmmLink_addr E hal hlow]
    simp only [vmmTablePtr, hptr]
    refine ⟨trivial, hs', hgrows, htab, ?_⟩
    -- the new table is empty, so the rest of the path is missing as well
    rw [missingTables_of_zero fun j =>
      RadixFormat.link_slot_fresh hs.forest hs.root hlen ht hal hfresh j]
    exact hz.link hs hlen ht ha _

/-- **The tables above the bottom entry.**  By induction on the rest of the path: `ρ` is the part
that has been walked. -/
lemma vmmEnsurePath_spec {r : ℕ} {π : Path} :
    ∀ {vmm : VirtualMemoryManager} {s : TableMem} {ρ : Path} {t : ℕ},
    VmmForest E Node roots r s → ρ.length + π.length ≤ 3 →
    x86.tableAt s.mem r ρ = some t → ZeroFor A s (missingTables E s.mem t π) →
    ∃ answer vmm' s', vmmEnsurePath E A vmm s t π = (answer, vmm', s') ∧
      vmm'.pml4 = vmm.pml4 ∧ VmmForest E Node roots r s' ∧ Grows roots s s' ∧
      ∀ pt, answer = some pt → x86.tableAt s'.mem r (ρ ++ π) = some pt := by
  induction π with
  | nil =>
    intro vmm s ρ t hs _ ht _
    refine ⟨some t, vmm, s, rfl, rfl, hs, .refl s, fun pt hpt => ?_⟩
    rw [List.append_nil, ht, hpt]
  | cons i π ih =>
    intro vmm s ρ t hs hlen ht hz
    rw [List.length_cons] at hlen
    rw [vmmEnsurePath]
    cases h₁ : vmmEnsureTable E A vmm s (x86.slot t i) with
    | none => exact ⟨none, vmm, s, rfl, rfl, hs, .refl s, fun _ h => nomatch h⟩
    | some p =>
      obtain ⟨vmm₁, s₁⟩ := p
      obtain ⟨hroot₁, hs₁, hg₁, ht₁, hz₁⟩ :=
        vmmEnsureTable_spec hs (show ρ.length < 3 by omega) ht hz h₁
      have hlen₁ : (ρ ++ [i]).length + π.length ≤ 3 := by
        simp only [List.length_append, List.length_singleton]
        omega
      obtain ⟨answer, vmm', s', heq, hroot, hs', hg, hpt⟩ := ih hs₁ hlen₁ ht₁ hz₁
      refine ⟨answer, vmm', s', heq, hroot.trans hroot₁, hs', hg₁.trans hg, ?_⟩
      simpa only [List.append_assoc, List.singleton_append] using hpt

/-- **The course of `map_page`.**  First the missing tables are created, as far as there are frames;
if there are enough, the bottom entry is written. -/
lemma vmm_mapPage_cases {vmm : VirtualMemoryManager} {s : TableMem} {virt : U64}
    (phys flags : U64) (hs : VmmForest E Node roots vmm.pml4 s)
    (hz : ZeroFor A s (missingTables E s.mem vmm.pml4 (upperPath virt))) :
    ∃ vmm' s₁, vmm'.pml4 = vmm.pml4 ∧ VmmForest E Node roots vmm.pml4 s₁ ∧
      Grows roots s s₁ ∧
      (vmm.mapPage E A s virt phys flags = (.error .outOfMemory, vmm', s₁) ∨
        ∃ t, x86.tableAt s₁.mem vmm.pml4 (upperPath virt) = some t ∧
          vmm.mapPage E A s virt phys flags = (.ok (), vmm',
            s₁.write (x86.slot t (ptIndex virt))
              (E.set phys flags (s₁.mem (x86.slot t (ptIndex virt)))))) := by
  obtain ⟨answer, vmm₁, s₁, heq, hroot, hs₁, hgrows, htable⟩ :=
    vmmEnsurePath_spec hs (show ([] : Path).length + (upperPath virt).length ≤ 3 by simp)
      rfl hz
  rw [vmm_mapPage_eq, heq]
  cases answer with
  | none => exact ⟨vmm₁, s₁, hroot, hs₁, hgrows, .inl rfl⟩
  | some pt =>
    exact ⟨{ vmm₁ with pageCount := vmm₁.pageCount + 1#64 }, s₁, hroot, hs₁, hgrows,
      .inr ⟨pt, htable pt rfl, rfl⟩⟩

/-- What a call of `map_page` leaves behind: nothing at the ends of the paths when it fails, exactly
the page of `virt` when it succeeds. -/
def VmmMapped (E : PageEntryApi) (roots : Set ℕ) (r : ℕ) (virt phys flags : U64) (s s' : TableMem) :
    Except VmmError Unit → Prop
  | .error _ => SameLeaves roots s s'
  | .ok () => ∀ r' ∈ roots, ∀ v, s'.leafOf r' v
      = if r' = r ∧ pageNumber v = pageNumber virt then E.set phys flags (s.leafOf r virt)
        else s.leafOf r' v

/-- **`VirtualMemoryManager::map_page`**, when the frames that become tables hold zeros. -/
theorem vmm_mapPage_spec {vmm : VirtualMemoryManager} {s : TableMem} {virt : U64}
    (phys flags : U64) (hs : VmmForest E Node roots vmm.pml4 s)
    (hz : ZeroFor A s (missingTables E s.mem vmm.pml4 (upperPath virt))) :
    (vmm.mapPage E A s virt phys flags).2.1.pml4 = vmm.pml4 ∧
      VmmForest E Node roots vmm.pml4 (vmm.mapPage E A s virt phys flags).2.2 ∧
      VmmMapped E roots vmm.pml4 virt phys flags s (vmm.mapPage E A s virt phys flags).2.2
        (vmm.mapPage E A s virt phys flags).1 := by
  obtain ⟨vmm', s₁, hroot, hs₁, hgrows, hfail | ⟨t, ht, hok⟩⟩ := vmm_mapPage_cases phys flags hs hz
  · rw [hfail]
    exact ⟨hroot, hs₁, hgrows.leaves⟩
  · rw [hok]
    obtain ⟨hs₂, hl⟩ := hs₁.writeLeaf ht (E.set phys flags (s₁.mem (x86.slot t (ptIndex virt))))
    refine ⟨hroot, hs₂, fun r' hr' v => ?_⟩
    rw [hl r' hr' v, ← leafOf_of_tableAt ht]
    rw [show s₁.leafOf vmm.pml4 virt = s.leafOf vmm.pml4 virt from
        hgrows.leaves _ hs.root _ _ (upperPath_length virt),
      show s₁.leafOf r' v = s.leafOf r' v from hgrows.leaves r' hr' _ _ (upperPath_length v)]

end Specs

end Masika
