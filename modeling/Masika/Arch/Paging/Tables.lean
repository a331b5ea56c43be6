import Masika.Arch.Paging.Hardware

/-!
# The kernel page tables

The operations of `arch/paging.rs` on the tree below `KERNEL_PML4`, over a memory of words.  A table
is not an object but 512 words at its address, and a pointer read out of an entry is followed
wherever it leads; that the operations nevertheless never touch a foreign table is a theorem.

`Box::new(PageTable::new())` is a parameter, `BoxAllocator`: it is given the tables that exist and
answers with the address of a fresh one, or aborts the kernel.  `live` is the list of existing
tables, newest first; since it grows with every call, an allocator that is a function of it can
answer any sequence of calls in any way.

Every operation has one specification lemma, in terms of the *processor's* view: the trees stay
separate, and the words at the ends of the paths change in exactly the way the operation says.
The lemmas allow other trees in the same memory, so that address spaces built by other code can be
put beside the kernel's.
-/

namespace Masika

open PageTableEntry

/-! ## Memory and the box allocator -/

/-- The words of memory, and the tables that exist. -/
structure TableMem where
  mem : ℕ → U64
  live : List ℕ

namespace TableMem

/-- Write an entry. -/
def write (s : TableMem) (a : ℕ) (e : PageTableEntry) : TableMem :=
  { s with mem := Function.update s.mem a e }

/-- `entry.addr() as *mut PageTable`, for the entry at address `entry`. -/
def tablePtr (s : TableMem) (entry : ℕ) : ℕ := (addr (s.mem entry)).toNat

/-- The entry at the end of the path of `virt`, as the processor finds it. -/
def leafOf (s : TableMem) (root : ℕ) (virt : U64) : PageTableEntry :=
  x86.leafWord s.mem root (upperPath virt) (ptIndex virt)

/-- All addresses of a page have the same entry. -/
lemma leafOf_congr {v w : U64} (h : pageNumber v = pageNumber w) (s : TableMem) (root : ℕ) :
    s.leafOf root v = s.leafOf root w := by
  obtain ⟨hpath, hidx⟩ := (pageNumber_eq_iff _ _).mp h
  rw [leafOf, leafOf, hpath, hidx]

end TableMem

/-- `Box::new(PageTable::new())` as far as addresses go: the new table is distinct from the existing
ones, page-aligned, not null, and below `2 ^ 48`.  `none` is the allocation error, which aborts. -/
structure BoxAllocator where
  new : List ℕ → Option ℕ
  fresh : ∀ live a, new live = some a → a ∉ live
  aligned : ∀ live a, new live = some a → a % 4096 = 0
  nonnull : ∀ live a, new live = some a → a ≠ 0
  low : ∀ live a, new live = some a → a < 2 ^ 48

/-- Tables one after another, from two megabytes on. -/
def bumpAddress (live : List ℕ) : Option ℕ :=
  (some (0x200000 + 4096 * live.length)).filter fun a => a ∉ live ∧ a < 2 ^ 48

lemma bumpAddress_spec {live : List ℕ} {a : ℕ} (h : bumpAddress live = some a) :
    a = 0x200000 + 4096 * live.length ∧ a ∉ live ∧ a < 2 ^ 48 := by
  rw [bumpAddress, Option.filter_eq_some_iff, Option.some.injEq, decide_eq_true_eq] at h
  exact ⟨h.1.symm, h.2⟩

/-- An allocator that meets the contract. -/
def bumpBox : BoxAllocator where
  new := bumpAddress
  fresh _ _ h := (bumpAddress_spec h).2.1
  aligned _ _ h := by have := (bumpAddress_spec h).1; omega
  nonnull _ _ h := by have := (bumpAddress_spec h).1; omega
  low _ _ h := (bumpAddress_spec h).2.2

/-- `Box::leak(Box::new(PageTable::new()))`: a new table, filled with empty entries. -/
def BoxAllocator.newTable (B : BoxAllocator) (s : TableMem) : Option (ℕ × TableMem) :=
  (B.new s.live).map fun a => (a, ⟨x86.zeroTable s.mem a, a :: s.live⟩)

/-! ## The operations -/

section Operations

variable (B : BoxAllocator) (pml4 : ℕ)

/-- `if !entry.present() { .. }`, the block that `map_page` repeats at the three upper levels:
link a new table under an entry that is not present. -/
def ensureTable (s : TableMem) (entry : ℕ) : Option TableMem :=
  if present (s.mem entry) then some s
  else
    (B.newTable s).map fun (a, s₁) =>
      s₁.write entry
        (setWritable true (setPresent true (setAddr (BitVec.ofNat 64 a) (s₁.mem entry))))

/-- The first part of `map_page`: the address of `pt_entry`, and the memory in which the tables
above it exist. -/
def mapPath (s : TableMem) (virt : U64) : Option (ℕ × TableMem) := do
  let pml4Entry := x86.slot pml4 (pml4Index virt)
  let s ← ensureTable B s pml4Entry
  let pdptEntry := x86.slot (s.tablePtr pml4Entry) (pdptIndex virt)
  let s ← ensureTable B s pdptEntry
  let pdEntry := x86.slot (s.tablePtr pdptEntry) (pdIndex virt)
  let s ← ensureTable B s pdEntry
  some (x86.slot (s.tablePtr pdEntry) (ptIndex virt), s)

/-- Make the tables that are missing, and write the entry. -/
def mapPage (s : TableMem) (virt phys flags : U64) : Option TableMem :=
  (mapPath B pml4 s virt).map fun (ptEntry, s₁) =>
    s₁.write ptEntry (leafEntry phys flags (s₁.mem ptEntry))

/-- `if !entry.present() { return .. }` followed by `&*(entry.addr() as *const PageTable)`. -/
def nextTable (e : PageTableEntry) : Option ℕ := if present e then some (addr e).toNat else none

/-- The walk shared by the operations that do not create tables: the address of `pt_entry`. -/
def walkPt (s : TableMem) (virt : U64) : Option ℕ := do
  let pdpt ← nextTable (s.mem (x86.slot pml4 (pml4Index virt)))
  let pd ← nextTable (s.mem (x86.slot pdpt (pdptIndex virt)))
  let pt ← nextTable (s.mem (x86.slot pd (pdIndex virt)))
  some (x86.slot pt (ptIndex virt))

/-- Change `pt_entry`, where there is one.  The translation look-aside buffer that
`flush_tlb_single` clears is not part of the state. -/
def editLeaf (s : TableMem) (virt : U64) (f : PageTableEntry → PageTableEntry) : TableMem :=
  match walkPt pml4 s virt with
  | none => s
  | some ptEntry => s.write ptEntry (f (s.mem ptEntry))

/-- The same behind `if !pt_entry.present() { return; }`. -/
def editPresentLeaf (s : TableMem) (virt : U64) (f : PageTableEntry → PageTableEntry) : TableMem :=
  editLeaf pml4 s virt fun e => if present e then f e else e

/-- Clear the flags of the entry. -/
def unmapPage (s : TableMem) (virt : U64) : TableMem := editLeaf pml4 s virt (setFlags 0#64)

/-- The address behind a virtual one. -/
def translateVirtToPhys (s : TableMem) (virt : U64) : Option U64 :=
  (walkPt pml4 s virt).bind fun ptEntry =>
    if present (s.mem ptEntry) then
      some ((addr (s.mem ptEntry) &&& ~~~0xFFF#64) ||| (virt &&& 0xFFF#64))
    else none

/-- The flags of a present page. -/
def getPageFlags (s : TableMem) (virt : U64) : Option U64 :=
  (walkPt pml4 s virt).bind fun ptEntry =>
    if present (s.mem ptEntry) then some (flags (s.mem ptEntry)) else none

/-- Set the flags of a present page. -/
def setPageFlags (s : TableMem) (virt flags : U64) : TableMem :=
  editPresentLeaf pml4 s virt (setFlags flags)

/-- Unmap, then map. -/
def remapPage (s : TableMem) (virt newPhys flags : U64) : Option TableMem :=
  mapPage B pml4 (unmapPage pml4 s virt) virt newPhys flags

/-- Set the Accessed bit. -/
def markPageAccessed (s : TableMem) (virt : U64) : TableMem :=
  editPresentLeaf pml4 s virt (setAccessed true)

/-- Set the Dirty bit. -/
def markPageDirty (s : TableMem) (virt : U64) : TableMem :=
  editPresentLeaf pml4 s virt (setDirty true)

/-- Present and writable, or just present: every other flag of the page is dropped. -/
def protectPage (s : TableMem) (virt : U64) (writable : Bool) : TableMem :=
  setPageFlags pml4 s virt (if writable then 3#64 else 1#64)

end Operations

/-! ## The kernel's reading of an entry -/

/-- What the kernel stores above the page tables: nothing, or a link to a table. -/
def IsTableEntry (e : PageTableEntry) : Prop :=
  e = empty ∨ ∃ a, a % 4096 = 0 ∧ a < 2 ^ 48 ∧ e = linkEntry a

lemma IsTableEntry.empty_of_not_present {e : PageTableEntry} (h : IsTableEntry e)
    (hp : present e = false) : e = empty := by
  rcases h with h | ⟨a, -, -, rfl⟩
  · exact h
  · rw [present_eq, getLsbD_linkEntry_of_lt_two a (by decide)] at hp
    exact absurd hp (by simp)

lemma IsTableEntry.link_of_present {e : PageTableEntry} (h : IsTableEntry e)
    (hp : present e = true) : ∃ a, a % 4096 = 0 ∧ a < 2 ^ 48 ∧ e = linkEntry a := by
  rcases h with rfl | h
  · exact absurd hp (by decide)
  · exact h

/-- Kernel and processor read the entries that the kernel stores alike. -/
lemma IsTableEntry.nextTable_eq {e : PageTableEntry} (h : IsTableEntry e) :
    nextTable e = hwNext e := by
  rcases h with rfl | ⟨a, hal, hlow, rfl⟩
  · rfl
  · have hp : present (linkEntry a) = true := by
      rw [present_eq]
      exact getLsbD_linkEntry_of_lt_two a (by decide)
    rw [hwNext_linkEntry hal hlow, nextTable, hp, if_pos rfl, addr_linkEntry hal hlow]

/-- The layout, with the kernel's reading of an entry. -/
def kernelFormat : RadixFormat (Fin 512) U64 :=
  { x86 with decode := nextTable, decode_zero := rfl }

lemma walkPt_eq_tableAt (pml4 : ℕ) (s : TableMem) (virt : U64) :
    walkPt pml4 s virt
      = (kernelFormat.tableAt s.mem pml4 (upperPath virt)).map
          fun t => x86.slot t (ptIndex virt) := by
  simp only [walkPt, upperPath, RadixFormat.tableAt, kernelFormat, Option.bind_eq_bind]
  cases nextTable (s.mem (x86.slot pml4 (pml4Index virt))) with
  | none => rfl
  | some pdpt =>
    simp only [Option.bind_some]
    cases nextTable (s.mem (x86.slot pdpt (pdptIndex virt))) with
    | none => rfl
    | some pd =>
      simp only [Option.bind_some]
      cases nextTable (s.mem (x86.slot pd (pdIndex virt))) <;> rfl

/-! ## Specifications -/

section Specs

variable {B : BoxAllocator} {Node : ℕ → U64 → Prop} {roots : Set ℕ} {pml4 : ℕ}

/-- The trees below `roots` are separate; `r` is the root of one of them, and above its page tables
it holds only entries of the kind `P`. -/
structure TreeIn (P : PageTableEntry → Prop) (Node : ℕ → U64 → Prop) (roots : Set ℕ) (r : ℕ)
    (s : TableMem) : Prop where
  forest : x86.Forest Node 3 roots s.live s.mem
  root : r ∈ roots
  entries : Node r = P

/-- The kernel's tree is one of several. -/
abbrev KernelForest (Node : ℕ → U64 → Prop) (roots : Set ℕ) (pml4 : ℕ) (s : TableMem) : Prop :=
  TreeIn IsTableEntry Node roots pml4 s

lemma TreeIn.node {P : PageTableEntry → Prop} {r t : ℕ} {s : TableMem}
    (hs : TreeIn P Node roots r s) {π : Path} (hlen : π.length < 3)
    (ht : x86.tableAt s.mem r π = some t) (i : Fin 512) : P (s.mem (x86.slot t i)) := by
  have := hs.forest.node r hs.root π t i hlen ht
  rwa [hs.entries] at this

/-- On the kernel's tree the kernel's walk is the processor's. -/
theorem walkPt_eq_hwLeafSlot {s : TableMem} (hs : KernelForest Node roots pml4 s) (virt : U64) :
    walkPt pml4 s virt = hwLeafSlot s.mem pml4 virt := by
  rw [walkPt_eq_tableAt, hwLeafSlot]
  congr 1
  refine x86.tableAt_congr_format (G := kernelFormat) rfl fun ρ i t hρ ht => ?_
  have hlt : ρ.length < 3 := by
    have := hρ.length_le
    simp only [List.length_append, List.length_singleton, upperPath_length] at this
    omega
  exact (hs.node hlt ht i).nextTable_eq

/-- `s'` has the same words at the ends of all paths as `s`. -/
def SameLeaves (roots : Set ℕ) (s s' : TableMem) : Prop :=
  ∀ r ∈ roots, ∀ π j, π.length = 3 → x86.leafWord s'.mem r π j = x86.leafWord s.mem r π j

lemma SameLeaves.trans {s₁ s₂ s₃ : TableMem} (h₁ : SameLeaves roots s₁ s₂)
    (h₂ : SameLeaves roots s₂ s₃) : SameLeaves roots s₁ s₃ :=
  fun r hr π j hπ => (h₂ r hr π j hπ).trans (h₁ r hr π j hπ)

/-- **A fresh table under an empty entry.**  The tree grows by the new table, and no bottom word
changes. -/
lemma TreeIn.link {P : PageTableEntry → Prop} {r t a : ℕ} {s : TableMem}
    (hs : TreeIn P Node roots r s) {π : Path} {i : Fin 512} (hlen : π.length < 3)
    (ht : x86.tableAt s.mem r π = some t) (hempty : s.mem (x86.slot t i) = empty)
    (hal : a % 4096 = 0) (hfresh : a ∉ s.live) {w : PageTableEntry} (hw : hwNext w = some a)
    (hPw : P w) (hPz : P empty) :
    TreeIn P Node roots r ⟨x86.linkTable s.mem (x86.slot t i) a w, a :: s.live⟩ ∧
      SameLeaves roots s ⟨x86.linkTable s.mem (x86.slot t i) a w, a :: s.live⟩ ∧
      x86.tableAt (x86.linkTable s.mem (x86.slot t i) a w) r (π ++ [i]) = some a := by
  have hnone : x86.decode (s.mem (x86.slot t i)) = none := by rw [hempty]; rfl
  have hnw : Node r w := by rw [hs.entries]; exact hPw
  have hnz : Node r x86.zero := by rw [hs.entries]; exact hPz
  refine ⟨⟨RadixFormat.Forest.link hs.forest hs.root hlen ht hal hfresh hw hnw hnz,
    hs.root, hs.entries⟩, ?_, ?_⟩
  · intro r' hr' π' j hπ'
    exact RadixFormat.leafWord_link hs.forest hs.root hlen ht hnone hal hfresh hw hr' hπ' j
  · exact RadixFormat.tableAt_link_self hs.forest hs.root hlen ht hal hfresh hw

/-- **One level of `map_page`.**  Afterwards the table below the entry exists, the entry's pointer
leads to it, and no bottom word has changed. -/
lemma ensureTable_spec {s s' : TableMem} (hs : KernelForest Node roots pml4 s) {t : ℕ}
    {π : Path} {i : Fin 512} (hlen : π.length < 3)
    (ht : x86.tableAt s.mem pml4 π = some t) (h : ensureTable B s (x86.slot t i) = some s') :
    KernelForest Node roots pml4 s' ∧ SameLeaves roots s s' ∧
      x86.tableAt s'.mem pml4 (π ++ [i]) = some (s'.tablePtr (x86.slot t i)) := by
  have hnode : IsTableEntry (s.mem (x86.slot t i)) := hs.node hlen ht i
  rw [ensureTable] at h
  cases hp : present (s.mem (x86.slot t i)) with
  | true =>
    rw [hp, if_pos rfl, Option.some.injEq] at h
    subst h
    obtain ⟨a, hal, hlow, he⟩ := hnode.link_of_present hp
    refine ⟨hs, fun _ _ _ _ _ => rfl, ?_⟩
    rw [RadixFormat.tableAt_snoc, ht, Option.bind_some, TableMem.tablePtr, he,
      addr_linkEntry hal hlow]
    exact hwNext_linkEntry hal hlow
  | false =>
    rw [hp, if_neg (by simp), BoxAllocator.newTable, Option.map_map, Option.map_eq_some_iff] at h
    obtain ⟨a, ha, rfl⟩ := h
    have hal := B.aligned _ _ ha
    have hlow := B.low _ _ ha
    have hfresh := B.fresh _ _ ha
    have he : s.mem (x86.slot t i) = empty := hnode.empty_of_not_present hp
    have htlive := hs.forest.table_live pml4 hs.root π t hlen.le ht
    have hkeep : x86.zeroTable s.mem a (x86.slot t i) = empty := by
      rw [RadixFormat.zeroTable_other hal (hs.forest.aligned t htlive) _ i, he]
      rintro rfl
      exact hfresh htlive
    have hmem : (Function.comp (fun x : ℕ × TableMem =>
          x.2.write (x86.slot t i) (setWritable true (setPresent true
            (setAddr (BitVec.ofNat 64 x.1) (x.2.mem (x86.slot t i))))))
          (fun a => (a, (⟨x86.zeroTable s.mem a, a :: s.live⟩ : TableMem)))) a
        = ⟨x86.linkTable s.mem (x86.slot t i) a (linkEntry a), a :: s.live⟩ := by
      simp only [Function.comp_apply, TableMem.write, hkeep, link_empty hal hlow]
      rfl
    obtain ⟨hs', hl, htab⟩ := hs.link hlen ht he hal hfresh (hwNext_linkEntry hal hlow)
      (Or.inr ⟨a, hal, hlow, rfl⟩) (Or.inl rfl)
    rw [hmem]
    refine ⟨hs', hl, ?_⟩
    rw [htab]
    simp only [TableMem.tablePtr, RadixFormat.linkTable, Function.update_self,
      addr_linkEntry hal hlow]

/-- **The tables above `pt_entry`.**  `map_page` finds or creates them without changing any bottom
word, and the entry it is about to write is the one at the end of the processor's walk. -/
lemma mapPath_spec {s s' : TableMem} (hs : KernelForest Node roots pml4 s) {virt : U64} {a : ℕ}
    (h : mapPath B pml4 s virt = some (a, s')) :
    KernelForest Node roots pml4 s' ∧ SameLeaves roots s s' ∧
      ∃ t, x86.tableAt s'.mem pml4 (upperPath virt) = some t ∧ a = x86.slot t (ptIndex virt) := by
  simp only [mapPath, Option.bind_eq_bind, Option.bind_eq_some_iff, Option.some.injEq,
    Prod.mk.injEq] at h
  obtain ⟨s₁, h₁, s₂, h₂, s₃, h₃, rfl, rfl⟩ := h
  obtain ⟨hs₁, hl₁, ht₁⟩ :=
    ensureTable_spec hs (show ([] : Path).length < 3 by decide) rfl h₁
  obtain ⟨hs₂, hl₂, ht₂⟩ := ensureTable_spec hs₁ (by simp) ht₁ h₂
  obtain ⟨hs₃, hl₃, ht₃⟩ := ensureTable_spec hs₂ (by simp) ht₂ h₃
  exact ⟨hs₃, (hl₁.trans hl₂).trans hl₃, _, ht₃, rfl⟩

/-- Writing the bottom entry of one page of one tree. -/
lemma TreeIn.writeLeaf {P : PageTableEntry → Prop} {r t : ℕ} {s : TableMem}
    (hs : TreeIn P Node roots r s) {virt : U64}
    (ht : x86.tableAt s.mem r (upperPath virt) = some t) (e : PageTableEntry) :
    TreeIn P Node roots r (s.write (x86.slot t (ptIndex virt)) e) ∧
      ∀ r' ∈ roots, ∀ v, (s.write (x86.slot t (ptIndex virt)) e).leafOf r' v
        = if r' = r ∧ pageNumber v = pageNumber virt then e else s.leafOf r' v := by
  refine ⟨⟨RadixFormat.Forest.write hs.forest hs.root rfl ht _ e, hs.root, hs.entries⟩, ?_⟩
  intro r' hr' v
  have hw := RadixFormat.leafWord_write hs.forest hs.root rfl ht (ptIndex virt) e hr'
    (upperPath_length v) (ptIndex v)
  rw [TableMem.leafOf, TableMem.write, hw, TableMem.leafOf]
  simp only [pageNumber_eq_iff]

/-- The entry at the end of a walk that succeeds is in memory where the walk says. -/
lemma leafOf_of_tableAt {s : TableMem} {r t : ℕ} {virt : U64}
    (ht : x86.tableAt s.mem r (upperPath virt) = some t) :
    s.leafOf r virt = s.mem (x86.slot t (ptIndex virt)) :=
  RadixFormat.leafWord_of_tableAt x86 ht _

/-- **`map_page` changes exactly the page of `virt`.** -/
theorem mapPage_spec {s s' : TableMem} (hs : KernelForest Node roots pml4 s)
    {virt phys flags : U64} (h : mapPage B pml4 s virt phys flags = some s') :
    KernelForest Node roots pml4 s' ∧
      ∀ r ∈ roots, ∀ v, s'.leafOf r v
        = if r = pml4 ∧ pageNumber v = pageNumber virt then
            leafEntry phys flags (s.leafOf pml4 virt)
          else s.leafOf r v := by
  rw [mapPage, Option.map_eq_some_iff] at h
  obtain ⟨⟨a, s₁⟩, h₁, rfl⟩ := h
  obtain ⟨hs₁, hl₁, t, ht, rfl⟩ := mapPath_spec hs h₁
  have hsame : ∀ r ∈ roots, ∀ v, s₁.leafOf r v = s.leafOf r v :=
    fun r hr v => hl₁ r hr _ _ (upperPath_length v)
  obtain ⟨hs₂, hl₂⟩ := hs₁.writeLeaf ht
    (leafEntry phys flags (s₁.mem (x86.slot t (ptIndex virt))))
  refine ⟨hs₂, fun r hr v => ?_⟩
  rw [hl₂ r hr v, ← leafOf_of_tableAt ht, hsame pml4 hs.root virt, hsame r hr v]

/-- **An edit of `pt_entry` changes exactly the page of `virt`**, provided that it leaves the empty
entry alone when there is no page table. -/
theorem editLeaf_spec {s : TableMem} (hs : KernelForest Node roots pml4 s) (virt : U64)
    (f : PageTableEntry → PageTableEntry) :
    KernelForest Node roots pml4 (editLeaf pml4 s virt f) ∧
      ∀ r ∈ roots, ∀ v, (editLeaf pml4 s virt f).leafOf r v
        = if r = pml4 ∧ pageNumber v = pageNumber virt ∧ (hwLeafSlot s.mem pml4 virt).isSome then
            f (s.leafOf pml4 virt)
          else s.leafOf r v := by
  have hwalk := walkPt_eq_hwLeafSlot hs virt
  rw [hwLeafSlot] at hwalk ⊢
  cases ht : x86.tableAt s.mem pml4 (upperPath virt) with
  | none =>
    rw [ht, Option.map_none] at hwalk
    simp only [editLeaf, hwalk]
    exact ⟨hs, by simp⟩
  | some t =>
    rw [ht, Option.map_some] at hwalk
    simp only [editLeaf, hwalk]
    obtain ⟨hs', hl⟩ := hs.writeLeaf ht (f (s.mem (x86.slot t (ptIndex virt))))
    refine ⟨hs', fun r hr v => ?_⟩
    rw [hl r hr v, leafOf_of_tableAt ht]
    simp

/-- The entry read at the end of a walk that finds no page table is empty. -/
lemma leafOf_of_no_table {s : TableMem} {r : ℕ} {virt : U64}
    (h : (hwLeafSlot s.mem r virt).isSome = false) : s.leafOf r virt = empty := by
  have ht : x86.tableAt s.mem r (upperPath virt) = none := by
    simpa [hwLeafSlot] using h
  exact RadixFormat.leafWord_of_none x86 ht _

/-- `translate_virt_to_phys` in terms of the bottom entry. -/
theorem translateVirtToPhys_eq {s : TableMem} (hs : KernelForest Node roots pml4 s) (virt : U64) :
    translateVirtToPhys pml4 s virt
      = if present (s.leafOf pml4 virt) then
          some ((addr (s.leafOf pml4 virt) &&& ~~~0xFFF#64) ||| (virt &&& 0xFFF#64))
        else none := by
  rw [translateVirtToPhys, walkPt_eq_hwLeafSlot hs, hwLeafSlot]
  cases ht : x86.tableAt s.mem pml4 (upperPath virt) with
  | none =>
    have hempty : s.leafOf pml4 virt = empty := RadixFormat.leafWord_of_none x86 ht _
    rw [hempty]
    rfl
  | some t => simp [leafOf_of_tableAt ht]

/-- `get_page_flags` in terms of the bottom entry. -/
theorem getPageFlags_eq {s : TableMem} (hs : KernelForest Node roots pml4 s) (virt : U64) :
    getPageFlags pml4 s virt
      = if present (s.leafOf pml4 virt) then some (flags (s.leafOf pml4 virt)) else none := by
  rw [getPageFlags, walkPt_eq_hwLeafSlot hs, hwLeafSlot]
  cases ht : x86.tableAt s.mem pml4 (upperPath virt) with
  | none =>
    have hempty : s.leafOf pml4 virt = empty := RadixFormat.leafWord_of_none x86 ht _
    rw [hempty]
    rfl
  | some t => simp [leafOf_of_tableAt ht]

end Specs

end Masika
