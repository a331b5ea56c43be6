import Masika.Core.Usize
import Masika.Memory.Virtual.Manager

/-!
# The operations on an address space

What `VirtualMemoryManager` does besides `map_page`: translating, unmapping and protecting pages,
answering page faults, and mapping fresh frames for a process.

* Frames for data come from `alloc_pages` like those for tables.  The list `live` of the memory
  contains both kinds here: it is the list of frames in use, and `alloc_pages` does not hand out one
  of them again.
* `alloc_pages(count)` for more than one frame is a parameter as well (`PageSource`); its frames are
  consecutive.
* Nothing in the file gives a frame back: `free_pages` is imported and never called.

Walks read entries through `is_unused` and `addr`.  On a tree that the manager has built they are
the processor's walks (`walkPte_eq_hwLeafSlot`), so that each operation can be specified by what it
does to the words at the ends of the paths.
-/

namespace Masika

open PageTableEntry

/-! ## What is missing from the repository -/

/-- The rest of `PageEntry`: `flags` reads bits 0 to 11, `update_flags` replaces them and keeps the
address, `set_unused` clears the entry. -/
structure PageEntryOps extends PageEntryApi where
  flags : U64 → U64
  /-- `entry.update_flags(flags)`, given the entry it changes -/
  updateFlags : U64 → U64 → U64
  setUnused : U64 → U64
  flags_eq : ∀ e, flags e = e &&& 0xFFF#64
  updateFlags_flags : ∀ flags e j, j < 12 → (updateFlags flags e).getLsbD j = flags.getLsbD j
  updateFlags_addr : ∀ flags e, hwAddr (updateFlags flags e) = hwAddr e
  setUnused_eq : ∀ e, setUnused e = 0#64

instance : Coe PageEntryOps PageEntryApi := ⟨PageEntryOps.toPageEntryApi⟩

/-- The entries of `plainPageEntry`, with these operations. -/
def plainEntryOps : PageEntryOps where
  toPageEntryApi := plainPageEntry
  flags e := e &&& 0xFFF#64
  updateFlags flags e := hwAddr e ||| (flags &&& 0xFFF#64)
  setUnused _ := 0#64
  flags_eq _ := rfl
  updateFlags_flags flags e := plainPageEntry.set_flags e flags e
  updateFlags_addr flags e := plainPageEntry.hwAddr_set e flags e
  setUnused_eq _ := rfl

/-- `alloc_pages`, given the frames in use: one frame, or `count` consecutive ones. -/
structure PageSource extends FrameAllocator where
  newRun : List ℕ → ℕ → Option ℕ
  run_fresh : ∀ live count a, newRun live count = some a → ∀ i < count, a + 4096 * i ∉ live
  run_aligned : ∀ live count a, newRun live count = some a → a % 4096 = 0
  run_low : ∀ live count a, newRun live count = some a → a + 4096 * count ≤ 2 ^ 52

instance : Coe PageSource FrameAllocator := ⟨PageSource.toFrameAllocator⟩

/-! ## Walks -/

/-- `if entry.is_unused() { return .. }` followed by `PhysAddr(entry.addr()).as_ptr()`. -/
def vmmNext (E : PageEntryApi) (e : U64) : Option ℕ :=
  if E.isUnused e then none else some (E.addr e).toNat

/-- The state of an address space: the manager and the memory it works on. -/
abbrev VmmState := VirtualMemoryManager × TableMem

/-- What a call returns and leaves behind. -/
abbrev VmmAnswer (α : Type) := Except VmmError α × VmmState

namespace VirtualMemoryManager

/-- The first user address. -/
def USER_SPACE_BASE : U64 := 0x100000#64

/-- The end of user space. -/
def USER_SPACE_END : U64 := 0x0000800000000000#64

/-- The walk that all operations but `map_page` share: the address of `pte`. -/
def walkPte (E : PageEntryApi) (vmm : VirtualMemoryManager) (s : TableMem) (virt : U64) :
    Option ℕ := do
  let pdpt ← vmmNext E (s.mem (x86.slot vmm.pml4 (pml4Index virt)))
  let pd ← vmmNext E (s.mem (x86.slot pdpt (pdptIndex virt)))
  let pt ← vmmNext E (s.mem (x86.slot pd (pdIndex virt)))
  some (x86.slot pt (ptIndex virt))

/-- The frame of a page. -/
def translate (E : PageEntryApi) (vmm : VirtualMemoryManager) (s : TableMem) (virt : U64) :
    Option U64 :=
  (walkPte E vmm s virt).bind fun pte =>
    if E.isUnused (s.mem pte) then none else some (E.addr (s.mem pte))

section Operations

variable (E : PageEntryOps)

/-! ## Single pages -/

/-- `map_kernel_page` repeats the text of `map_page`. -/
def mapKernelPage (A : FrameAllocator) (vmm : VirtualMemoryManager) (s : TableMem)
    (virt phys flags : U64) : VmmAnswer Unit :=
  vmm.mapPage E A s virt phys flags

/-- Clear the entry of a page. -/
def unmapPage (vmm : VirtualMemoryManager) (s : TableMem) (virt : U64) : VmmAnswer Unit :=
  match walkPte E vmm s virt with
  | none => (.error .invalidAddress, vmm, s)
  | some pte =>
    if E.isUnused (s.mem pte) then (.ok (), vmm, s)
    else
      (.ok (), { vmm with pageCount := vmm.pageCount - 1#64 },
        s.write pte (E.setUnused (s.mem pte)))

/-- `if !pte.is_unused() { .. }` at the end of a walk; nothing when a table is missing. -/
def editUsed (vmm : VirtualMemoryManager) (s : TableMem) (virt : U64) (f : U64 → U64) : TableMem :=
  match walkPte E vmm s virt with
  | none => s
  | some pte => if E.isUnused (s.mem pte) then s else s.write pte (f (s.mem pte))

/-- Not present, and marked. -/
def markPageCow (vmm : VirtualMemoryManager) (s : TableMem) (addr : U64) : TableMem :=
  editUsed E vmm s addr fun pte => E.updateFlags (E.flags pte &&& ~~~0x01#64 ||| 0x20#64) pte

/-- The mark is there and means something. -/
def isCowPage (vmm : VirtualMemoryManager) (s : TableMem) (addr : U64) : Bool :=
  vmm.cowEnabled &&
    match walkPte E vmm s addr with
    | none => false
    | some pte => E.flags (s.mem pte) &&& 0x20#64 != 0#64

/-! ## Ranges -/

/-- `(size + 0xFFF) / 0x1000`. -/
def pagesOf (size : U64) : ℕ := wrap (size.toNat + 0xFFF) / 0x1000

/-- `start + i * 0x1000`. -/
def pageAddr (start : U64) (i : ℕ) : U64 := start + BitVec.ofNat 64 i * 0x1000#64

/-- `for i in .. { body(i)?; }`: the rounds `i`, `i + 1`, .., `left` of them, up to the first that
fails. -/
def forPages (body : ℕ → VmmState → VmmAnswer Unit) :
    ℕ → ℕ → VmmState → VmmAnswer Unit
  | 0, _, st => (.ok (), st)
  | left + 1, i, st =>
    match body i st with
    | (.error e, st) => (.error e, st)
    | (.ok (), st) => forPages body left (i + 1) st

/-- Rounds that cannot fail. -/
def protectMemory (vmm : VirtualMemoryManager) (s : TableMem) (start size flags : U64) :
    VmmAnswer Unit :=
  (.ok (), vmm, (List.range (pagesOf size)).foldl
    (fun s i => editUsed E vmm s (pageAddr start i) (E.updateFlags flags)) s)

/-- Page by page. -/
def unmapRange (vmm : VirtualMemoryManager) (s : TableMem) (start size : U64) : VmmAnswer Unit :=
  forPages (fun i (vmm, s) => vmm.unmapPage E s (pageAddr start i)) (pagesOf size) 0 (vmm, s)

/-- `munmap` repeats the text of `unmap_range`. -/
def munmap (vmm : VirtualMemoryManager) (s : TableMem) (addr length : U64) : VmmAnswer Unit :=
  vmm.unmapRange E s addr length

/-! ## Page faults -/

/-- `copy_nonoverlapping` of one frame to another. -/
def copyFrame (mem : ℕ → U64) (src dst : ℕ) : ℕ → U64 :=
  fun x => if x86.inTable dst x then mem (src + (x - dst)) else mem x

/-- `alloc_pages(1).ok_or(VmmError::OutOfMemory)?`, and what happens next. -/
def withFrame (A : FrameAllocator) (vmm : VirtualMemoryManager) (s : TableMem)
    (next : ℕ → TableMem → VmmAnswer Unit) : VmmAnswer Unit :=
  match A.new s.live with
  | none => (.error .outOfMemory, vmm, s)
  | some frame => next frame ⟨s.mem, frame :: s.live⟩

/-- A frame from `alloc_pages(1)`, mapped at `virt`. -/
def mapFresh (A : FrameAllocator) (vmm : VirtualMemoryManager) (s : TableMem) (virt flags : U64) :
    VmmAnswer Unit :=
  withFrame A vmm s fun frame s =>
    vmm.mapPage E A s virt (BitVec.ofNat 64 frame) flags

/-- A new frame with the contents of the old one. -/
def handleCowFault (A : FrameAllocator) (vmm : VirtualMemoryManager) (s : TableMem) (addr : U64) :
    VmmAnswer Unit :=
  withFrame A vmm s fun frame s =>
    match vmm.translate E s addr with
    | none => (.error .invalidAddress, vmm, s)
    | some oldPhys =>
      match vmm.mapPage E A s addr (BitVec.ofNat 64 frame) 0x07#64 with
      | (.error e, st) => (.error e, st)
      | (.ok (), vmm, s) => (.ok (), vmm, ⟨copyFrame s.mem oldPhys.toNat frame, s.live⟩)

/-- A missing page gets a frame; a marked one is copied. -/
def handlePageFault (A : FrameAllocator) (vmm : VirtualMemoryManager) (s : TableMem)
    (addr errorCode : U64) : VmmAnswer Unit :=
  let vaddr := addr &&& ~~~0xFFF#64
  if errorCode &&& 0x01#64 = 0#64 then mapFresh E A vmm s vaddr 0x03#64
  else if errorCode &&& 0x02#64 ≠ 0#64 ∧ vmm.isCowPage E s vaddr then
    handleCowFault E A vmm s vaddr
  else (.error .accessDenied, vmm, s)

/-! ## Memory for processes -/

/-- Both ends are between the bounds. -/
def validateUserRange (start len : U64) : Bool :=
  let stop := start + len
  if stop.toNat ≥ USER_SPACE_END.toNat ∨ start.toNat ≥ USER_SPACE_END.toNat then false
  else if start.toNat < USER_SPACE_BASE.toNat then false
  else true

/-- None of `count` pages from `base` on is mapped. -/
def rangeFree (vmm : VirtualMemoryManager) (s : TableMem) (base : U64) (count : ℕ) : Bool :=
  (List.range count).all fun i => (vmm.translate E s (pageAddr base i)).isNone

/-- The loop of `find_free_virtual_range`; `none` when it has not come back after `fuel` rounds. -/
def findLoop (vmm : VirtualMemoryManager) (s : TableMem) (count : ℕ) :
    ℕ → U64 → Option (Except VmmError U64)
  | 0, _ => none
  | fuel + 1, base =>
    if base.toNat ≥ USER_SPACE_END.toNat then some (.error .outOfMemory)
    else if vmm.rangeFree E s base count then some (.ok base)
    else findLoop vmm s count fuel ((base + 0x1000#64) &&& ~~~0xFFF#64)

/-- The number of page boundaries of user space, which is how many rounds there can be. -/
def USER_SPACE_PAGES : ℕ := (USER_SPACE_END.toNat - USER_SPACE_BASE.toNat) / 0x1000

/-- `find_free_virtual_range`.  With this many rounds the loop always comes back. -/
def findFreeVirtualRange (vmm : VirtualMemoryManager) (s : TableMem) (count : ℕ) :
    Except VmmError U64 :=
  (vmm.findLoop E s count (USER_SPACE_PAGES + 1) USER_SPACE_BASE).getD (.error .outOfMemory)

/-- The loop that both branches of `mmap` contain. -/
def mmapPages (A : FrameAllocator) (vmm : VirtualMemoryManager) (s : TableMem) (start : U64)
    (pages : ℕ) (prot : U64) : VmmAnswer U64 :=
  match forPages (fun i (vmm, s) => mapFresh E A vmm s (pageAddr start i) prot) pages 0
    (vmm, s) with
  | (.error e, st) => (.error e, st)
  | (.ok (), st) => (.ok start, st)

/-- `mmap`; its `flags` are not used. -/
def mmap (A : FrameAllocator) (vmm : VirtualMemoryManager) (s : TableMem)
    (addr length prot _flags : U64) : VmmAnswer U64 :=
  let pages := pagesOf length
  if addr ≠ 0#64 then
    if ¬ validateUserRange addr length then (.error .invalidAddress, vmm, s)
    else mmapPages E A vmm s addr pages prot
  else
    match vmm.findFreeVirtualRange E s pages with
    | .error e => (.error e, vmm, s)
    | .ok mappedAddr => mmapPages E A vmm s mappedAddr pages prot

/-- The `count` frames from `a` on. -/
def framesFrom (a count : ℕ) : List ℕ := (List.range count).map fun i => a + 4096 * i

/-- Frames first, then a place for them. -/
def allocateUserPages (A : PageSource) (vmm : VirtualMemoryManager) (s : TableMem) (count : ℕ)
    (flags : U64) : VmmAnswer U64 :=
  match A.newRun s.live count with
  | none => (.error .outOfMemory, vmm, s)
  | some frames =>
    let s : TableMem := ⟨s.mem, framesFrom frames count ++ s.live⟩
    match vmm.findFreeVirtualRange E s count with
    | .error e => (.error e, vmm, s)
    | .ok startVaddr =>
      match forPages (fun i (vmm, s) =>
          vmm.mapPage E A s (pageAddr startVaddr i)
            (pageAddr (BitVec.ofNat 64 frames) i) flags) count 0 (vmm, s) with
      | (.error e, st) => (.error e, st)
      | (.ok (), st) => (.ok startVaddr, st)

end Operations

end VirtualMemoryManager

/-! ## The manager's reading of an entry -/

/-- The layout, with the manager's reading of an entry. -/
def vmmFormat (E : PageEntryApi) : RadixFormat (Fin 512) U64 :=
  { kernelFormat with
    decode := vmmNext E, decode_zero := by simp [vmmNext, E.isUnused_eq, kernelFormat, x86] }

@[simp] lemma vmmFormat_slot (E : PageEntryApi) : (vmmFormat E).slot = x86.slot := rfl

@[simp] lemma vmmFormat_decode (E : PageEntryApi) : (vmmFormat E).decode = vmmNext E := rfl

/-- The manager follows a link. -/
lemma vmmNext_vmmLink (E : PageEntryApi) {a : ℕ} (hal : a % 4096 = 0) (hlow : a < 2 ^ 52)
    (e : U64) : vmmNext E (E.set (BitVec.ofNat 64 a) 0x03#64 e) = some a := by
  have hused : E.isUnused (E.set (BitVec.ofNat 64 a) 0x03#64 e) = false := by
    rw [E.isUnused_eq, beq_eq_false_iff_ne]
    intro hzero
    have hnext := hwNext_vmmLink E hal hlow e
    rw [hzero, show hwNext 0#64 = none from rfl] at hnext
    cases hnext
  rw [vmmNext, hused, if_neg (by simp), vmmLink_addr E hal hlow]

/-- Manager and processor read the entries that the manager stores alike. -/
lemma IsVmmEntry.vmmNext_eq {E : PageEntryApi} {e : U64} (h : IsVmmEntry E e) :
    vmmNext E e = hwNext e := by
  rcases h with rfl | ⟨a, hal, hlow, rfl⟩
  · simp [vmmNext, E.isUnused_eq, show hwNext 0#64 = none from rfl]
  · rw [hwNext_vmmLink E hal hlow, vmmNext_vmmLink E hal hlow]

/-- Both walk a tree of the manager in the same way. -/
lemma vmmFormat_tableAt {E : PageEntryApi} {Node : ℕ → U64 → Prop} {roots : Set ℕ} {r : ℕ}
    {s : TableMem} (hs : VmmForest E Node roots r s) {π : Path}
    (hlen : π.length ≤ 3) : (vmmFormat E).tableAt s.mem r π = x86.tableAt s.mem r π := by
  refine x86.tableAt_congr_format (G := vmmFormat E) rfl fun ρ i t hρ ht => ?_
  have hlt : ρ.length < 3 := by
    have := hρ.length_le
    simp only [List.length_append, List.length_singleton] at this
    omega
  exact (hs.node hlt ht i).vmmNext_eq

/-- An entry with a frame is used. -/
lemma ne_zero_of_hwAddr {e : U64} (h : hwAddr e ≠ 0#64) : e ≠ 0#64 := by
  rintro rfl
  exact h rfl

/-- More frames come into use. -/
lemma TreeIn.addLive {P : PageTableEntry → Prop} {Node : ℕ → U64 → Prop} {roots : Set ℕ} {r : ℕ}
    {s : TableMem} (hs : TreeIn P Node roots r s) (frames : List ℕ)
    (hal : ∀ f ∈ frames, f % 4096 = 0) : TreeIn P Node roots r ⟨s.mem, frames ++ s.live⟩ := by
  refine ⟨⟨fun t ht => ?_, fun r hr π t hπ ht => ?_, hs.forest.unshared, hs.forest.node⟩, hs.root,
    hs.entries⟩
  · rcases List.mem_append.mp ht with ht | ht
    · exact hal t ht
    · exact hs.forest.aligned t ht
  · exact List.mem_append_right _ (hs.forest.table_live r hr π t hπ ht)

/-! ## The frames that are handed out -/

/-- Every frame that `A` hands out from now on holds zeros. -/
def Clean (A : FrameAllocator) (s : TableMem) : Prop := ∀ n, ZeroFor A s n

section Clean

variable {A : FrameAllocator} {s : TableMem} {a : ℕ}

lemma Clean.next (h : Clean A s) (ha : A.new s.live = some a) (i : Fin 512) :
    s.mem (x86.slot a i) = 0#64 :=
  (h 1).next ha i

lemma Clean.take (h : Clean A s) (ha : A.new s.live = some a) : Clean A ⟨s.mem, a :: s.live⟩ := by
  intro n b hb
  exact h (n + 1) b (by rw [handedOut_succ ha]; exact List.mem_cons_of_mem a hb)

/-- Writes to frames in use do not matter. -/
lemma Clean.write (h : Clean A s) (hal : ∀ t ∈ s.live, t % 4096 = 0) {t : ℕ} (ht : t ∈ s.live)
    (i : Fin 512) (e : U64) : Clean A (s.write (x86.slot t i) e) := by
  intro n b hb j
  obtain ⟨hfresh, hbal⟩ := handedOut_spec hb
  rw [← h n b hb j]
  refine Function.update_of_ne (fun hslot => hfresh ?_) _ _
  obtain ⟨rfl, -⟩ := x86.slot_eq hbal (hal t ht) hslot
  exact ht

end Clean

/-- `A` has `n` more frames to hand out. -/
def Supplies (A : FrameAllocator) (live : List ℕ) (n : ℕ) : Prop := (handedOut A live n).length = n

instance (A : FrameAllocator) (live : List ℕ) (n : ℕ) : Decidable (Supplies A live n) :=
  inferInstanceAs (Decidable (_ = _))

lemma Supplies.next {A : FrameAllocator} {live : List ℕ} {n : ℕ} (h : Supplies A live (n + 1)) :
    ∃ a, A.new live = some a ∧ Supplies A (a :: live) n := by
  rw [Supplies, handedOut] at h
  cases hnew : A.new live with
  | none => simp [hnew] at h
  | some a =>
    simp only [hnew, List.length_cons, Nat.add_right_cancel_iff] at h
    exact ⟨a, rfl, h⟩

lemma Supplies.mono {A : FrameAllocator} {n : ℕ} : ∀ {live : List ℕ} {m : ℕ},
    Supplies A live m → n ≤ m → Supplies A live n := by
  induction n with
  | zero => exact fun _ _ => rfl
  | succ n ih =>
    intro live m h hle
    obtain ⟨m, rfl⟩ : ∃ k, m = k + 1 := ⟨m - 1, by omega⟩
    obtain ⟨a, ha, hrest⟩ := h.next
    rw [Supplies, handedOut_succ ha, List.length_cons, ih hrest (by omega)]

/-- `mem'` holds the same words as `s` in all frames in use. -/
def AgreesInUse (s : TableMem) (mem' : ℕ → U64) : Prop :=
  ∀ t ∈ s.live, ∀ i, mem' (x86.slot t i) = s.mem (x86.slot t i)

namespace VirtualMemoryManager

lemma walkPte_eq_tableAt (E : PageEntryApi) (vmm : VirtualMemoryManager) (s : TableMem)
    (virt : U64) :
    vmm.walkPte E s virt
      = ((vmmFormat E).tableAt s.mem vmm.pml4 (upperPath virt)).map
          fun t => x86.slot t (ptIndex virt) := by
  simp only [walkPte, upperPath, RadixFormat.tableAt, vmmFormat_slot, vmmFormat_decode,
    Option.bind_eq_bind]
  cases vmmNext E (s.mem (x86.slot vmm.pml4 (pml4Index virt))) with
  | none => rfl
  | some pdpt =>
    simp only [Option.bind_some]
    cases vmmNext E (s.mem (x86.slot pdpt (pdptIndex virt))) with
    | none => rfl
    | some pd =>
      simp only [Option.bind_some]
      cases vmmNext E (s.mem (x86.slot pd (pdIndex virt))) <;> rfl

section Specs

variable {E : PageEntryApi} {Node : ℕ → U64 → Prop} {roots : Set ℕ}
  {vmm : VirtualMemoryManager} {s : TableMem}

/-- **On its own tree the manager's walk is the processor's.** -/
theorem walkPte_eq_hwLeafSlot (hs : VmmForest E Node roots vmm.pml4 s) (virt : U64) :
    vmm.walkPte E s virt = hwLeafSlot s.mem vmm.pml4 virt := by
  rw [walkPte_eq_tableAt, hwLeafSlot, vmmFormat_tableAt hs (upperPath_length virt).le]

/-- The frame behind a bottom entry. -/
def mappedFrame (e : U64) : Option U64 := if e = 0#64 then none else some (hwAddr e)

@[simp] lemma mappedFrame_zero : mappedFrame 0#64 = none := rfl

lemma mappedFrame_of_ne {e : U64} (h : e ≠ 0#64) : mappedFrame e = some (hwAddr e) := if_neg h

lemma mappedFrame_eq_none {e : U64} : mappedFrame e = none ↔ e = 0#64 := by
  by_cases h : e = 0#64 <;> simp [mappedFrame, h]

/-- **`translate` in terms of the bottom entry.** -/
theorem translate_eq (hs : VmmForest E Node roots vmm.pml4 s) (virt : U64) :
    vmm.translate E s virt = mappedFrame (s.leafOf vmm.pml4 virt) := by
  rw [translate, walkPte_eq_hwLeafSlot hs, hwLeafSlot]
  cases ht : x86.tableAt s.mem vmm.pml4 (upperPath virt) with
  | none =>
    rw [show s.leafOf vmm.pml4 virt = 0#64 from RadixFormat.leafWord_of_none x86 ht _]
    rfl
  | some t => simp [leafOf_of_tableAt ht, mappedFrame, E.isUnused_eq, E.addr_eq]

/-- What a walk finds: no table, hence an empty entry, or the bottom entry. -/
lemma walkPte_cases (hs : VmmForest E Node roots vmm.pml4 s) (virt : U64) :
    (vmm.walkPte E s virt = none ∧ s.leafOf vmm.pml4 virt = 0#64) ∨
      ∃ t, x86.tableAt s.mem vmm.pml4 (upperPath virt) = some t ∧
        vmm.walkPte E s virt = some (x86.slot t (ptIndex virt)) ∧
        s.leafOf vmm.pml4 virt = s.mem (x86.slot t (ptIndex virt)) := by
  rw [walkPte_eq_hwLeafSlot hs, hwLeafSlot]
  cases ht : x86.tableAt s.mem vmm.pml4 (upperPath virt) with
  | none => exact .inl ⟨rfl, RadixFormat.leafWord_of_none x86 ht _⟩
  | some t => exact .inr ⟨t, rfl, rfl, leafOf_of_tableAt ht⟩

/-- `s'` differs from `s` at most in the bottom entry of the page of `virt`, which is `e`. -/
structure LeafSet (roots : Set ℕ) (r : ℕ) (virt e : U64) (s s' : TableMem) : Prop where
  leaf : ∀ r' ∈ roots, ∀ v, s'.leafOf r' v
    = if r' = r ∧ pageNumber v = pageNumber virt then e else s.leafOf r' v
  live : s'.live = s.live
  tables : ∀ r' ∈ roots, ∀ π : Path, π.length ≤ 3 →
    x86.tableAt s'.mem r' π = x86.tableAt s.mem r' π
  data : ∀ d ∈ s.live, ¬ IsTable roots s d →
    ∀ i, s'.mem (x86.slot d i) = s.mem (x86.slot d i)

/-- Leaving everything as it is sets the entry to what it was. -/
lemma LeafSet.refl (roots : Set ℕ) (r : ℕ) (virt : U64) (s : TableMem) :
    LeafSet roots r virt (s.leafOf r virt) s s := by
  refine ⟨fun r' _ v => ?_, rfl, fun _ _ _ _ => rfl, fun _ _ _ _ => rfl⟩
  split_ifs with h
  · obtain ⟨rfl, hpage⟩ := h
    exact TableMem.leafOf_congr hpage s r'
  · rfl

lemma LeafSet.write {P : PageTableEntry → Prop} {r t : ℕ} (hs : TreeIn P Node roots r s)
    {virt : U64} (ht : x86.tableAt s.mem r (upperPath virt) = some t) (e : U64) :
    TreeIn P Node roots r (s.write (x86.slot t (ptIndex virt)) e) ∧
      LeafSet roots r virt e s (s.write (x86.slot t (ptIndex virt)) e) := by
  obtain ⟨hs', hleaf⟩ := hs.writeLeaf ht e
  refine ⟨hs', hleaf, rfl, fun r' hr' π hπ => ?_, fun d hd hdata i => ?_⟩
  · exact RadixFormat.tableAt_write hs.forest hs.root rfl ht _ e hr' hπ
  · refine Function.update_of_ne (fun hslot => hdata ?_) _ _
    have htlive := hs.forest.table_live r hs.root _ t le_rfl ht
    obtain ⟨rfl, -⟩ := x86.slot_eq (hs.forest.aligned d hd) (hs.forest.aligned t htlive) hslot
    exact ⟨r, hs.root, upperPath virt, le_rfl, ht⟩

/-- A write at the bottom makes and removes no table. -/
lemma LeafSet.isTable {r : ℕ} {virt e : U64} {s' : TableMem} (h : LeafSet roots r virt e s s')
    (t : ℕ) : IsTable roots s' t ↔ IsTable roots s t := by
  constructor
  · rintro ⟨r', hr', π, hπ, ht⟩
    exact ⟨r', hr', π, hπ, by rw [← h.tables r' hr' π hπ]; exact ht⟩
  · rintro ⟨r', hr', π, hπ, ht⟩
    exact ⟨r', hr', π, hπ, by rw [h.tables r' hr' π hπ]; exact ht⟩

end Specs

section Loops

variable {body : ℕ → VmmState → VmmAnswer Unit} {count : ℕ}

lemma forPages_one (i : ℕ) (st : VmmState) : forPages body 1 i st = body i st := by
  simp only [forPages]
  rcases body i st with ⟨_ | _, st'⟩ <;> rfl

/-- A loop whose rounds all succeed. -/
lemma forPages_ok {I : ℕ → VmmState → Prop}
    (hbody : ∀ i < count, ∀ st, I i st → ∃ st', body i st = (.ok (), st') ∧ I (i + 1) st') :
    ∀ {left i : ℕ} {st : VmmState}, i + left = count → I i st →
      ∃ st', forPages body left i st = (.ok (), st') ∧ I count st' := by
  intro left
  induction left with
  | zero =>
    intro i st hi h
    rw [Nat.add_zero] at hi
    exact ⟨st, rfl, hi ▸ h⟩
  | succ left ih =>
    intro i st hi h
    obtain ⟨st', hst', h'⟩ := hbody i (by omega) st h
    rw [forPages, hst']
    exact ih (by omega) h'

/-- A loop whose rounds do nothing. -/
lemma forPages_idle {st : VmmState} (hbody : ∀ i < count, (body i st).2 = st) :
    ∀ {left i : ℕ}, i + left = count → (forPages body left i st).2 = st := by
  intro left
  induction left with
  | zero => exact fun _ => rfl
  | succ left ih =>
    intro i hi
    have hround := hbody i (by omega)
    rw [forPages]
    generalize body i st = result at hround
    obtain ⟨_ | _, next⟩ := result
    · exact hround
    · obtain rfl : next = st := hround
      exact ih (by omega)

end Loops

section Ranges

variable {E : PageEntryOps} {vmm : VirtualMemoryManager} {s : TableMem}

lemma toNat_pageAddr (start : U64) (i : ℕ) :
    (pageAddr start i).toNat = (start.toNat + 4096 * i) % 2 ^ 64 := by
  rw [pageAddr, BitVec.toNat_add, BitVec.toNat_mul, BitVec.toNat_ofNat,
    show (0x1000#64).toNat = 4096 from rfl]
  omega

/-- The frames of a run. -/
lemma pageAddr_ofNat (a i : ℕ) :
    pageAddr (BitVec.ofNat 64 a) i = BitVec.ofNat 64 (a + 4096 * i) := by
  apply BitVec.eq_of_toNat_eq
  rw [toNat_pageAddr, BitVec.toNat_ofNat, BitVec.toNat_ofNat]
  omega

/-- The pages of a range are different ones. -/
lemma pageNumber_pageAddr_ne (start : U64) {i j count : ℕ} (hcount : count ≤ 2 ^ 36)
    (hi : i < count) (hj : j < count) (hij : i ≠ j) :
    pageNumber (pageAddr start i) ≠ pageNumber (pageAddr start j) := by
  rw [pageNumber, pageNumber, ne_eq, ← BitVec.toNat_inj, BitVec.extractLsb'_toNat,
    BitVec.extractLsb'_toNat, Nat.shiftRight_eq_div_pow, Nat.shiftRight_eq_div_pow, toNat_pageAddr,
    toNat_pageAddr]
  omega

lemma rangeFree_iff {Node : ℕ → U64 → Prop} {roots : Set ℕ}
    (hs : VmmForest E Node roots vmm.pml4 s) (base : U64) (count : ℕ) :
    vmm.rangeFree E s base count = true ↔
      ∀ i < count, s.leafOf vmm.pml4 (pageAddr base i) = 0#64 := by
  simp only [rangeFree, List.all_eq_true, List.mem_range, Option.isNone_iff_eq_none,
    translate_eq hs, mappedFrame_eq_none]

/-- The loop answers with a range that is free. -/
lemma rangeFree_of_findLoop {count fuel : ℕ} : ∀ {base found : U64},
    vmm.findLoop E s count fuel base = some (.ok found) →
      vmm.rangeFree E s found count = true := by
  induction fuel with
  | zero => exact fun h => nomatch h
  | succ fuel ih =>
    intro base found h
    rw [findLoop] at h
    split_ifs at h with hend hfree
    · cases h
    · cases h
      exact hfree
    · exact ih h

/-- The search answers with a range that is free. -/
lemma rangeFree_of_found {count : ℕ} {found : U64}
    (h : vmm.findFreeVirtualRange E s count = .ok found) :
    vmm.rangeFree E s found count = true := by
  rw [findFreeVirtualRange] at h
  cases hloop : vmm.findLoop E s count (USER_SPACE_PAGES + 1) USER_SPACE_BASE with
  | none =>
    rw [hloop] at h
    cases h
  | some answer =>
    rw [hloop, Option.getD_some] at h
    exact rangeFree_of_findLoop (hloop.trans (congrArg some h))

/-- The search only depends on what is translated. -/
lemma findFreeVirtualRange_congr {s' : TableMem} (h : ∀ v, vmm.translate E s' v
    = vmm.translate E s v) (count : ℕ) :
    vmm.findFreeVirtualRange E s' count = vmm.findFreeVirtualRange E s count := by
  have hloop : ∀ fuel base,
      vmm.findLoop E s' count fuel base = vmm.findLoop E s count fuel base := by
    intro fuel
    induction fuel with
    | zero => exact fun _ => rfl
    | succ fuel ih =>
      intro base
      have hfree : vmm.rangeFree E s' base count = vmm.rangeFree E s base count := by
        simp only [rangeFree, h]
      rw [findLoop, findLoop, hfree, ih]
  rw [findFreeVirtualRange, findFreeVirtualRange, hloop]

/-- Rounding down leaves a page boundary in place. -/
lemma and_not_mask_of_aligned {x : U64} (hal : x.toNat % 4096 = 0) : x &&& ~~~0xFFF#64 = x := by
  apply BitVec.eq_of_toNat_eq
  rw [toNat_and_not_flagMask]
  omega

lemma pageAddr_succ (base : U64) (k : ℕ) :
    pageAddr base (k + 1) = pageAddr (base + 0x1000#64) k := by
  apply BitVec.eq_of_toNat_eq
  rw [toNat_pageAddr, toNat_pageAddr, BitVec.toNat_add, show (0x1000#64).toNat = 4096 from rfl]
  omega

/-- **The search finds a range when there is one.** -/
lemma findLoop_of_free {count fuel : ℕ} : ∀ {base : U64} {k : ℕ}, base.toNat % 4096 = 0 →
    base.toNat + 4096 * k < USER_SPACE_END.toNat → k < fuel →
    vmm.rangeFree E s (pageAddr base k) count = true →
    ∃ found, vmm.findLoop E s count fuel base = some (.ok found) := by
  induction fuel with
  | zero => exact fun _ _ hk => absurd hk (Nat.not_lt_zero _)
  | succ fuel ih =>
    intro base k hal hend hk hfree
    have hlimit : USER_SPACE_END.toNat = 2 ^ 47 := rfl
    rw [findLoop, if_neg (by omega)]
    split_ifs with hhere
    · exact ⟨base, rfl⟩
    · -- the free range is not this one, so it lies ahead
      obtain ⟨k, rfl⟩ : ∃ m, k = m + 1 := by
        refine ⟨k - 1, ?_⟩
        have hne : k ≠ 0 := by
          rintro rfl
          exact hhere (by simpa [pageAddr] using hfree)
        omega
      have hnext : (base + 0x1000#64).toNat = base.toNat + 4096 := by
        rw [BitVec.toNat_add, show (0x1000#64).toNat = 4096 from rfl]
        omega
      rw [pageAddr_succ] at hfree
      rw [and_not_mask_of_aligned (by omega)]
      exact ih (by omega) (by omega) (by omega) hfree

/-- `find_free_virtual_range` finds a range when one begins at a page boundary of user space. -/
lemma findFreeVirtualRange_of_free {count k : ℕ} (hk : k < USER_SPACE_PAGES)
    (hfree : vmm.rangeFree E s (pageAddr USER_SPACE_BASE k) count = true) :
    ∃ found, vmm.findFreeVirtualRange E s count = .ok found := by
  have hpages : USER_SPACE_BASE.toNat + 4096 * USER_SPACE_PAGES = USER_SPACE_END.toNat := by decide
  obtain ⟨found, hfound⟩ : ∃ found,
      vmm.findLoop E s count (USER_SPACE_PAGES + 1) USER_SPACE_BASE = some (.ok found) :=
    findLoop_of_free (by decide) (by omega) (by omega) hfree
  exact ⟨found, by rw [findFreeVirtualRange, hfound, Option.getD_some]⟩

end Ranges

section Answers

variable (E : PageEntryOps) (vmm : VirtualMemoryManager) (s : TableMem)

/-- The answer of the loop, with the address in place of `()`. -/
lemma mmapPages_eq (A : FrameAllocator) (start : U64) (pages : ℕ) (prot : U64) :
    mmapPages E A vmm s start pages prot =
      let r := forPages (fun i (vmm, s) => mapFresh E A vmm s (pageAddr start i) prot) pages 0
        (vmm, s)
      (r.1.map fun _ => start, r.2) := by
  rw [mmapPages]
  rcases forPages (fun i (vmm, s) => mapFresh E A vmm s (pageAddr start i) prot) pages 0 (vmm, s)
    with ⟨_ | _, st⟩ <;> rfl

lemma allocateUserPages_eq (A : PageSource) (count : ℕ) (flags : U64) {frames : ℕ}
    (h : A.newRun s.live count = some frames) :
    vmm.allocateUserPages E A s count flags =
      let s : TableMem := ⟨s.mem, framesFrom frames count ++ s.live⟩
      match vmm.findFreeVirtualRange E s count with
      | .error e => (.error e, vmm, s)
      | .ok start =>
        let r := forPages (fun i (vmm, s) =>
          vmm.mapPage E A s (pageAddr start i)
            (pageAddr (BitVec.ofNat 64 frames) i) flags) count 0 (vmm, s)
        (r.1.map fun _ => start, r.2) := by
  simp only [allocateUserPages, h]
  cases vmm.findFreeVirtualRange E ⟨s.mem, framesFrom frames count ++ s.live⟩ count with
  | error e => rfl
  | ok start =>
    simp only
    rcases forPages (fun i (vmm, s) =>
      vmm.mapPage E A s (pageAddr start i)
        (pageAddr (BitVec.ofNat 64 frames) i) flags) count 0
      (vmm, ⟨s.mem, framesFrom frames count ++ s.live⟩) with ⟨_ | _, st⟩ <;> rfl

variable {E vmm s}

/-- Without a frame nothing happens. -/
lemma mapFresh_of_none {A : FrameAllocator} (hnew : A.new s.live = none) (virt flags : U64) :
    (mapFresh E A vmm s virt flags).2 = (vmm, s) := by
  rw [mapFresh, withFrame, hnew]

lemma framesFrom_aligned {A : PageSource} {live : List ℕ} {count frames : ℕ}
    (h : A.newRun live count = some frames) : ∀ f ∈ framesFrom frames count, f % 4096 = 0 := by
  intro f hf
  have hal := A.run_aligned _ _ _ h
  obtain ⟨i, -, rfl⟩ := List.mem_map.mp hf
  omega

end Answers

section OpSpecs

variable {E : PageEntryOps} {Node : ℕ → U64 → Prop} {roots : Set ℕ}
  {vmm : VirtualMemoryManager} {s : TableMem}

/-- **Editing a used entry** changes the page of `virt`, if it is mapped, and nothing else. -/
theorem editUsed_spec (hs : VmmForest E Node roots vmm.pml4 s) (virt : U64) (f : U64 → U64) :
    VmmForest E Node roots vmm.pml4 (vmm.editUsed E s virt f) ∧
      LeafSet roots vmm.pml4 virt
        (if s.leafOf vmm.pml4 virt = 0#64 then 0#64 else f (s.leafOf vmm.pml4 virt)) s
        (vmm.editUsed E s virt f) := by
  rcases walkPte_cases hs virt with ⟨hwalk, hleaf⟩ | ⟨t, ht, hwalk, hleaf⟩
  · have hsame : vmm.editUsed E s virt f = s := by rw [editUsed, hwalk]
    rw [hsame, if_pos hleaf, ← hleaf]
    exact ⟨hs, .refl ..⟩
  · simp only [editUsed, hwalk, E.isUnused_eq, beq_iff_eq, ← hleaf]
    split_ifs with hzero
    · have hset := LeafSet.refl roots vmm.pml4 virt s
      rw [hzero] at hset
      exact ⟨hs, hset⟩
    · exact LeafSet.write hs ht _

/-- **`unmap_page`** clears the entry of the page.  When it fails there was none. -/
theorem unmapPage_spec (hs : VmmForest E Node roots vmm.pml4 s) (virt : U64) :
    (vmm.unmapPage E s virt).2.1.pml4 = vmm.pml4 ∧
      VmmForest E Node roots vmm.pml4 (vmm.unmapPage E s virt).2.2 ∧
      LeafSet roots vmm.pml4 virt 0#64 s (vmm.unmapPage E s virt).2.2 ∧
      ∀ e, (vmm.unmapPage E s virt).1 = .error e → s.leafOf vmm.pml4 virt = 0#64 := by
  have hset := LeafSet.refl roots vmm.pml4 virt s
  rcases walkPte_cases hs virt with ⟨hwalk, hleaf⟩ | ⟨t, ht, hwalk, hleaf⟩
  · rw [hleaf] at hset
    simp only [unmapPage, hwalk]
    exact ⟨trivial, hs, hset, fun _ _ => hleaf⟩
  · simp only [unmapPage, hwalk, E.isUnused_eq, beq_iff_eq, ← hleaf]
    split_ifs with hzero
    · rw [hzero] at hset
      exact ⟨rfl, hs, hset, fun _ _ => hzero⟩
    · obtain ⟨hs', hset'⟩ := LeafSet.write hs ht 0#64
      rw [E.setUnused_eq]
      exact ⟨rfl, hs', hset', fun _ h => nomatch h⟩

/-- Where nothing is mapped, `unmap_page` does nothing. -/
lemma unmapPage_of_unused (hs : VmmForest E Node roots vmm.pml4 s)
    {virt : U64} (hfree : s.leafOf vmm.pml4 virt = 0#64) :
    (vmm.unmapPage E s virt).2 = (vmm, s) := by
  rcases walkPte_cases hs virt with ⟨hwalk, -⟩ | ⟨t, ht, hwalk, hleaf⟩
  · rw [unmapPage, hwalk]
  · rw [hleaf] at hfree
    simp only [unmapPage, hwalk, E.isUnused_eq, hfree, beq_self_eq_true, if_true]

end OpSpecs

/-! ## New address spaces -/

/-- A cleared top table is a tree. -/
lemma treeIn_of_zero (E : PageEntryApi) {s : TableMem} {r : ℕ} (hal : ∀ t ∈ s.live, t % 4096 = 0)
    (hr : r ∈ s.live) (hzero : ∀ i, s.mem (x86.slot r i) = 0#64) : OwnTree E r s := by
  refine ⟨RadixFormat.Forest.init hal ?_ ?_ fun _ _ => .inl rfl, rfl, rfl⟩
  · rintro _ rfl
    exact hr
  · rintro _ rfl i
    exact hzero i

/-- Nothing is mapped below a cleared top table. -/
lemma leafOf_of_zero {s : TableMem} {r : ℕ} (hzero : ∀ i, s.mem (x86.slot r i) = 0#64) (v : U64) :
    s.leafOf r v = 0#64 := by
  refine RadixFormat.leafWord_of_none x86 ?_ _
  rw [upperPath, RadixFormat.tableAt, hzero]
  rfl

/-- A new address space in a memory full of zeros, with its top table at 0x200000. -/
def emptySpace : VmmState := (⟨0x200000, 0#64, true⟩, ⟨fun _ => 0#64, [0x200000]⟩)

lemma emptySpace_tree (E : PageEntryApi) : OwnTree E 0x200000 emptySpace.2 :=
  treeIn_of_zero E (by simp [emptySpace]) (List.mem_singleton_self _) fun _ => rfl

end VirtualMemoryManager

end Masika
