import Masika.Core.Bytes
import Masika.Core.Chains
import Masika.Core.Extents
import Masika.Core.Usize

/-!
# The kernel heap

The allocator of `memory/heap.rs`: 32 lists of free blocks, one for each power of two.  A free block
keeps its `FreeBlock`, 24 bytes with the pointer to the next one and the size, in its own memory, so
that the lists are whatever the bytes of the heap say; a pointer is null or an address, and
`Option<&mut FreeBlock>` is such a pointer.

`remove_best_fit` takes the first block that is large enough.  When it is larger than the request by
more than 32 bytes the rest becomes a block of its own, at `(curr as *mut FreeBlock).add(size)`:
this counts in units of `FreeBlock`, and so the rest begins `24 * size` bytes after the block.

`Partitioned` is what the heap is for: blocks in use and blocks in the lists do not overlap, and
each lies in one of the regions that the heap was given.
-/

namespace Masika

/-! ## The code -/

/-- `core::alloc::Layout`, with the conditions that `Layout::from_size_align` checks. -/
structure Layout where
  size : ℕ
  align : ℕ
  align_pow : ∃ k, align = 2 ^ k
  bounded : size + align ≤ 2 ^ 63
deriving DecidableEq

/-- `(layout.size().max(layout.align()) + 7) & !7`, which does not overflow. -/
def Layout.blockSize (l : Layout) : ℕ := (max l.size l.align + 7) / 8 * 8

/-- `(layout.size().max(layout.align()) + 4095) & !4095`, which does not overflow. -/
def Layout.pagesSize (l : Layout) : ℕ := (max l.size l.align + 4095) / 4096 * 4096

/-- The heap and the memory it is in.  `regions`, which the code does not have, are the blocks of
memory that it has been given. -/
structure Heap where
  mem : ℕ → U8
  heads : Fin 32 → ℕ
  totalBytes : ℕ
  usedBytes : ℕ
  pagesAllocated : ℕ
  initialized : Bool
  regions : List Extent

namespace Heap

/-- `Heap::new()`. -/
def new (mem : ℕ → U8) : Heap := ⟨mem, fun _ => 0, 0, 0, 0, false, []⟩

/-- `(*block).next`. -/
def next (h : Heap) (block : ℕ) : ℕ := loadBytes h.mem 8 block

/-- `(*block).size`. -/
def sizeAt (h : Heap) (block : ℕ) : ℕ := loadBytes h.mem 8 (block + 8)

/-- The pointer in a slot: the head of a list, or the link of a block. -/
def link (h : Heap) : Fin 32 ⊕ ℕ → ℕ := Sum.elim h.heads h.next

/-- Store a pointer where `link` reads it. -/
def setLink (h : Heap) : Fin 32 ⊕ ℕ → ℕ → Heap
  | .inl i, p => { h with heads := Function.update h.heads i p }
  | .inr block, p => { h with mem := storeBytes h.mem 8 block p }

/-- `63 - size.leading_zeros()` is the logarithm. -/
def getListIndex (size : ℕ) : Option (Fin 32) :=
  if size = 0 then none else some ⟨min (Nat.log2 size) 31, by omega⟩

/-- `FreeList::insert`: at the head of its list. -/
def insert (h : Heap) (ptr size : ℕ) : Heap :=
  match getListIndex size with
  | none => h
  | some index =>
    let h := h.setLink (.inr ptr) (h.heads index)
    let h := { h with mem := storeBytes (storeBytes h.mem 8 (ptr + 8) size) 1 (ptr + 16) 1 }
    h.setLink (.inl index) ptr

/-- `aligned_addr - addr`, where `aligned_addr = (addr + align - 1) & !(align - 1)`. -/
def offset (addr align : ℕ) : ℕ := wrapSub (wrap (addr + align - 1) / align * align) addr

/-- `offset + size <= curr.size`. -/
def fits (h : Heap) (size align curr : ℕ) : Bool :=
  decide (wrap (offset curr align + size) ≤ h.sizeAt curr)

/-- The two loops of `remove_best_fit`: the first block that is large enough, and the slot that
points to it.  A list with more blocks than there are addresses has a cycle. -/
def search (h : Heap) (size align : ℕ) : List (Fin 32) → Option (Option ((Fin 32 ⊕ ℕ) × ℕ))
  | [] => some none
  | i :: is =>
    match searchChain h.link 0 (h.fits size align) (2 ^ 64) (.inl i) with
    | none => none
    | some none => h.search size align is
    | some (some found) => some (some found)

/-- `let old = prev.take(); *prev = old.unwrap().next.take();`. -/
def takeOut (h : Heap) (prev : Fin 32 ⊕ ℕ) (curr : ℕ) : Heap :=
  let h := h.setLink prev 0
  let next := h.next curr
  (h.setLink (.inr curr) 0).setLink prev next

/-- `size_of::<FreeBlock>()`. -/
def FREE_BLOCK_SIZE : ℕ := 24

/-- `if curr.size > size + 32 { .. }`. -/
def splitOff (h : Heap) (curr size : ℕ) : Heap :=
  if h.sizeAt curr > size + 32 then
    let remainingSize := h.sizeAt curr - size
    if remainingSize ≥ 32 then h.insert (wrap (curr + FREE_BLOCK_SIZE * size)) remainingSize else h
  else h

/-- `target_index..MAX_FREE_LISTS`. -/
def listsFrom (size : ℕ) : List (Fin 32) :=
  (List.finRange 32).drop ((getListIndex size).elim 0 Fin.val)

/-- The first block that fits, without the rest that is split off. -/
def removeBestFit (h : Heap) (size align : ℕ) : Option (Option ℕ × Heap) :=
  (h.search size align (listsFrom size)).map fun
    | none => (none, h)
    | some (prev, curr) => (some curr, (h.takeOut prev curr).splitOff curr size)

/-- The heap gets its first region. -/
def init (h : Heap) (start size : ℕ) : Heap :=
  { h.insert start size with
    totalBytes := size
    initialized := true
    regions := ⟨start, size⟩ :: h.regions }

/-- A block of the lists, which is in use then. -/
def tryAllocFromFreeList (h : Heap) (layout : Layout) : Option (Option ℕ × Heap) :=
  (h.removeBestFit layout.blockSize layout.align).map fun
    | (none, h) => (none, h)
    | (some ptr, h) => (some ptr, { h with usedBytes := wrap (h.usedBytes + layout.blockSize) })

/-- `expand_heap`, when `alloc_pages` answers `pages`. -/
def expandHeap (h : Heap) (layout : Layout) (pages : Option ℕ) : Option (Option ℕ × Heap) :=
  match pages with
  | none => some (none, h)
  | some ptr =>
    let size := layout.pagesSize
    let numPages := (size + 4095) / 4096
    let h := { h with
      pagesAllocated := wrap (h.pagesAllocated + numPages)
      regions := ⟨ptr, numPages * 4096⟩ :: h.regions }
    let h := h.insert ptr size
    { h with totalBytes := wrap (h.totalBytes + size) }.tryAllocFromFreeList layout

/-- `alloc`; the null pointer is 0. -/
def alloc (h : Heap) (layout : Layout) (pages : Option ℕ) : Option (ℕ × Heap) :=
  if !h.initialized then some (0, h)
  else
    match h.tryAllocFromFreeList layout with
    | none => none
    | some (some ptr, h) => some (ptr, h)
    | some (none, h) => (h.expandHeap layout pages).map fun (ptr, h) => (ptr.getD 0, h)

/-- The block goes back to the lists. -/
def dealloc (h : Heap) (ptr : ℕ) (layout : Layout) : Heap :=
  if !h.initialized then h
  else
    { h with usedBytes := wrapSub h.usedBytes layout.blockSize }.insert ptr layout.blockSize

end Heap

/-! ## Runs -/

/-- The heap, and the blocks in use with the layouts they were asked for with. -/
structure HeapRun where
  heap : Heap
  live : List (ℕ × Layout)

/-- The calls, and a store by the owner of a block. -/
inductive HeapOp where
  | init (start size : ℕ)
  | alloc (layout : Layout) (pages : Option ℕ)
  | dealloc (ptr : ℕ) (layout : Layout)
  /-- the owner of a block stores a byte in it -/
  | store (addr : ℕ) (byte : U8)

/-- One call. -/
def heapStep (st : HeapRun) : HeapOp → Option HeapRun
  | .init start size => some { st with heap := st.heap.init start size }
  | .alloc layout pages =>
    (st.heap.alloc layout pages).map fun (ptr, h) =>
      if ptr = 0 then { st with heap := h } else ⟨h, (ptr, layout) :: st.live⟩
  | .dealloc ptr layout => some ⟨st.heap.dealloc ptr layout, st.live.erase (ptr, layout)⟩
  | .store addr byte =>
    some { st with heap := { st.heap with mem := Function.update st.heap.mem addr byte } }

/-- A region may be given to the heap: it does not wrap, and none of it has been given before. -/
def Fresh (h : Heap) (start size : ℕ) : Prop :=
  start + size ≤ 2 ^ 64 ∧ ∀ r ∈ h.regions, Disjoint (Extent.mk start size).frames r.frames

/-- What the callers, and `alloc_pages`, keep to. -/
def Allowed (st : HeapRun) : HeapOp → Prop
  | .init start size => Fresh st.heap start size
  | .alloc layout pages => ∀ p, pages = some p → Fresh st.heap p layout.pagesSize
  | .dealloc ptr layout => (ptr, layout) ∈ st.live
  | .store addr _ => ∃ b ∈ st.live, b.1 ≤ addr ∧ addr < b.1 + b.2.size

/-- The addresses of the blocks in each list. -/
abbrev BlockLists := Fin 32 → List ℕ

/-- The ranges in use, and the ranges of the blocks `L` of the lists. -/
def HeapRun.ranges (st : HeapRun) (L : BlockLists) : List Extent :=
  st.live.map (fun b => ⟨b.1, b.2.blockSize⟩) ++
    (List.finRange 32).flatMap fun i => (L i).map fun a => ⟨a, st.heap.sizeAt a⟩

/-- **What the heap is for.**  All ranges, used and free, are disjoint, and lie in its regions. -/
def Partitioned (st : HeapRun) : Prop :=
  ∃ L : BlockLists, (∀ i, Chain st.heap.link 0 (.inl i) (L i)) ∧
    Extent.Apart (st.ranges L) ∧
    ∀ e ∈ st.ranges L, ∃ r ∈ st.heap.regions, e.frames ⊆ r.frames

end Masika
