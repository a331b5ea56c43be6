import Masika.Memory.Heap.Reserved

/-!
# Headers fit

The calls of the allocator, made where nothing else is reserved (`Orderly`).  A request is served
from the block that is `Chosen`, and can end in four ways (`Requested`); each is a list of entries
in the books.  `ReservedApart.alloc`, `ReservedApart.dealloc` and `ReservedApart.init` say so.

`headers_fit` is the first use: the `FreeBlock` of every block in the lists lies in the block, if
only blocks with room for it are given back.
-/

namespace Masika

open Heap

/-! ## Requests -/

/-- The block `y`, of `size` bytes, can be handed out: its bytes are not reserved for anything else
and, if it is split, neither is the place at which the rest is put. -/
structure Fitting (reserved : List Extent) (layout : Layout) (y size : ℕ) : Prop where
  bound : y + layout.blockSize ≤ 2 ^ 64
  clear : ∀ e ∈ others reserved y, Disjoint (Extent.mk y layout.blockSize).frames e.frames
  rest : size > layout.blockSize + 32 →
    ClearHeader (⟨y, layout.blockSize⟩ :: others reserved y) (wrap (y + 24 * layout.blockSize))

/-- The block that a request is served from, and its size: the first one in the lists that fits or,
if there is none, the pages that the heap is given. -/
inductive Chosen (h : Heap) (L : BlockLists) (layout : Layout) (pages : Option ℕ) :
    ℕ → ℕ → Prop
  | fromLists {y : ℕ} (hfind : h.firstFit L layout = some y) :
      Chosen h L layout pages y (h.sizeAt y)
  | fromPages {p : ℕ} (hfind : h.firstFit L layout = none) (hpages : pages = some p)
      (hroom : wrap (offset p layout.align + layout.blockSize) ≤ layout.pagesSize) :
      Chosen h L layout pages p layout.pagesSize

/-- The run after a request that has been answered with `ptr`. -/
def HeapRun.answered (st : HeapRun) (layout : Layout) (ptr : ℕ) (h : Heap) : HeapRun :=
  if ptr = 0 then { st with heap := h } else ⟨h, (ptr, layout) :: st.live⟩

@[simp] lemma HeapRun.answered_heap (st : HeapRun) (layout : Layout) (ptr : ℕ) (h : Heap) :
    (st.answered layout ptr h).heap = h := by
  rw [answered]
  split_ifs <;> rfl

/-- What a request can lead to: the pointer, the regions, and the entries in the books. -/
inductive Requested (h : Heap) (L : BlockLists) (layout : Layout) (pages : Option ℕ) :
    ℕ → List Extent → List Entry → Prop
  | refused : Requested h L layout pages 0 h.regions []
  | taken {y : ℕ} (hzero : y ≠ 0) (hfind : h.firstFit L layout = some y) :
      Requested h L layout pages y h.regions [.taken layout.blockSize (h.sizeAt y)]
  | grown {p : ℕ} (hzero : p ≠ 0) (hpages : pages = some p) :
      Requested h L layout pages 0 (⟨p, layout.pagesSize⟩ :: h.regions) [.grown layout.pagesSize]
  | grownTaken {p : ℕ} (hzero : p ≠ 0) (hpages : pages = some p)
      (hchosen : Chosen h L layout pages p layout.pagesSize) :
      Requested h L layout pages p (⟨p, layout.pagesSize⟩ :: h.regions)
        [.grown layout.pagesSize, .taken layout.blockSize layout.pagesSize]

section Requests

variable {st : HeapRun} {L L' : BlockLists} {layout : Layout} {y : ℕ}

lemma Fitting.mono {reserved reserved' : List Extent} {size : ℕ}
    (hfit : Fitting reserved layout y size)
    (hsub : others reserved' y ⊆ others reserved y) : Fitting reserved' layout y size where
  bound := hfit.bound
  clear e he := hfit.clear e (hsub he)
  rest hsplit := (hfit.rest hsplit).mono (List.cons_subset_cons _ hsub)

lemma Heap.mem_blocks_of_firstFit {h : Heap} (hfind : h.firstFit L layout = some y) :
    y ∈ blocks L := by
  obtain ⟨i, -, hy⟩ := List.mem_flatMap.mp (List.mem_of_find?_eq_some hfind)
  exact mem_blocks.mpr ⟨i, hy⟩

namespace ReservedApart

/-- The rest of a block that is split becomes a block of its own. -/
lemma splitOff (hs : ReservedApart st L) (y size : ℕ)
    (hrest : st.heap.sizeAt y > size + 32 → ClearHeader (st.reserved L) (wrap (y + 24 * size))) :
    ∃ L', ReservedApart { st with heap := st.heap.splitOff y size } L' ∧
      (st.heap.splitOff y size).freeSizes L' =
        (if st.heap.sizeAt y > size + 32 then (st.heap.sizeAt y - size) ::ₘ st.heap.freeSizes L
          else st.heap.freeSizes L) ∧
      SameAccount st.heap (st.heap.splitOff y size) := by
  rw [Heap.splitOff]
  split_ifs with hsplit
  · have hlt := st.heap.sizeAt_lt y
    simp only
    rw [if_pos (by omega)]
    obtain ⟨L', hL'⟩ :=
      hs.insert (hrest hsplit) (n := st.heap.sizeAt y - size) (by omega) (by omega)
    exact ⟨L', hL'.sound, hL'.freeSizes, insert_account _ _ _⟩
  · exact ⟨L, hs, rfl, rfl, rfl, rfl, rfl⟩

/-- **`remove_best_fit`**, when the first block that fits can be handed out. -/
lemma removeBestFit (hs : ReservedApart st L) (hfit : ∀ y, st.heap.firstFit L layout = some y →
      Fitting (st.reserved L) layout y (st.heap.sizeAt y)) :
    (st.heap.removeBestFit layout.blockSize layout.align = some (none, st.heap) ∧
        st.heap.firstFit L layout = none) ∨
      ∃ y h' L', st.heap.removeBestFit layout.blockSize layout.align = some (some y, h') ∧
        st.heap.firstFit L layout = some y ∧ y ≠ 0 ∧ ReservedApart ⟨h', (y, layout) :: st.live⟩ L' ∧
        h'.freeSizes L' =
          ((st.heap.books L).post (.taken layout.blockSize (st.heap.sizeAt y))).free ∧
        SameAccount st.heap h' := by
  rw [Heap.removeBestFit]
  rcases search_eq hs.linked.chain (hs.linked.length_lt hs.places) layout.blockSize layout.align
      (listsFrom layout.blockSize) with
    ⟨hsearch, hfind⟩ | ⟨i, pre, y, post, hi, hfind, hsearch⟩
  · rw [hsearch]
    exact .inl ⟨rfl, hfind⟩
  · rw [hsearch]
    obtain ⟨hbound, hclear, hrest⟩ := hfit y hfind
    have hy : y ∈ blocks L := mem_blocks_of_firstFit hfind
    have hzero := (hs.bound _ (mem_reserved_header hy)).1
    obtain ⟨L₁, hs₁, hblocks, hsizes⟩ := hs.takeOut hi
    -- what stays reserved when the `FreeBlock` of `y` is gone
    have hothers : HeapRun.reserved ⟨st.heap, st.live⟩ L₁ ⊆ others (st.reserved L) y :=
      fun e he => hs.mem_others (reserved_perm hblocks) he
    have hheld := hs₁.hold hzero hbound fun e he => hclear e (hothers he)
    obtain ⟨L', hs', hfree, haccount⟩ := hheld.splitOff y layout.blockSize fun hsplit =>
      (hrest (by rwa [hsizes y hy] at hsplit)).mono (List.cons_subset_cons _ hothers)
    refine .inr ⟨y, _, L', rfl, hfind, hzero, hs', ?_, (takeOut_account _ _ _).trans haccount⟩
    have hmid : st.heap.freeSizes L = st.heap.sizeAt y ::ₘ
        (st.heap.takeOut (slotAfter (.inl i) pre) y).freeSizes L₁ := by
      have hmap := Multiset.coe_eq_coe.mpr
        (hblocks.map (st.heap.takeOut (slotAfter (.inl i) pre) y).sizeAt)
      rw [List.map_congr_left hsizes, List.map_cons, hsizes y hy] at hmap
      exact hmap
    rw [hfree, hsizes y hy, Books.post, Heap.books, hmid, Multiset.erase_cons_head]

/-- `try_alloc_from_free_list`. -/
lemma tryAlloc (hs : ReservedApart st L) (hfit : ∀ y, st.heap.firstFit L layout = some y →
      Fitting (st.reserved L) layout y (st.heap.sizeAt y)) :
    (st.heap.tryAllocFromFreeList layout = some (none, st.heap) ∧
        st.heap.firstFit L layout = none) ∨
      ∃ y h' L', st.heap.tryAllocFromFreeList layout = some (some y, h') ∧
        st.heap.firstFit L layout = some y ∧ y ≠ 0 ∧ ReservedApart ⟨h', (y, layout) :: st.live⟩ L' ∧
        h'.books L' = (st.heap.books L).post (.taken layout.blockSize (st.heap.sizeAt y)) ∧
        h'.initialized = st.heap.initialized ∧ h'.regions = st.heap.regions := by
  rw [Heap.tryAllocFromFreeList]
  rcases hs.removeBestFit hfit with
    ⟨hremove, hfind⟩ | ⟨y, h', L', hremove, hfind, hzero, hs', hfree, haccount⟩
  · rw [hremove]
    exact .inl ⟨rfl, hfind⟩
  · rw [hremove]
    exact .inr ⟨y, _, L', rfl, hfind, hzero, hs'.congr rfl fun _ _ => rfl,
      books_eq hfree (congrArg (fun used => wrap (used + layout.blockSize)) haccount.used)
        haccount.total, haccount.initialized, haccount.regions⟩

/-- **`expand_heap`**, when nothing in the lists fits and there is room for the new `FreeBlock`. -/
lemma expandHeap (hs : ReservedApart st L) (hfind : st.heap.firstFit L layout = none) {p : ℕ}
    (hclear : ClearHeader (st.reserved L) p)
    (hfit : wrap (offset p layout.align + layout.blockSize) ≤ layout.pagesSize →
      Fitting (st.reserved L) layout p layout.pagesSize) :
    ∃ ptr h' L' entries, st.heap.expandHeap layout (some p) = some (ptr, h') ∧
      Requested st.heap L layout (some p) (ptr.getD 0) h'.regions entries ∧
      ReservedApart (st.answered layout (ptr.getD 0) h') L' ∧
      h'.books L' = entries.foldl Books.post (st.heap.books L) ∧
      h'.initialized = st.heap.initialized := by
  obtain ⟨-, hroom, hlt, hround⟩ := layout.le_pagesSize
  rw [Heap.expandHeap]
  simp only [hround]
  set h₀ : Heap := { st.heap with
    pagesAllocated := wrap (st.heap.pagesAllocated + (layout.pagesSize + 4095) / 4096)
    regions := ⟨p, layout.pagesSize⟩ :: st.heap.regions } with hh₀
  set h₁ : Heap := { h₀.insert p layout.pagesSize with
    totalBytes := wrap ((h₀.insert p layout.pagesSize).totalBytes + layout.pagesSize) } with hh₁
  have hs₀ : ReservedApart { st with heap := h₀ } L := hs.congr rfl fun _ _ => rfl
  obtain ⟨L₁, hin⟩ := hs₀.insert (n := layout.pagesSize) hclear (by omega) hlt
  have hs₁ : ReservedApart { st with heap := h₁ } L₁ := hin.sound.congr rfl fun _ _ => rfl
  obtain ⟨htotal, hused, hinit, hregions⟩ := insert_account h₀ p layout.pagesSize
  have hbooks : h₁.books L₁ = (st.heap.books L).post (.grown layout.pagesSize) :=
    books_eq hin.freeSizes hused (congrArg (fun total => wrap (total + layout.pagesSize)) htotal)
  -- the pages are the only block that can fit
  have hfirst : ∀ y, h₁.firstFit L₁ layout = some y →
      y = p ∧ h₁.sizeAt y = layout.pagesSize ∧
        wrap (offset p layout.align + layout.blockSize) ≤ layout.pagesSize := by
    intro y hy
    refine found_eq_new (h := st.heap) (L := L) (fun i b hb => ?_) hfind hy
    rcases hin.members i b hb with rfl | hold
    · exact .inl ⟨rfl, hin.size⟩
    · exact .inr ⟨hold, hin.sizes b (mem_blocks.mpr ⟨i, hold⟩)⟩
  have hothers : others (HeapRun.reserved { st with heap := h₁ } L₁) p ⊆
      others (st.reserved L) p := by
    intro e he
    obtain ⟨he, hne⟩ := Masika.mem_others.mp he
    rcases List.mem_cons.mp ((reserved_perm (h := st.heap) hin.blocks).mem_iff.mp he) with rfl | he
    · exact absurd rfl hne
    · exact Masika.mem_others.mpr ⟨he, hne⟩
  have hfit₁ : ∀ y, h₁.firstFit L₁ layout = some y →
      Fitting (HeapRun.reserved { st with heap := h₁ } L₁) layout y (h₁.sizeAt y) := by
    intro y hy
    obtain ⟨rfl, hsize, hfits⟩ := hfirst y hy
    rw [hsize]
    exact (hfit hfits).mono hothers
  rcases hs₁.tryAlloc hfit₁ with
    ⟨htry, -⟩ | ⟨y, h', L', htry, hy, hzero, hs', hbooks', hinit', hregions'⟩
  · refine ⟨none, h₁, L₁, [.grown layout.pagesSize], htry, ?_, hs₁, hbooks, hinit⟩
    change Requested st.heap L layout (some p) 0 (h₀.insert p layout.pagesSize).regions _
    rw [hregions]
    exact .grown hclear.1 rfl
  · obtain ⟨rfl, hsize, hfits⟩ := hfirst y hy
    refine ⟨some y, h', L', [.grown layout.pagesSize, .taken layout.blockSize layout.pagesSize],
      htry, ?_, ?_, ?_, hinit'.trans hinit⟩
    · rw [hregions']
      change Requested st.heap L layout (some y) y (h₀.insert y layout.pagesSize).regions _
      rw [hregions]
      exact .grownTaken hzero rfl (.fromPages hfind rfl hfits)
    · rw [Option.getD_some, HeapRun.answered, if_neg hzero]
      exact hs'
    · rw [hbooks', hsize, hbooks]
      rfl

/-- **A request.** -/
lemma alloc (hs : ReservedApart st L) (hinit : st.heap.initialized = true) {pages : Option ℕ}
    (hfit : ∀ y size, Chosen st.heap L layout pages y size →
      Fitting (st.reserved L) layout y size)
    (hclear : st.heap.firstFit L layout = none → ∀ p, pages = some p →
      ClearHeader (st.reserved L) p) :
    ∃ ptr h' L' entries, st.heap.alloc layout pages = some (ptr, h') ∧
      Requested st.heap L layout pages ptr h'.regions entries ∧
      ReservedApart (st.answered layout ptr h') L' ∧
      h'.books L' = entries.foldl Books.post (st.heap.books L) ∧ h'.initialized = true := by
  rw [Heap.alloc, hinit]
  simp only [Bool.not_true, Bool.false_eq_true, if_false]
  rcases hs.tryAlloc fun y hy => hfit y _ (.fromLists hy) with
    ⟨htry, hfind⟩ | ⟨y, h', L', htry, hy, hzero, hs', hbooks, hinit', hregions⟩
  · rw [htry]
    cases pages with
    | none => exact ⟨0, st.heap, L, [], rfl, .refused, hs, rfl, hinit⟩
    | some p =>
      obtain ⟨ptr, h', L', entries, hexpand, hreq, hs', hbooks, hinit'⟩ :=
        hs.expandHeap hfind (hclear hfind p rfl) fun hroom =>
          hfit p _ (.fromPages hfind rfl hroom)
      exact ⟨ptr.getD 0, h', L', entries, by simp only [hexpand, Option.map_some], hreq, hs',
        hbooks, hinit'.trans hinit⟩
  · rw [htry]
    refine ⟨y, h', L', [.taken layout.blockSize (st.heap.sizeAt y)], rfl, ?_, ?_, hbooks,
      hinit'.trans hinit⟩
    · rw [hregions]
      exact .taken hzero hy
    · rw [HeapRun.answered, if_neg hzero]
      exact hs'

/-- A block is given back. -/
lemma dealloc (hs : ReservedApart st L) (hinit : st.heap.initialized = true) {ptr : ℕ}
    (hlive : (ptr, layout) ∈ st.live)
    (hclear : layout.blockSize < 24 → ClearHeader (others (st.reserved L) ptr) ptr) :
    ∃ L', ReservedApart ⟨st.heap.dealloc ptr layout, st.live.erase (ptr, layout)⟩ L' ∧
      (st.heap.dealloc ptr layout).books L' =
        (st.heap.books L).post (.returned layout.blockSize) ∧
      (st.heap.dealloc ptr layout).regions = st.heap.regions ∧
      (st.heap.dealloc ptr layout).initialized = true := by
  obtain ⟨hp, hs₀⟩ := hs.release hlive
  obtain ⟨hzero, hbound⟩ := hs.bound _ (mem_reserved_live (L := L) hlive)
  have hpos := layout.blockSize_pos
  have hlt : layout.blockSize < 2 ^ 64 := by
    simp only at hzero hbound
    omega
  have hheader : ClearHeader (HeapRun.reserved ⟨st.heap, st.live.erase (ptr, layout)⟩ L) ptr := by
    by_cases hsmall : layout.blockSize < 24
    · exact (hclear hsmall).mono fun e he => hs.mem_others hp he
    · -- the `FreeBlock` lies in the block
      simp only at hbound
      refine ⟨hzero, by omega, fun e he => ?_⟩
      refine Finset.disjoint_of_subset_left (fun x hx => ?_) (hs.disjoint_rest hp he)
      rw [Extent.mem_frames] at hx ⊢
      simp only at hx ⊢
      omega
  set h₀ : Heap := { st.heap with usedBytes := wrapSub st.heap.usedBytes layout.blockSize } with hh₀
  have hs₁ : ReservedApart ⟨h₀, st.live.erase (ptr, layout)⟩ L := hs₀.congr rfl fun _ _ => rfl
  obtain ⟨L', hin⟩ := hs₁.insert (n := layout.blockSize) hheader (by omega) hlt
  obtain ⟨htotal, hused, hinit', hregions⟩ := insert_account h₀ ptr layout.blockSize
  have hdealloc : st.heap.dealloc ptr layout = h₀.insert ptr layout.blockSize := by
    rw [Heap.dealloc, if_neg (by rw [hinit]; decide)]
  rw [hdealloc]
  exact ⟨L', hin.sound, books_eq hin.freeSizes hused htotal, hregions, hinit'.trans hinit⟩

/-- A region is given to the heap. -/
lemma init (hs : ReservedApart st L) {start size : ℕ} (hbound : start + size ≤ 2 ^ 64)
    (hclear : size ≠ 0 → ClearHeader (st.reserved L) start) :
    ∃ L', ReservedApart { st with heap := st.heap.init start size } L' ∧
      (st.heap.init start size).books L' = (st.heap.books L).post (.opened size) := by
  have hused := (insert_account st.heap start size).used
  by_cases hsize : size = 0
  · subst hsize
    exact ⟨L, hs.congr rfl fun _ _ => rfl, rfl⟩
  · have hzero := (hclear hsize).1
    obtain ⟨L', hin⟩ := hs.insert (hclear hsize) hsize (by omega)
    refine ⟨L', hin.sound.congr rfl fun _ _ => rfl, books_eq ?_ hused rfl⟩
    rw [Books.post, if_neg hsize]
    exact hin.freeSizes

end ReservedApart

end Requests

/-! ## Headers fit -/

/-- The step writes `FreeBlock`s, and hands out blocks, where nothing else is reserved. -/
def Orderly (st : HeapRun) : HeapOp → Prop
  | .init start size => size ≠ 0 →
      ∀ L, st.heap.HasLists L → ClearHeader (st.reserved L) start
  | .alloc layout pages => st.heap.initialized = true → ∀ L, st.heap.HasLists L →
      (∀ y size, Chosen st.heap L layout pages y size → Fitting (st.reserved L) layout y size) ∧
        (st.heap.firstFit L layout = none → ∀ p, pages = some p → ClearHeader (st.reserved L) p)
  | .dealloc ptr layout => layout.blockSize < FREE_BLOCK_SIZE →
      ∀ L, st.heap.HasLists L → ClearHeader (others (st.reserved L) ptr) ptr
  | .store _ _ => True

/-- Every block in the lists has room for its `FreeBlock`. -/
def HeadersFit (st : HeapRun) : Prop :=
  ∃ L, st.heap.HasLists L ∧ ∀ i, ∀ a ∈ L i, FREE_BLOCK_SIZE ≤ st.heap.sizeAt a

/-- Blocks that are put into the lists have room for a `FreeBlock`. -/
def LeavesRoom : HeapOp → Prop
  | .init _ size => size = 0 ∨ FREE_BLOCK_SIZE ≤ size
  | .alloc _ _ => True
  | .dealloc _ layout => FREE_BLOCK_SIZE ≤ layout.blockSize
  | .store _ _ => True

/-- The same in the books. -/
def Books.Roomy (b : Books) : Prop := ∀ n ∈ b.free, FREE_BLOCK_SIZE ≤ n

/-- The block that enters the lists has room for a header. -/
def Entry.Roomy : Entry → Prop
  | .opened size => size = 0 ∨ FREE_BLOCK_SIZE ≤ size
  | .grown size => FREE_BLOCK_SIZE ≤ size
  | .taken _ _ => True
  | .returned blockSize => FREE_BLOCK_SIZE ≤ blockSize

lemma Books.Roomy.cons {free : Multiset ℕ} {n : ℕ} (hfree : ∀ k ∈ free, FREE_BLOCK_SIZE ≤ k)
    (hn : FREE_BLOCK_SIZE ≤ n) : ∀ k ∈ n ::ₘ free, FREE_BLOCK_SIZE ≤ k := by
  intro k hk
  rcases Multiset.mem_cons.mp hk with rfl | hk
  · exact hn
  · exact hfree k hk

/-- What is left of a block that is split has more than 32 bytes. -/
lemma Books.Roomy.post {b : Books} (hb : b.Roomy) {e : Entry} (he : e.Roomy) :
    (b.post e).Roomy := by
  cases e with
  | opened size =>
    rw [Books.Roomy, Books.post]
    split_ifs with hsize
    · exact hb
    · exact Roomy.cons hb (he.resolve_left hsize)
  | grown size => exact Roomy.cons hb he
  | taken blockSize size =>
    have hrest : ∀ k ∈ b.free.erase size, FREE_BLOCK_SIZE ≤ k := fun k hk =>
      hb k (Multiset.mem_of_mem_erase hk)
    rw [Books.Roomy, Books.post]
    simp only
    split_ifs with hsplit
    · refine Roomy.cons hrest ?_
      rw [FREE_BLOCK_SIZE]
      omega
    · exact hrest
  | returned blockSize => exact Roomy.cons hb he

lemma Requested.roomy {h : Heap} {L : BlockLists} {layout : Layout} {pages : Option ℕ}
    {ptr : ℕ} {regions : List Extent} {entries : List Entry}
    (hreq : Requested h L layout pages ptr regions entries) : ∀ e ∈ entries, e.Roomy := by
  have hpages : FREE_BLOCK_SIZE ≤ layout.pagesSize :=
    le_trans (by decide) layout.le_pagesSize.2.1
  cases hreq <;> simp [Entry.Roomy, hpages]

/-- **One step.**  It comes back, and the headers still fit. -/
lemma heapStep_roomy (st : HeapRun) (op : HeapOp)
    (h : ∃ L, ReservedApart st L ∧ (st.heap.books L).Roomy)
    (hok : Allowed st op ∧ Orderly st op ∧ LeavesRoom op) :
    ∃ st', heapStep st op = some st' ∧ ∃ L, ReservedApart st' L ∧ (st'.heap.books L).Roomy := by
  obtain ⟨L, hs, hroomy⟩ := h
  obtain ⟨hallowed, horderly, hroom⟩ := hok
  cases op with
  | init start size =>
    obtain ⟨L', hs', hbooks⟩ := hs.init hallowed.1 fun hsize => horderly hsize L hs.chain
    refine ⟨_, rfl, L', hs', ?_⟩
    rw [hbooks]
    exact hroomy.post (e := .opened size) hroom
  | alloc layout pages =>
    cases hinit : st.heap.initialized with
    | false => exact ⟨st, by simp [heapStep, Heap.alloc, hinit], L, hs, hroomy⟩
    | true =>
      obtain ⟨hfit, hclear⟩ := horderly hinit L hs.chain
      obtain ⟨ptr, h', L', entries, halloc, hreq, hs', hbooks, -⟩ := hs.alloc hinit hfit hclear
      refine ⟨st.answered layout ptr h', by rw [heapStep, halloc]; rfl, L', hs', ?_⟩
      rw [HeapRun.answered_heap, hbooks]
      exact List.foldlRecOn entries Books.post hroomy fun b hb e he => hb.post (hreq.roomy e he)
  | dealloc ptr layout =>
    cases hinit : st.heap.initialized with
    | false =>
      have hsame : st.heap.dealloc ptr layout = st.heap := by simp [Heap.dealloc, hinit]
      refine ⟨_, rfl, L, ?_⟩
      rw [hsame]
      exact ⟨(hs.release hallowed).2, hroomy⟩
    | true =>
      obtain ⟨L', hs', hbooks, -⟩ := hs.dealloc hinit hallowed fun hsmall =>
        horderly hsmall L hs.chain
      refine ⟨_, rfl, L', hs', ?_⟩
      rw [hbooks]
      exact hroomy.post (e := .returned layout.blockSize) hroom
  | store addr byte =>
    obtain ⟨b, hb, hle, hlt⟩ := hallowed
    obtain ⟨hs', hbooks⟩ := hs.store hb hle hlt byte
    refine ⟨_, rfl, L, hs', ?_⟩
    rw [hbooks]
    exact hroomy

/-- **Headers fit.** -/
theorem headers_fit (mem : ℕ → U8) {ops : List HeapOp}
    (hmeets : Meets (fun st op => Allowed st op ∧ Orderly st op ∧ LeavesRoom op) heapStep
      ⟨Heap.new mem, []⟩ ops) :
    ∃ st, run heapStep ⟨Heap.new mem, []⟩ ops = some st ∧ HeadersFit st := by
  have hnew : ((Heap.new mem).books fun _ => []).Roomy := by
    rw [new_books]
    exact fun n hn => absurd hn (Multiset.notMem_zero n)
  obtain ⟨st, hrun, L, hs, hroomy⟩ :=
    run_total_of_meets heapStep_roomy ⟨_, new_sound mem, hnew⟩ hmeets
  refine ⟨st, hrun, L, hs.chain, fun i a ha => hroomy _ ?_⟩
  exact Multiset.mem_coe.mpr (List.mem_map_of_mem (mem_blocks.mpr ⟨i, ha⟩))

/-- Nothing is reserved in a new heap. -/
lemma orderly_init_new (mem : ℕ → U8) {start size : ℕ} (hzero : start ≠ 0)
    (hbound : start + 24 ≤ 2 ^ 64) : Orderly ⟨Heap.new mem, []⟩ (.init start size) := by
  intro _ L hL
  obtain rfl : L = fun _ => [] := funext fun i => (hL i).unique ((new_sound mem).chain i)
  refine ⟨hzero, hbound, fun e he => ?_⟩
  simp [HeapRun.reserved, blocks] at he

/-- The block that a request is served from in a region of 4096 bytes: the region itself. -/
lemma chosen_region {L : BlockLists} {y size : ℕ}
    (hL : ((Heap.new fun _ => 0).init 0x10000 0x1000).HasLists L)
    (hchosen : Chosen ((Heap.new fun _ => 0).init 0x10000 0x1000) L smallLayout none y size) :
    (L = fun i => if i = 12 then [0x10000] else []) ∧ y = 0x10000 ∧ size = 0x1000 := by
  obtain rfl : L = fun i => if i = 12 then [0x10000] else [] :=
    funext fun i => (hL i).unique (region_lists i)
  cases hchosen with
  | fromPages _ hp _ => cases hp
  | fromLists hfind =>
    obtain ⟨i, hy⟩ := mem_blocks.mp (mem_blocks_of_firstFit hfind)
    have hy : y = 0x10000 := by
      split_ifs at hy
      · exact List.mem_singleton.mp hy
      · exact absurd hy List.not_mem_nil
    subst hy
    exact ⟨rfl, rfl, by decide +kernel⟩

/-- The rest of the region is put at `0x10600`. -/
lemma orderly_alloc_region : Orderly ⟨(Heap.new fun _ => 0).init 0x10000 0x1000, []⟩
    (.alloc smallLayout none) := by
  intro _ L hL
  refine ⟨fun y size hchosen => ?_, fun _ p hp => (nomatch hp)⟩
  obtain ⟨rfl, rfl, rfl⟩ := chosen_region hL hchosen
  have hothers : others (HeapRun.reserved ⟨(Heap.new fun _ => 0).init 0x10000 0x1000, []⟩
      fun i => if i = 12 then [0x10000] else []) 0x10000 = [] := by decide +kernel
  refine ⟨by decide, fun e he => ?_, fun _ => ⟨by decide, by decide, fun e he => ?_⟩⟩
  · rw [hothers] at he
    exact absurd he List.not_mem_nil
  · rw [hothers, List.mem_singleton] at he
    rw [he, Extent.disjoint_frames_iff (by decide) (by decide)]
    decide

/-- A region of 4096 bytes.  A request for 64 bytes splits it, and is given back. -/
theorem headers_fit_split : ∃ st,
    run heapStep ⟨Heap.new fun _ => 0, []⟩
        [.init 0x10000 0x1000, .alloc smallLayout none, .dealloc 0x10000 smallLayout] = some st ∧
      HeadersFit st := by
  have hroom : FREE_BLOCK_SIZE ≤ smallLayout.blockSize := by decide
  refine headers_fit (fun _ => 0)
    ⟨⟨fresh_new _ (by decide), orderly_init_new _ (by decide) (by decide), .inr (by decide)⟩, ?_⟩
  rintro _ ⟨rfl⟩
  refine ⟨⟨fun p hp => (nomatch hp), orderly_alloc_region, trivial⟩, fun st' hst' => ?_⟩
  have hlive : (heapStep ⟨(Heap.new fun _ => 0).init 0x10000 0x1000, []⟩
      (.alloc smallLayout none)).any (fun st => st.live = [(0x10000, smallLayout)]) = true := by
    decide +kernel
  rw [hst', Option.any_some, decide_eq_true_eq] at hlive
  refine ⟨⟨?_, fun hsmall => absurd hsmall (by decide), hroom⟩, fun _ _ => trivial⟩
  rw [Allowed, hlive]
  exact List.mem_singleton_self _

/-- Eight bytes, aligned to eight. -/
def tinyLayout : Layout := ⟨8, 8, smallLayout.align_pow, by decide⟩

/-- A block of eight bytes is given back.  Its `FreeBlock` takes 24. -/
theorem dealloc_header_leaves_block : ∃ st,
    Meets Allowed heapStep ⟨Heap.new fun _ => 0, []⟩
        [.init 0x10000 0x1000, .alloc tinyLayout none, .dealloc 0x10000 tinyLayout] ∧
      run heapStep ⟨Heap.new fun _ => 0, []⟩
        [.init 0x10000 0x1000, .alloc tinyLayout none, .dealloc 0x10000 tinyLayout] = some st ∧
      st.heap.link (.inl 3) = 0x10000 ∧ st.heap.sizeAt 0x10000 = 8 ∧ ¬ HeadersFit st := by
  have hrun : (run heapStep ⟨Heap.new fun _ => 0, []⟩
      [.init 0x10000 0x1000, .alloc tinyLayout none, .dealloc 0x10000 tinyLayout]).any (fun st =>
        st.heap.link (.inl 3) = 0x10000 ∧ st.heap.sizeAt 0x10000 = 8) = true := by decide +kernel
  rw [Option.any_eq_true] at hrun
  obtain ⟨st, hst, hfacts⟩ := hrun
  obtain ⟨hhead, hsize⟩ := of_decide_eq_true hfacts
  refine ⟨st, ⟨fresh_new _ (by decide), ?_⟩, hst, hhead, hsize, ?_⟩
  · rintro _ ⟨rfl⟩
    refine ⟨fun p hp => (nomatch hp), fun st' hst' => ⟨?_, fun _ _ => trivial⟩⟩
    have hlive : (heapStep ⟨(Heap.new fun _ => 0).init 0x10000 0x1000, []⟩
        (.alloc tinyLayout none)).any (fun st => st.live = [(0x10000, tinyLayout)]) = true := by
      decide +kernel
    rw [hst', Option.any_some, decide_eq_true_eq] at hlive
    rw [Allowed, hlive]
    exact List.mem_singleton_self _
  · rintro ⟨L, hchain, hfit⟩
    have hlist := hchain 3
    have hroom := hfit 3
    cases hL : L 3 with
    | nil =>
      rw [hL] at hlist
      exact absurd (hhead.symm.trans hlist) (by decide)
    | cons a as =>
      rw [hL] at hlist hroom
      have ha : a = 0x10000 := hlist.1.symm.trans hhead
      have hsmall := hroom a List.mem_cons_self
      rw [ha, hsize] at hsmall
      exact absurd hsmall (by decide)

end Masika
