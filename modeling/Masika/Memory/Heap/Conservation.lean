import Mathlib.Algebra.BigOperators.Group.Multiset.Basic
import Masika.Memory.Heap.Headers

/-!
# Bytes of the heap

`total_bytes` should be `used_bytes` and the sizes of the blocks in the lists together.  In the
books this is an equation that every entry keeps, if a block that is handed out is used up: it has
either exactly the size of the request, or it is split (`Accounts`).

`realloc` is made of a request, a copy and a block that is given back, unless the block is made
smaller; then nothing is done, and the block is given back later with its new, smaller layout.

`bytes_conserved` is the result over whole runs.
-/

namespace Masika

open Heap

/-! ## `realloc` -/

/-- `Layout::from_size_align(new_size, old_layout.align())`. -/
def Layout.resize (l : Layout) (newSize : ℕ) : Option Layout :=
  if h : newSize + l.align ≤ 2 ^ 63 then some ⟨newSize, l.align, l.align_pow, h⟩ else none

namespace Heap

/-- `core::ptr::copy_nonoverlapping`. -/
def copyNonoverlapping (h : Heap) (src dst count : ℕ) : Heap :=
  { h with
    mem := fun x => if dst ≤ x ∧ x < dst + count then h.mem (src + (x - dst)) else h.mem x }

/-- `realloc`; it panics when there is no such layout. -/
def realloc (h : Heap) (oldPtr : ℕ) (oldLayout : Layout) (newSize : ℕ) (pages : Option ℕ) :
    Option (ℕ × Heap) :=
  (oldLayout.resize newSize).bind fun newLayout =>
    if newLayout.size ≤ oldLayout.size then some (oldPtr, h)
    else
      (h.alloc newLayout pages).map fun (newPtr, h) =>
        if newPtr = 0 then (newPtr, h)
        else (newPtr, (h.copyNonoverlapping oldPtr newPtr oldLayout.size).dealloc oldPtr oldLayout)

end Heap

/-- The calls, and `realloc`. -/
inductive ReallocOp where
  | call (op : HeapOp)
  | realloc (ptr : ℕ) (layout : Layout) (newSize : ℕ) (pages : Option ℕ)

/-- The steps of a run with `realloc`, which changes the layout of a block. -/
def reallocStep (st : HeapRun) : ReallocOp → Option HeapRun
  | .call op => heapStep st op
  | .realloc ptr layout newSize pages =>
    (layout.resize newSize).bind fun newLayout =>
      (st.heap.realloc ptr layout newSize pages).map fun (newPtr, h) =>
        if newPtr = 0 then { st with heap := h }
        else ⟨h, (newPtr, newLayout) :: st.live.erase (ptr, layout)⟩

/-! ## Accounts -/

/-- The books balance: `held` bytes are in use, and `regions` have been given. -/
structure Accounts (b : Books) (held : ℕ) (regions : List Extent) : Prop where
  balanced : b.total = b.used + b.free.sum
  used : b.used = held
  total : b.total = Extent.totalCount regions
  apart : Extent.Apart regions
  inside : ∀ r ∈ regions, r.frames ⊆ Finset.Ico 1 (2 ^ 64)

namespace Accounts

variable {b : Books} {held : ℕ} {regions : List Extent}

/-- There are fewer bytes than addresses. -/
lemma total_lt (h : Accounts b held regions) : b.total < 2 ^ 64 := by
  have hle := h.apart.totalCount_le h.inside
  rw [Nat.card_Ico] at hle
  rw [h.total]
  omega

section Region

variable {start size : ℕ}

/-- A new region, for the books in which it is entered. -/
lemma region (h : Accounts b held regions) {b' : Books} (hzero : size ≠ 0 → start ≠ 0)
    (hbound : start + size ≤ 2 ^ 64)
    (hdisj : ∀ r ∈ regions, Disjoint (Extent.mk start size).frames r.frames)
    (hused : b'.used = b.used) (hfree : b'.free.sum = size + b.free.sum)
    (htotal : b.total + size < 2 ^ 64 → b'.total = b.total + size) :
    Accounts b' held (⟨start, size⟩ :: regions) := by
  have happart : Extent.Apart (⟨start, size⟩ :: regions) := List.pairwise_cons.mpr ⟨hdisj, h.apart⟩
  have hinside : ∀ r ∈ Extent.mk start size :: regions, r.frames ⊆ Finset.Ico 1 (2 ^ 64) := by
    intro r hr
    rcases List.mem_cons.mp hr with rfl | hr
    · intro x hx
      rw [Extent.mem_frames] at hx
      simp only at hx
      rw [Finset.mem_Ico]
      omega
    · exact h.inside r hr
  have hcount : Extent.totalCount (⟨start, size⟩ :: regions) = size + b.total := by
    rw [h.total]
    rfl
  have hlt := happart.totalCount_le hinside
  rw [hcount, Nat.card_Ico] at hlt
  have htotal := htotal (by omega)
  have hbalanced := h.balanced
  exact ⟨by omega, hused.trans h.used, by rw [hcount]; omega, happart, hinside⟩

/-- `init` sets `total_bytes`, and so it has to come first. -/
lemma opened (h : Accounts b held regions) (hfirst : b.total = 0) (hzero : size ≠ 0 → start ≠ 0)
    (hbound : start + size ≤ 2 ^ 64)
    (hdisj : ∀ r ∈ regions, Disjoint (Extent.mk start size).frames r.frames) :
    Accounts (b.post (.opened size)) held (⟨start, size⟩ :: regions) := by
  refine h.region hzero hbound hdisj rfl ?_ fun _ => ?_
  · rw [Books.post]
    split_ifs with hsize
    · rw [hsize, Nat.zero_add]
    · exact Multiset.sum_cons size b.free
  · rw [hfirst, Nat.zero_add]
    rfl

lemma grown (h : Accounts b held regions) (hzero : start ≠ 0) (hbound : start + size ≤ 2 ^ 64)
    (hdisj : ∀ r ∈ regions, Disjoint (Extent.mk start size).frames r.frames) :
    Accounts (b.post (.grown size)) held (⟨start, size⟩ :: regions) :=
  h.region (fun _ => hzero) hbound hdisj rfl (Multiset.sum_cons size b.free) fun hlt =>
    wrap_of_lt hlt

end Region

/-- A block is used up. -/
lemma taken (h : Accounts b held regions) {blockSize size : ℕ} (hmem : size ∈ b.free)
    (hexact : size = blockSize ∨ size > blockSize + 32) :
    Accounts (b.post (.taken blockSize size)) (held + blockSize) regions := by
  have hsum : size + (b.free.erase size).sum = b.free.sum := by
    rw [← Multiset.sum_cons, Multiset.cons_erase hmem]
  have hfree : blockSize + (b.post (.taken blockSize size)).free.sum = b.free.sum := by
    rw [Books.post]
    simp only
    split_ifs with hsplit
    · rw [Multiset.sum_cons]
      omega
    · omega
  have hlt := h.total_lt
  have hbalanced := h.balanced
  have hused : (b.post (.taken blockSize size)).used = b.used + blockSize :=
    wrap_of_lt (by omega)
  refine ⟨?_, by rw [hused, h.used], h.total, h.apart, h.inside⟩
  change b.total = _
  omega

/-- A block is given back. -/
lemma returned {blockSize : ℕ} (h : Accounts b (held + blockSize) regions) :
    Accounts (b.post (.returned blockSize)) held regions := by
  have hlt := h.total_lt
  have hbalanced := h.balanced
  have hheld := h.used
  have hused : (b.post (.returned blockSize)).used = held := by
    rw [Books.post]
    simp only
    rw [wrapSub_of_le (by omega) (by omega)]
    omega
  have hfree : (b.post (.returned blockSize)).free.sum = blockSize + b.free.sum :=
    Multiset.sum_cons blockSize b.free
  refine ⟨?_, hused, h.total, h.apart, h.inside⟩
  change b.total = _
  omega

end Accounts

/-! ## Calls -/

/-- The bytes of the blocks in use. -/
def held (live : List (ℕ × Layout)) : ℕ := (live.map fun b => b.2.blockSize).sum

/-- The lists are in order, and the accounts of the heap are right. -/
structure Conserved (st : HeapRun) (L : BlockLists) : Prop where
  sound : ReservedApart st L
  accounts : Accounts (st.heap.books L) (held st.live) st.heap.regions
  ready : st.heap.initialized = false → st.live = []

/-- Blocks are used up, and `total_bytes` is not lost: `init` comes first, and the block that a
request is served from has the size of the request, or is split. -/
def UsesUp (st : HeapRun) : HeapOp → Prop
  | .init _ _ => st.heap.totalBytes = 0
  | .alloc layout pages => st.heap.initialized = true → ∀ L, st.heap.HasLists L →
      ∀ y size, Chosen st.heap L layout pages y size →
        size = layout.blockSize ∨ size > layout.blockSize + 32
  | .dealloc _ _ => True
  | .store _ _ => True

section Calls

variable {st : HeapRun} {L : BlockLists} {layout : Layout}

lemma held_erase {b : ℕ × Layout} {live : List (ℕ × Layout)} (hb : b ∈ live) :
    held live = held (live.erase b) + b.2.blockSize := by
  have hperm := ((List.perm_cons_erase hb).map fun b => b.2.blockSize).sum_eq
  rw [List.map_cons, List.sum_cons] at hperm
  rw [held, hperm, Nat.add_comm]
  rfl

namespace Conserved

/-- Blocks are in use only after `init`. -/
lemma initialized (h : Conserved st L) {b : ℕ × Layout} (hb : b ∈ st.live) :
    st.heap.initialized = true := by
  by_contra hinit
  rw [h.ready (by simpa using hinit)] at hb
  exact absurd hb List.not_mem_nil

lemma init (h : Conserved st L) {start size : ℕ} (hfresh : Fresh st.heap start size)
    (horderly : Orderly st (.init start size)) (hexact : UsesUp st (.init start size)) :
    ∃ L', Conserved { st with heap := st.heap.init start size } L' := by
  have hclear : size ≠ 0 → ClearHeader (st.reserved L) start := fun hsize =>
    horderly hsize L h.sound.chain
  obtain ⟨L', hs', hbooks⟩ := h.sound.init hfresh.1 hclear
  refine ⟨L', hs', ?_, fun hinit => absurd hinit (by simp [Heap.init])⟩
  rw [hbooks]
  exact h.accounts.opened hexact (fun hsize => (hclear hsize).1) hfresh.1 hfresh.2

/-- **A request.** -/
lemma alloc (h : Conserved st L) {pages : Option ℕ} (hinit : st.heap.initialized = true)
    (hallowed : Allowed st (.alloc layout pages)) (horderly : Orderly st (.alloc layout pages))
    (hexact : UsesUp st (.alloc layout pages)) :
    ∃ ptr h' L', st.heap.alloc layout pages = some (ptr, h') ∧ h'.initialized = true ∧
      Conserved (st.answered layout ptr h') L' := by
  obtain ⟨hfit, hclear⟩ := horderly hinit L h.sound.chain
  have hexact := hexact hinit L h.sound.chain
  obtain ⟨ptr, h', L', entries, halloc, hreq, hs', hbooks, hinit'⟩ :=
    h.sound.alloc hinit hfit hclear
  refine ⟨ptr, h', L', halloc, hinit', hs', ?_, fun hready => ?_⟩
  · generalize hregions : h'.regions = regions at hreq
    have haccounts := h.accounts
    -- what the entries of a request make of the accounts
    cases hreq with
    | refused =>
      rw [HeapRun.answered, if_pos rfl, hbooks, hregions]
      exact haccounts
    | taken hzero hfind =>
      rw [HeapRun.answered, if_neg hzero, hbooks, hregions]
      have hmem : st.heap.sizeAt ptr ∈ (st.heap.books L).free :=
        Multiset.mem_coe.mpr (List.mem_map_of_mem (mem_blocks_of_firstFit hfind))
      have hheld : held ((ptr, layout) :: st.live) = held st.live + layout.blockSize :=
        Nat.add_comm _ _
      rw [hheld]
      exact haccounts.taken hmem (hexact _ _ (.fromLists hfind))
    | grown hzero hpages =>
      obtain ⟨hbound, hdisj⟩ := hallowed _ hpages
      rw [HeapRun.answered, if_pos rfl, hbooks, hregions]
      exact haccounts.grown hzero hbound hdisj
    | grownTaken hzero hpages hchosen =>
      obtain ⟨hbound, hdisj⟩ := hallowed _ hpages
      rw [HeapRun.answered, if_neg hzero, hbooks, hregions]
      have hheld : held ((ptr, layout) :: st.live) = held st.live + layout.blockSize :=
        Nat.add_comm _ _
      rw [hheld]
      have hmem : layout.pagesSize ∈ ((st.heap.books L).post (.grown layout.pagesSize)).free :=
        Multiset.mem_cons_self layout.pagesSize (st.heap.freeSizes L)
      exact (haccounts.grown hzero hbound hdisj).taken hmem (hexact _ _ hchosen)
  · rw [HeapRun.answered_heap, hinit'] at hready
    cases hready

/-- A block is given back. -/
lemma dealloc (h : Conserved st L) {ptr : ℕ} (hlive : (ptr, layout) ∈ st.live)
    (hclear : layout.blockSize < 24 → ClearHeader (others (st.reserved L) ptr) ptr) :
    ∃ L', Conserved ⟨st.heap.dealloc ptr layout, st.live.erase (ptr, layout)⟩ L' := by
  have hinit := h.initialized hlive
  obtain ⟨L', hs', hbooks, hregions, hinit'⟩ := h.sound.dealloc hinit hlive hclear
  refine ⟨L', hs', ?_, fun hready => absurd (hready.symm.trans hinit') (by decide)⟩
  have haccounts := h.accounts
  rw [held_erase hlive] at haccounts
  rw [hbooks, hregions]
  exact haccounts.returned

/-- The owner of a block writes to it. -/
lemma write (h : Conserved st L) {b : ℕ × Layout} (hb : b ∈ st.live) {mem : ℕ → U8}
    (hmem : ∀ x, x < b.1 ∨ b.1 + b.2.blockSize ≤ x → mem x = st.heap.mem x) :
    Conserved { st with heap := { st.heap with mem } } L := by
  obtain ⟨hs', hbooks⟩ := h.sound.write hb hmem
  refine ⟨hs', ?_, h.ready⟩
  rw [hbooks]
  exact h.accounts

/-- A block keeps its place and gets another layout of the same rounded size. -/
lemma relabel (h : Conserved st L) {ptr : ℕ} {newLayout : Layout} (hlive : (ptr, layout) ∈ st.live)
    (hsize : newLayout.blockSize = layout.blockSize) :
    Conserved ⟨st.heap, (ptr, newLayout) :: st.live.erase (ptr, layout)⟩ L := by
  obtain ⟨hp, hs⟩ := h.sound.release hlive
  obtain ⟨hzero, hbound⟩ := h.sound.bound _ (mem_reserved_live (L := L) hlive)
  refine ⟨hs.hold hzero (by rw [hsize]; exact hbound) fun e he => ?_, ?_, fun hinit => ?_⟩
  · rw [hsize]
    exact h.sound.disjoint_rest hp he
  · have hheld : held ((ptr, newLayout) :: st.live.erase (ptr, layout)) = held st.live := by
      rw [held_erase hlive, Nat.add_comm, ← hsize]
      rfl
    rw [hheld]
    exact h.accounts
  · exact absurd (hinit.symm.trans (h.initialized hlive)) (by decide)

end Conserved

end Calls

/-! ## Runs -/

/-- The callers keep to their blocks. -/
def AllowedCall (st : HeapRun) : ReallocOp → Prop
  | .call op => Allowed st op
  | .realloc ptr layout _ _ => (ptr, layout) ∈ st.live

/-- The calls are made in order, and use blocks up.  `realloc` does not make the rounded size
smaller, and the calls it makes are such calls as well. -/
def Conserving (st : HeapRun) : ReallocOp → Prop
  | .call op => Allowed st op ∧ Orderly st op ∧ UsesUp st op
  | .realloc ptr layout newSize pages => (ptr, layout) ∈ st.live ∧
      ∃ newLayout, layout.resize newSize = some newLayout ∧
        (newSize ≤ layout.size → newLayout.blockSize = layout.blockSize) ∧
        (layout.size < newSize →
          (Allowed st (.alloc newLayout pages) ∧ Orderly st (.alloc newLayout pages) ∧
            UsesUp st (.alloc newLayout pages)) ∧
          ∀ newPtr h, st.heap.alloc newLayout pages = some (newPtr, h) → newPtr ≠ 0 →
            Orderly ⟨h, (newPtr, newLayout) :: st.live⟩ (.dealloc ptr layout))

/-- Every byte is in use or in a block of the lists, and none is in use when no block is. -/
def BytesConserved (st : HeapRun) : Prop :=
  ∃ L, st.heap.HasLists L ∧
    st.heap.totalBytes = st.heap.usedBytes + (st.heap.freeSizes L).sum ∧
    (st.live = [] → st.heap.usedBytes = 0)

section Runs

variable {st : HeapRun} {L : BlockLists}

lemma Conserved.bytesConserved (h : Conserved st L) : BytesConserved st := by
  refine ⟨L, h.sound.chain, h.accounts.balanced, fun hlive => ?_⟩
  have hused : st.heap.usedBytes = held st.live := h.accounts.used
  rw [hused, hlive]
  rfl

lemma new_conserved (mem : ℕ → U8) : Conserved ⟨Heap.new mem, []⟩ fun _ => [] := by
  refine ⟨new_sound mem, ?_, fun _ => rfl⟩
  rw [new_books]
  exact ⟨rfl, rfl, rfl, List.Pairwise.nil, fun r hr => absurd hr List.not_mem_nil⟩

/-- A call that is not `realloc`. -/
lemma heapStep_conserved (h : Conserved st L) {op : HeapOp}
    (hok : Allowed st op ∧ Orderly st op ∧ UsesUp st op) :
    ∃ st', heapStep st op = some st' ∧ ∃ L', Conserved st' L' := by
  obtain ⟨hallowed, horderly, hexact⟩ := hok
  cases op with
  | init start size => exact ⟨_, rfl, h.init hallowed horderly hexact⟩
  | alloc layout pages =>
    cases hinit : st.heap.initialized with
    | false => exact ⟨st, by simp [heapStep, Heap.alloc, hinit], L, h⟩
    | true =>
      obtain ⟨ptr, h', L', halloc, -, hc⟩ := h.alloc hinit hallowed horderly hexact
      exact ⟨st.answered layout ptr h', by rw [heapStep, halloc]; rfl, L', hc⟩
  | dealloc ptr layout =>
    exact ⟨_, rfl, h.dealloc hallowed fun hsmall => horderly hsmall L h.sound.chain⟩
  | store addr byte =>
    obtain ⟨b, hb, hle, hlt⟩ := hallowed
    have hsize := b.2.size_le_blockSize
    exact ⟨_, rfl, L, h.write hb fun x hx => Function.update_of_ne (by omega) _ _⟩

/-- **`realloc`.** -/
lemma realloc_conserved (h : Conserved st L) {ptr newSize : ℕ} {layout : Layout}
    {pages : Option ℕ} (hok : Conserving st (.realloc ptr layout newSize pages)) :
    ∃ st', reallocStep st (.realloc ptr layout newSize pages) = some st' ∧
      ∃ L', Conserved st' L' := by
  obtain ⟨hlive, newLayout, hresize, hsame, hgrows⟩ := hok
  have hnew : newLayout.size = newSize := by
    rw [Layout.resize] at hresize
    split_ifs at hresize
    cases hresize
    rfl
  have hzero : ptr ≠ 0 := (h.sound.bound _ (mem_reserved_live (L := L) hlive)).1
  simp only [reallocStep, Heap.realloc, hresize, Option.bind_some, hnew]
  by_cases hle : newSize ≤ layout.size
  · rw [if_pos hle]
    simp only [Option.map_some, if_neg hzero]
    exact ⟨_, rfl, L, h.relabel hlive (hsame hle)⟩
  · rw [if_neg hle]
    obtain ⟨⟨hallowed, horderly, hexact⟩, hdealloc⟩ := hgrows (by omega)
    have hinit := h.initialized hlive
    obtain ⟨newPtr, h', L', halloc, -, hc⟩ := h.alloc hinit hallowed horderly hexact
    simp only [halloc, Option.map_some]
    by_cases hnull : newPtr = 0
    · rw [HeapRun.answered, if_pos hnull] at hc
      simp only [if_pos hnull]
      exact ⟨_, rfl, L', hc⟩
    · rw [HeapRun.answered, if_neg hnull] at hc
      simp only [if_neg hnull]
      -- the copy stays in the new block
      have hout : ∀ x, x < newPtr ∨ newPtr + newLayout.blockSize ≤ x →
          (h'.copyNonoverlapping ptr newPtr layout.size).mem x = h'.mem x := by
        intro x hx
        have hsize := newLayout.size_le_blockSize
        exact if_neg (by omega)
      have hcopied := hc.write (b := (newPtr, newLayout)) List.mem_cons_self hout
      have hold : (ptr, layout) ∈ (newPtr, newLayout) :: st.live := List.mem_cons_of_mem _ hlive
      obtain ⟨L'', hfreed⟩ := hcopied.dealloc hold fun hsmall =>
        hdealloc newPtr h' halloc hnull hsmall L' hc.sound.chain
      refine ⟨_, rfl, L'', ?_⟩
      -- the new block is not the one that is given back
      have hne : ((newPtr, newLayout) == (ptr, layout)) = false := by
        rw [beq_eq_false_iff_ne]
        intro heq
        have hsize : newLayout.size = layout.size := congrArg (fun b => b.2.size) heq
        omega
      rw [List.erase_cons_tail (by rw [hne]; decide)] at hfreed
      exact hfreed

lemma reallocStep_conserved (st : HeapRun) (op : ReallocOp) (h : ∃ L, Conserved st L)
    (hok : Conserving st op) : ∃ st', reallocStep st op = some st' ∧ ∃ L, Conserved st' L := by
  obtain ⟨L, h⟩ := h
  cases op with
  | call op => exact heapStep_conserved h hok
  | realloc ptr layout newSize pages => exact realloc_conserved h hok

end Runs

/-- **Bytes are conserved**, as long as blocks are used up.  Every run of calls comes back, and in
the end `total_bytes` is what is in use and what is in the lists. -/
theorem bytes_conserved (mem : ℕ → U8) {ops : List ReallocOp}
    (hmeets : Meets Conserving reallocStep ⟨Heap.new mem, []⟩ ops) :
    ∃ st, run reallocStep ⟨Heap.new mem, []⟩ ops = some st ∧ BytesConserved st := by
  obtain ⟨st, hrun, L, h⟩ := run_total_of_meets reallocStep_conserved ⟨_, new_conserved mem⟩ hmeets
  exact ⟨st, hrun, h.bytesConserved⟩

/-- Sixty bytes, aligned to eight; the same block as for `smallLayout`. -/
def sixtyLayout : Layout := ⟨60, 8, smallLayout.align_pow, by decide⟩

/-- A block of 64 bytes is split off a region, made smaller by four bytes, and given back. -/
theorem bytes_conserved_split : ∃ st,
    run reallocStep ⟨Heap.new fun _ => 0, []⟩ [.call (.init 0x10000 0x1000),
        .call (.alloc smallLayout none), .realloc 0x10000 smallLayout 60 none,
        .call (.dealloc 0x10000 sixtyLayout)] = some st ∧
      BytesConserved st := by
  refine bytes_conserved (fun _ => 0)
    ⟨⟨fresh_new _ (by decide), orderly_init_new _ (by decide) (by decide), rfl⟩, ?_⟩
  rintro _ ⟨rfl⟩
  refine ⟨⟨fun p hp => (nomatch hp), orderly_alloc_region, fun _ L hL y size hchosen => ?_⟩, ?_⟩
  · obtain ⟨-, -, rfl⟩ := chosen_region hL hchosen
    exact .inr (by decide)
  intro st₁ hst₁
  have hlive₁ : (reallocStep ⟨(Heap.new fun _ => 0).init 0x10000 0x1000, []⟩
      (.call (.alloc smallLayout none))).any
        (fun st => st.live = [(0x10000, smallLayout)]) = true := by decide +kernel
  rw [hst₁, Option.any_some, decide_eq_true_eq] at hlive₁
  refine ⟨⟨?_, sixtyLayout, rfl, fun _ => by decide, fun hgrows => absurd hgrows (by decide)⟩, ?_⟩
  · rw [hlive₁]
    exact List.mem_singleton_self _
  rintro st₂ ⟨rfl⟩
  refine ⟨⟨?_, fun hsmall => absurd hsmall (by decide), trivial⟩, fun _ _ => trivial⟩
  exact List.mem_cons_self

/-- A region of 96 bytes, of which a request for 64 takes all.  The other 32 bytes are lost. -/
theorem alloc_loses_bytes : ∃ st,
    Meets AllowedCall reallocStep ⟨Heap.new fun _ => 0, []⟩
        [.call (.init 0x10000 96), .call (.alloc smallLayout none)] ∧
      run reallocStep ⟨Heap.new fun _ => 0, []⟩
        [.call (.init 0x10000 96), .call (.alloc smallLayout none)] = some st ∧
      st.heap.totalBytes = 96 ∧ st.heap.usedBytes = 64 ∧ (∀ i, st.heap.heads i = 0) ∧
      ¬ BytesConserved st := by
  have hrun : (run reallocStep ⟨Heap.new fun _ => 0, []⟩
      [.call (.init 0x10000 96), .call (.alloc smallLayout none)]).any (fun st =>
        st.heap.totalBytes = 96 ∧ st.heap.usedBytes = 64 ∧ ∀ i, st.heap.heads i = 0) = true := by
    decide +kernel
  rw [Option.any_eq_true] at hrun
  obtain ⟨st, hst, hfacts⟩ := hrun
  obtain ⟨htotal, hused, hheads⟩ := of_decide_eq_true hfacts
  refine ⟨st, ⟨fresh_new _ (by decide), ?_⟩, hst, htotal, hused, hheads, ?_⟩
  · rintro _ ⟨rfl⟩
    exact ⟨fun p hp => (nomatch hp), fun _ _ => trivial⟩
  · rintro ⟨L, hlists, hsum, -⟩
    obtain rfl : L = fun _ => [] := funext fun i =>
      (hlists i).unique (show Chain st.heap.link 0 (.inl i) [] from hheads i)
    have hfree : st.heap.freeSizes (fun _ => []) = 0 := by simp [freeSizes, blocks]
    rw [htotal, hused, hfree] at hsum
    exact absurd hsum (by decide)

end Masika
