import Masika.Core.Runs
import Masika.Memory.Heap.FreeLists

/-!
# The heap is partitioned

`alloc` serves a request from the lists or from new pages (`alloc_served`), `dealloc` puts a block
back, and the owners write to their blocks.  As long as no block is split, every block begins a
region of its own, and the heap stays `Tidy`; `heap_partitioned` is the result over whole runs.
-/

namespace Masika

/-! ## Requests -/

namespace Layout

lemma align_pos (l : Layout) : 0 < l.align := by
  obtain ⟨k, hk⟩ := l.align_pow
  rw [hk]
  exact Nat.two_pow_pos k

lemma align_dvd (l : Layout) : l.align ∣ 2 ^ 64 ∧ l.align < 2 ^ 64 := by
  obtain ⟨k, hk⟩ := l.align_pow
  have hlt : l.align < 2 ^ 64 := by
    have := l.bounded
    omega
  have hk64 : k < 64 := (Nat.pow_lt_pow_iff_right (by decide)).mp (hk ▸ hlt)
  exact ⟨hk ▸ Nat.pow_dvd_pow 2 hk64.le, hlt⟩

/-- A block and the offset of an aligned address in it: the sum does not wrap around. -/
lemma align_add_blockSize (l : Layout) : l.align + l.blockSize ≤ 2 ^ 64 := by
  have hbound := l.bounded
  rw [Layout.blockSize]
  omega

end Layout

namespace Heap

variable {h : Heap}

/-- **The offset** is the distance to the next multiple, also when that is the end of memory and
the addition wraps around. -/
lemma offset_eq {a align : ℕ} (ha : a < 2 ^ 64) (hdvd : align ∣ 2 ^ 64) (halign : align < 2 ^ 64) :
    offset a align = (a + align - 1) / align * align - a := by
  obtain ⟨m, hm⟩ := hdvd
  have hpos : 0 < align := Nat.pos_of_ne_zero fun h => by rw [h] at hm; omega
  have hdiv := Nat.div_add_mod (a + align - 1) align
  have hmod := Nat.mod_lt (a + align - 1) hpos
  rw [Nat.mul_comm] at hdiv
  by_cases hfit : a + align - 1 < 2 ^ 64
  · rw [offset, wrap_of_lt hfit, wrapSub_of_le (by omega) (by omega)]
  · have hsmall : wrap (a + align - 1) < align := by
      rw [wrap]
      omega
    have hend : (a + align - 1) / align = m :=
      Nat.div_eq_of_lt_le (by rw [Nat.mul_comm]; omega) (by rw [Nat.succ_mul, Nat.mul_comm]; omega)
    rw [offset, Nat.div_eq_of_lt hsmall, Nat.zero_mul, wrapSub, wrap_of_lt ha, wrap, hend,
      Nat.mul_comm, ← hm]
    omega

lemma offset_eq_zero_iff {a : ℕ} (ha : a < 2 ^ 64) (l : Layout) :
    offset a l.align = 0 ↔ l.align ∣ a := by
  obtain ⟨hdvd, hlt⟩ := l.align_dvd
  have hpos := l.align_pos
  rw [offset_eq ha hdvd hlt]
  constructor
  · intro hzero
    have hdiv := Nat.div_add_mod (a + l.align - 1) l.align
    have hmod := Nat.mod_lt (a + l.align - 1) hpos
    rw [Nat.mul_comm] at hdiv
    rw [show a = (a + l.align - 1) / l.align * l.align by omega]
    exact Nat.dvd_mul_left _ _
  · rintro ⟨m, rfl⟩
    rw [Nat.add_sub_assoc hpos, Nat.mul_add_div hpos, Nat.div_eq_of_lt (by omega), Nat.add_zero,
      Nat.mul_comm, Nat.sub_self]

lemma offset_lt {a : ℕ} (ha : a < 2 ^ 64) (l : Layout) : offset a l.align < l.align := by
  obtain ⟨hdvd, hlt⟩ := l.align_dvd
  have hpos := l.align_pos
  have hle := Nat.div_mul_le_self (a + l.align - 1) l.align
  rw [offset_eq ha hdvd hlt]
  omega

/-- A block that fits is as large as the request. -/
lemma size_le_of_fits {l : Layout} {a : ℕ} (ha : a < 2 ^ 64)
    (hfits : h.fits l.blockSize l.align a = true) : l.blockSize ≤ h.sizeAt a := by
  have hoffset := offset_lt ha l
  have hsum := l.align_add_blockSize
  rw [fits, decide_eq_true_eq, wrap_of_lt (by omega)] at hfits
  omega

end Heap

/-- What a request has led to: `ptr`, which is null when the request has failed, is a block of its
own, and no other block has changed sides. -/
structure Served (h : Heap) (L : BlockLists) (layout : Layout) (ptr : ℕ) (h' : Heap)
    (L' : BlockLists) : Prop where
  free : h'.FreeLists L'
  regions : ∀ a n, Home h.regions a n → Home h'.regions a n
  block : ptr ≠ 0 → Home h'.regions ptr layout.blockSize ∧ ∀ j, ptr ∉ L' j
  others : ∀ a, Home h.regions a 0 → (∀ i, a ∉ L i) → (∀ i, a ∉ L' i) ∧ (ptr ≠ 0 → a ≠ ptr)

section Requests

variable {h : Heap} {L : BlockLists} {layout : Layout}

/-- The blocks in the order in which they are tried. -/
def searchOrder (L : BlockLists) (layout : Layout) : List ℕ :=
  (Heap.listsFrom layout.blockSize).flatMap L

/-- The first block in the lists that the request fits into. -/
def Heap.firstFit (h : Heap) (L : BlockLists) (layout : Layout) : Option ℕ :=
  (searchOrder L layout).find? (h.fits layout.blockSize layout.align)

/-- Served from the lists, or there is no block that fits. -/
lemma tryAlloc_served (hL : h.FreeLists L) (hclose : ∀ y, h.firstFit L layout = some y →
      h.sizeAt y ≤ layout.blockSize + 32) :
    (h.tryAllocFromFreeList layout = some (none, h) ∧
        h.firstFit L layout = none) ∨
      ∃ ptr h' L', h.tryAllocFromFreeList layout = some (some ptr, h') ∧
        Served h L layout ptr h' L' := by
  rcases hL.removeBestFit hclose with
    ⟨hremove, hfind⟩ | ⟨y, h', L', i, hremove, hL', hR, hy, hfits, hout⟩
  · refine .inl ⟨?_, hfind⟩
    rw [Heap.tryAllocFromFreeList, hremove]
    rfl
  · refine .inr ⟨y, { h' with usedBytes := wrap (h'.usedBytes + layout.blockSize) }, L', ?_,
      hL'.congr rfl rfl fun _ _ _ => ⟨rfl, rfl⟩, fun a n ha => ?_,
      fun _ => ⟨?_, fun j => (hout j).1⟩,
      fun a _ ha => ⟨fun j haj => ha j ((hout j).2 a haj), fun _ hay => ha i (hay ▸ hy)⟩⟩
    · rw [Heap.tryAllocFromFreeList, hremove]
      rfl
    · change Home h'.regions a n
      rwa [hR]
    · change Home h'.regions y layout.blockSize
      have hhome := hL.home i y hy
      rw [hR]
      exact hhome.le (Heap.size_le_of_fits hhome.lt hfits)

lemma Layout.le_pagesSize (l : Layout) : l.blockSize ≤ l.pagesSize ∧ 4096 ≤ l.pagesSize ∧
    l.pagesSize < 2 ^ 64 ∧ (l.pagesSize + 4095) / 4096 * 4096 = l.pagesSize := by
  have hpos := l.align_pos
  have hbound := l.bounded
  rw [Layout.blockSize, Layout.pagesSize]
  omega

/-- `insert` looks at the lists only. -/
lemma insert_congr (h h' : Heap) (hheads : h'.heads = h.heads) (hmem : h'.mem = h.mem)
    (ptr size : ℕ) : (h'.insert ptr size).heads = (h.insert ptr size).heads ∧
      (h'.insert ptr size).mem = (h.insert ptr size).mem := by
  simp only [Heap.insert]
  cases Heap.getListIndex size with
  | none => exact ⟨hheads, hmem⟩
  | some index => simp only [Heap.setLink, hheads, hmem, and_self]

/-- **A region is given to the heap.** -/
lemma giveRegion (hL : h.FreeLists L) {start size : ℕ} (hfresh : Fresh h start size)
    (hsize : size = 0 ∨ 24 ≤ size) (h' : Heap)
    (hheads : h'.heads = (h.insert start size).heads) (hmem : h'.mem = (h.insert start size).mem)
    (hR : h'.regions = ⟨start, size⟩ :: h.regions) :
    ∃ L', h'.FreeLists L' ∧ ∀ i, ∀ b ∈ L' i,
      (b = start ∧ size ≠ 0 ∧ h'.sizeAt start = size % 2 ^ 64) ∨
        (b ∈ L i ∧ h'.sizeAt b = h.sizeAt b) := by
  have hadd := hL.addRegion (r := ⟨start, size⟩) hfresh.2
  rcases hsize with rfl | hsize
  · refine ⟨L, hadd.congr hR hheads fun i b _ => ?_, fun i b hb => .inr ⟨hb, ?_⟩⟩
    · simp only [Heap.next, Heap.sizeAt, hmem]
      exact ⟨rfl, rfl⟩
    · simp only [Heap.sizeAt, hmem]
      rfl
  · have hhome : Home (⟨start, size⟩ :: h.regions) start size :=
      ⟨_, List.mem_cons_self, rfl, le_rfl, hsize, hfresh.1⟩
    have hout : ∀ i, start ∉ L i := fun i hi =>
      (hL.home i start hi).ne_fresh (by omega) hfresh.2 rfl
    obtain ⟨L', hL', hmembers⟩ := hadd.insert hhome hout
    obtain ⟨hfields, hfields'⟩ := insert_congr h
      { h with regions := ⟨start, size⟩ :: h.regions } rfl rfl start size
    have hread : ∀ b, h'.next b = ({ h with regions := ⟨start, size⟩ :: h.regions }.insert start
        size).next b ∧ h'.sizeAt b = ({ h with regions := ⟨start, size⟩ :: h.regions }.insert start
        size).sizeAt b := by
      intro b
      simp only [Heap.next, Heap.sizeAt, hmem, hfields']
      exact ⟨trivial, trivial⟩
    refine ⟨L', hL'.congr (by rw [hR, (Heap.insert_account _ _ _).regions])
      (hheads.trans hfields.symm) fun i b _ => hread b, fun i b hb => ?_⟩
    rw [(hread start).2, (hread b).2]
    rcases hmembers i b hb with ⟨hb, hs⟩ | hb
    · exact .inl ⟨hb, by omega, hs⟩
    · exact .inr hb

/-- When no old block fits, only the new one can be found. -/
lemma found_eq_new {h₁ : Heap} {L₁ : BlockLists} {p n y : ℕ} (hmembers : ∀ i, ∀ b ∈ L₁ i,
      (b = p ∧ h₁.sizeAt b = n) ∨ (b ∈ L i ∧ h₁.sizeAt b = h.sizeAt b))
    (hfind : h.firstFit L layout = none) (hy : h₁.firstFit L₁ layout = some y) :
    y = p ∧ h₁.sizeAt y = n ∧ wrap (Heap.offset p layout.align + layout.blockSize) ≤ n := by
  obtain ⟨i, hi, hyi⟩ := List.mem_flatMap.mp (List.mem_of_find?_eq_some hy)
  have hfits := List.find?_some hy
  rw [Heap.fits, decide_eq_true_eq] at hfits
  rcases hmembers i y hyi with ⟨rfl, hsize⟩ | ⟨hold, hsize⟩
  · exact ⟨rfl, hsize, hsize ▸ hfits⟩
  · have hno := List.find?_eq_none.mp hfind y (List.mem_flatMap.mpr ⟨i, hi, hold⟩)
    rw [Heap.fits, decide_eq_true_eq, ← hsize] at hno
    exact absurd hfits hno

/-- Served from a new region, or the heap has only grown. -/
lemma expandHeap_served (hL : h.FreeLists L) {p : ℕ} (hfresh : Fresh h p layout.pagesSize)
    (hfind : h.firstFit L layout = none)
    (hpages : wrap (Heap.offset p layout.align + layout.blockSize) ≤ layout.pagesSize →
      layout.pagesSize ≤ layout.blockSize + 32) :
    ∃ ptr h' L', h.expandHeap layout (some p) = some (ptr, h') ∧
      Served h L layout (ptr.getD 0) h' L' := by
  obtain ⟨-, hroom, hlt, hround⟩ := layout.le_pagesSize
  rw [Heap.expandHeap]
  simp only [hround]
  -- the heap with the new block, which is the only one that can fit
  set h₀ : Heap := { h with
    pagesAllocated := wrap (h.pagesAllocated + (layout.pagesSize + 4095) / 4096)
    regions := ⟨p, layout.pagesSize⟩ :: h.regions } with hh₀
  set h₁ : Heap := { h₀.insert p layout.pagesSize with
    totalBytes := wrap ((h₀.insert p layout.pagesSize).totalBytes + layout.pagesSize) } with hh₁
  obtain ⟨hheads, hmem⟩ := insert_congr h h₀ rfl rfl p layout.pagesSize
  have hR : h₁.regions = ⟨p, layout.pagesSize⟩ :: h.regions :=
    (Heap.insert_account h₀ p _).regions
  obtain ⟨L₁, hL₁, hmembers⟩ := giveRegion hL hfresh (.inr (by omega)) h₁ hheads hmem hR
  have hclose : ∀ y, h₁.firstFit L₁ layout = some y → h₁.sizeAt y ≤ layout.blockSize + 32 := by
    intro y hy
    have hnew : ∀ i, ∀ b ∈ L₁ i, (b = p ∧ h₁.sizeAt b = layout.pagesSize) ∨
        (b ∈ L i ∧ h₁.sizeAt b = h.sizeAt b) := by
      intro i b hb
      rcases hmembers i b hb with ⟨rfl, -, hs⟩ | hold
      · exact .inl ⟨rfl, hs.trans (Nat.mod_eq_of_lt hlt)⟩
      · exact .inr hold
    obtain ⟨-, hsize, hfits⟩ := found_eq_new hnew hfind hy
    rw [hsize]
    exact hpages hfits
  have hout : ∀ a, Home h.regions a 0 → (∀ i, a ∉ L i) → ∀ i, a ∉ L₁ i := by
    intro a ha hout i hai
    rcases hmembers i a hai with ⟨hap, -⟩ | ⟨hold, -⟩
    · exact ha.ne_fresh (by omega) hfresh.2 hap
    · exact hout i hold
  have hgrow : ∀ a n, Home h.regions a n → Home h₁.regions a n := by
    intro a n ha
    rw [hR]
    exact ha.cons _
  rcases tryAlloc_served hL₁ hclose with ⟨htry, -⟩ | ⟨ptr, h', L', htry, hserved⟩
  · exact ⟨none, h₁, L₁, htry, hL₁, hgrow, fun h0 => absurd rfl h0,
      fun a ha haL => ⟨hout a ha haL, fun h0 => absurd rfl h0⟩⟩
  · exact ⟨some ptr, h', L', htry, hserved.free, fun a n ha => hserved.regions a n (hgrow a n ha),
      hserved.block, fun a ha haL => hserved.others a (hgrow a 0 ha) (hout a ha haL)⟩

/-- **A request**, in a heap in which no block will be split. -/
lemma alloc_served (hL : h.FreeLists L) {pages : Option ℕ}
    (hfresh : ∀ p, pages = some p → Fresh h p layout.pagesSize)
    (hclose : ∀ y, h.firstFit L layout = some y →
      h.sizeAt y ≤ layout.blockSize + 32)
    (hpages : h.firstFit L layout = none →
      ∀ p, pages = some p →
        wrap (Heap.offset p layout.align + layout.blockSize) ≤ layout.pagesSize →
        layout.pagesSize ≤ layout.blockSize + 32) (hinit : h.initialized = true) :
    ∃ ptr h' L', h.alloc layout pages = some (ptr, h') ∧ Served h L layout ptr h' L' := by
  rw [Heap.alloc, hinit]
  simp only [Bool.not_true, Bool.false_eq_true, if_false]
  rcases tryAlloc_served hL hclose with ⟨htry, hfind⟩ | ⟨ptr, h', L', htry, hserved⟩
  · cases hp : pages with
    | none =>
      refine ⟨0, h, L, by rw [htry]; rfl, hL, fun a n ha => ha, fun h0 => absurd rfl h0,
        fun a _ ha => ⟨ha, fun h0 => absurd rfl h0⟩⟩
    | some p =>
      obtain ⟨ptr, h', L', hexpand, hserved⟩ :=
        expandHeap_served hL (hfresh p hp) hfind (hpages hfind p hp)
      exact ⟨ptr.getD 0, h', L', by rw [htry]; simp only [hexpand, Option.map_some], hserved⟩
  · exact ⟨ptr, h', L', by rw [htry], hserved⟩

end Requests

/-! ## The invariant -/

/-- The lists are in order, and the blocks in use begin regions as well. -/
structure Tidy (st : HeapRun) (L : BlockLists) : Prop where
  free : st.heap.FreeLists L
  live_nodup : (st.live.map Prod.fst).Nodup
  live_free : ∀ b ∈ st.live, ∀ i, b.1 ∉ L i
  live_home : ∀ b ∈ st.live, Home st.heap.regions b.1 b.2.blockSize

/-- **A tidy heap is partitioned.** -/
lemma Tidy.partitioned {st : HeapRun} {L : BlockLists} (h : Tidy st L) : Partitioned st := by
  have hblock : ∀ e ∈ st.ranges L, Home st.heap.regions e.start e.count := by
    intro e he
    rw [HeapRun.ranges, List.mem_append, List.mem_map, List.mem_flatMap] at he
    rcases he with ⟨b, hb, rfl⟩ | ⟨i, -, he⟩
    · exact h.live_home b hb
    · obtain ⟨a, ha, rfl⟩ := List.mem_map.mp he
      exact h.free.home i a ha
  have hstarts : (st.ranges L).Pairwise fun e e' => e.start ≠ e'.start := by
    rw [HeapRun.ranges, List.pairwise_append, List.pairwise_map, List.pairwise_flatMap]
    refine ⟨List.pairwise_map.mp h.live_nodup, ⟨fun i _ => List.pairwise_map.mpr (h.free.nodup i),
      (List.nodup_finRange 32).imp ?_⟩, ?_⟩
    · rintro i j hij e he e' he'
      obtain ⟨a, ha, rfl⟩ := List.mem_map.mp he
      obtain ⟨a', ha', rfl⟩ := List.mem_map.mp he'
      exact fun heq => h.free.disjoint i j hij a ha ((show a = a' from heq) ▸ ha')
    · rintro e he e' he'
      obtain ⟨b, hb, rfl⟩ := List.mem_map.mp he
      obtain ⟨i, -, he'⟩ := List.mem_flatMap.mp he'
      obtain ⟨a, ha, rfl⟩ := List.mem_map.mp he'
      exact fun heq => h.live_free b hb i ((show b.1 = a from heq) ▸ ha)
  refine ⟨L, h.free.chain, ?_, fun e he => ?_⟩
  · refine hstarts.imp_of_mem fun {e e'} he he' hne => ?_
    have hapart := Home.apart h.free.apart (hblock e he) (hblock e' he') hne
    rw [Finset.disjoint_left]
    intro x hx hx'
    rw [Extent.mem_frames] at hx hx'
    omega
  · obtain ⟨r, hr, hstart, hcount, -⟩ := hblock e he
    refine ⟨r, hr, fun x hx => ?_⟩
    rw [Extent.mem_frames] at hx ⊢
    omega

/-- The step is one that splits no block, and writes a `FreeBlock` only where there is room: the
first block that fits has at most 32 bytes more than asked for, and when none fits the same holds
for the pages that the heap is given. -/
def Spares (st : HeapRun) : HeapOp → Prop
  | .init _ size => size = 0 ∨ 24 ≤ size
  | .alloc layout pages => st.heap.initialized = true →
      ∀ L : BlockLists, (∀ i, Chain st.heap.link 0 (.inl i) (L i)) →
        (∀ y, st.heap.firstFit L layout = some y →
          st.heap.sizeAt y ≤ layout.blockSize + 32) ∧
        (st.heap.firstFit L layout = none →
          ∀ p, pages = some p →
            wrap (Heap.offset p layout.align + layout.blockSize) ≤ layout.pagesSize →
            layout.pagesSize ≤ layout.blockSize + 32)
  | .dealloc _ _ => True
  | .store _ _ => True

section Steps

variable {st : HeapRun} {L : BlockLists}

namespace Tidy

lemma init (h : Tidy st L) {start size : ℕ} (hfresh : Fresh st.heap start size)
    (hsize : size = 0 ∨ 24 ≤ size) : ∃ L', Tidy { st with heap := st.heap.init start size } L' := by
  obtain ⟨L', hL', hmembers⟩ := giveRegion h.free hfresh hsize (st.heap.init start size)
    rfl rfl rfl
  refine ⟨L', hL', h.live_nodup, fun b hb i hbi => ?_, fun b hb => (h.live_home b hb).cons _⟩
  rcases hmembers i b.1 hbi with ⟨hstart, hne, -⟩ | ⟨hold, -⟩
  · exact (h.live_home b hb).ne_fresh hne hfresh.2 hstart
  · exact h.live_free b hb i hold

lemma served (h : Tidy st L) {layout : Layout} {ptr : ℕ} {h' : Heap} {L' : BlockLists}
    (hserved : Served st.heap L layout ptr h' L') :
    Tidy (if ptr = 0 then { st with heap := h' } else ⟨h', (ptr, layout) :: st.live⟩) L' := by
  have hold : ∀ b ∈ st.live, (∀ i, b.1 ∉ L' i) ∧ (ptr ≠ 0 → b.1 ≠ ptr) := fun b hb =>
    hserved.others b.1 ((h.live_home b hb).le (Nat.zero_le _)) (h.live_free b hb)
  have hhome : ∀ b ∈ st.live, Home h'.regions b.1 b.2.blockSize := fun b hb =>
    hserved.regions _ _ (h.live_home b hb)
  split_ifs with hptr
  · exact ⟨hserved.free, h.live_nodup, fun b hb => (hold b hb).1, hhome⟩
  · obtain ⟨hblock, hout⟩ := hserved.block hptr
    refine ⟨hserved.free, List.nodup_cons.mpr ⟨fun hmem => ?_, h.live_nodup⟩, fun b hb => ?_,
      fun b hb => ?_⟩
    · obtain ⟨b, hb, hbp⟩ := List.mem_map.mp hmem
      exact (hold b hb).2 hptr hbp
    · rcases List.mem_cons.mp hb with rfl | hb
      · exact hout
      · exact (hold b hb).1
    · rcases List.mem_cons.mp hb with rfl | hb
      · exact hblock
      · exact hhome b hb

lemma dealloc (h : Tidy st L) {ptr : ℕ} {layout : Layout} (hlive : (ptr, layout) ∈ st.live) :
    ∃ L', Tidy ⟨st.heap.dealloc ptr layout, st.live.erase (ptr, layout)⟩ L' := by
  have hsub : ∀ b ∈ st.live.erase (ptr, layout), b ∈ st.live := fun b hb => List.mem_of_mem_erase hb
  have hnodup : ((st.live.erase (ptr, layout)).map Prod.fst).Nodup :=
    h.live_nodup.sublist (List.erase_sublist.map _)
  rw [Heap.dealloc]
  split_ifs with hinit
  · exact ⟨L, h.free, hnodup, fun b hb => h.live_free b (hsub b hb),
      fun b hb => h.live_home b (hsub b hb)⟩
  · have hfree : Heap.FreeLists
        { st.heap with usedBytes := wrapSub st.heap.usedBytes layout.blockSize } L :=
      h.free.congr rfl rfl fun _ _ _ => ⟨rfl, rfl⟩
    obtain ⟨L', hL', hmembers⟩ := hfree.insert (h.live_home _ hlive) (h.live_free _ hlive)
    refine ⟨L', hL', hnodup, fun b hb i hbi => ?_, fun b hb => ?_⟩
    · rcases hmembers i b.1 hbi with ⟨hbp, -⟩ | ⟨hold, -⟩
      · -- the block given back is the only one that begins there
        have heq : b = (ptr, layout) :=
          List.inj_on_of_nodup_map h.live_nodup (hsub b hb) hlive hbp
        exact List.Nodup.not_mem_erase (List.Nodup.of_map _ h.live_nodup) (heq ▸ hb)
      · exact h.live_free b (hsub b hb) i hold
    · rw [(Heap.insert_account _ _ _).regions]
      exact h.live_home b (hsub b hb)

lemma store (h : Tidy st L) {addr : ℕ} {b : ℕ × Layout} (hb : b ∈ st.live) (hle : b.1 ≤ addr)
    (hlt : addr < b.1 + b.2.size) (byte : U8) :
    Tidy { st with heap := { st.heap with mem := Function.update st.heap.mem addr byte } } L := by
  refine ⟨h.free.write (h.live_home b hb) (h.live_free b hb) fun x hx => ?_, h.live_nodup,
    h.live_free, h.live_home⟩
  refine Function.update_of_ne ?_ _ _
  rintro rfl
  have hround : b.2.size ≤ b.2.blockSize := by
    rw [Layout.blockSize]
    omega
  omega

end Tidy

/-- **One step.**  It comes back, and the heap stays tidy. -/
lemma heapStep_tidy (st : HeapRun) (op : HeapOp) (h : ∃ L, Tidy st L)
    (hok : Allowed st op ∧ Spares st op) : ∃ st', heapStep st op = some st' ∧ ∃ L, Tidy st' L := by
  obtain ⟨L, h⟩ := h
  obtain ⟨hallowed, hspares⟩ := hok
  cases op with
  | init start size => exact ⟨_, rfl, h.init hallowed hspares⟩
  | alloc layout pages =>
    cases hinit : st.heap.initialized with
    | false =>
      refine ⟨st, ?_, L, h⟩
      simp [heapStep, Heap.alloc, hinit]
    | true =>
      obtain ⟨hclose, hpages⟩ := hspares hinit L h.free.chain
      obtain ⟨ptr, h', L', halloc, hserved⟩ := alloc_served h.free hallowed hclose hpages hinit
      exact ⟨_, by rw [heapStep, halloc]; rfl, L', h.served hserved⟩
  | dealloc ptr layout => exact ⟨_, rfl, h.dealloc hallowed⟩
  | store addr byte =>
    obtain ⟨b, hb, hle, hlt⟩ := hallowed
    exact ⟨_, rfl, L, h.store hb hle hlt byte⟩

end Steps

lemma new_tidy (mem : ℕ → U8) : Tidy ⟨Heap.new mem, []⟩ fun _ => [] :=
  ⟨⟨List.Pairwise.nil, fun _ => rfl, fun _ => List.nodup_nil,
      fun _ _ _ _ ha => absurd ha List.not_mem_nil, fun _ _ ha => absurd ha List.not_mem_nil⟩,
    List.nodup_nil, fun _ hb => absurd hb List.not_mem_nil,
    fun _ hb => absurd hb List.not_mem_nil⟩

/-- **Blocks never overlap, as long as none is split.**  Every run of requests, returned blocks, new
regions and writes of the owners comes back, and leaves the heap partitioned. -/
theorem heap_partitioned (mem : ℕ → U8) {ops : List HeapOp}
    (hmeets : Meets (fun st op => Allowed st op ∧ Spares st op) heapStep ⟨Heap.new mem, []⟩ ops) :
    ∃ st, run heapStep ⟨Heap.new mem, []⟩ ops = some st ∧ Partitioned st := by
  obtain ⟨st, hrun, L, h⟩ := run_total_of_meets heapStep_tidy ⟨_, new_tidy mem⟩ hmeets
  exact ⟨st, hrun, h.partitioned⟩

/-- Sixty-four bytes, aligned to eight. -/
def smallLayout : Layout := ⟨64, 8, ⟨3, rfl⟩, by decide⟩

lemma fresh_new (mem : ℕ → U8) {start size : ℕ} (h : start + size ≤ 2 ^ 64) :
    Fresh (Heap.new mem) start size :=
  ⟨h, fun _ hr => absurd hr List.not_mem_nil⟩

/-- A region of 4096 bytes is one block. -/
lemma region_lists : ∀ i, Chain ((Heap.new fun _ => 0).init 0x10000 0x1000).link 0 (.inl i)
    (if i = 12 then [0x10000] else []) := by decide +kernel

/-- A region of 96 bytes, of which a request takes all. -/
theorem heap_partitioned_whole_block : ∃ st,
    run heapStep ⟨Heap.new fun _ => 0, []⟩ [.init 0x10000 96, .alloc smallLayout none] = some st ∧
      Partitioned st := by
  refine heap_partitioned (fun _ => 0) ⟨⟨fresh_new _ (by decide), .inr (by decide)⟩, ?_⟩
  rintro _ ⟨rfl⟩
  refine ⟨⟨fun p hp => (nomatch hp), fun _ L hL => ?_⟩, fun _ _ => trivial⟩
  -- the only block is the region itself
  have hlists : ∀ i, Chain ((Heap.new fun _ => 0).init 0x10000 96).link 0 (.inl i)
      (if i = 6 then [0x10000] else []) := by decide +kernel
  obtain rfl : L = fun i => if i = 6 then [0x10000] else [] :=
    funext fun i => (hL i).unique (hlists i)
  refine ⟨fun y hy => ?_, fun _ p hp => (nomatch hp)⟩
  obtain ⟨i, -, hyi⟩ := List.mem_flatMap.mp (List.mem_of_find?_eq_some hy)
  split_ifs at hyi
  · rw [List.mem_singleton.mp hyi]
    decide +kernel
  · exact absurd hyi List.not_mem_nil

/-- A region of 4096 bytes, from which 64 are asked for.  The rest, 4032 bytes, is put at
`0x10000 + 24 * 64`, and ends behind the region. -/
theorem split_leaves_region : ∃ st,
    Meets Allowed heapStep ⟨Heap.new fun _ => 0, []⟩
        [.init 0x10000 0x1000, .alloc smallLayout none] ∧
      run heapStep ⟨Heap.new fun _ => 0, []⟩ [.init 0x10000 0x1000, .alloc smallLayout none] =
        some st ∧
      ¬ Partitioned st := by
  have hrun : (run heapStep ⟨Heap.new fun _ => 0, []⟩
      [.init 0x10000 0x1000, .alloc smallLayout none]).any (fun st =>
        st.heap.link (.inl 11) = 0x10600 ∧ st.heap.sizeAt 0x10600 = 4032 ∧
          st.heap.regions = [⟨0x10000, 0x1000⟩]) = true := by decide +kernel
  rw [Option.any_eq_true] at hrun
  obtain ⟨st, hst, hfacts⟩ := hrun
  obtain ⟨hhead, hsize, hregions⟩ := of_decide_eq_true hfacts
  refine ⟨st, ⟨fresh_new _ (by decide), ?_⟩, hst, ?_⟩
  · rintro _ ⟨rfl⟩
    exact ⟨fun p hp => (nomatch hp), fun _ _ => trivial⟩
  · rintro ⟨L, hchain, -, hinside⟩
    have hlist := hchain 11
    cases hL : L 11 with
    | nil =>
      rw [hL] at hlist
      exact absurd (hhead.symm.trans hlist) (by decide)
    | cons a as =>
      rw [hL] at hlist
      have ha : a = 0x10600 := hlist.1.symm.trans hhead
      have hmem : (⟨0x10600, 4032⟩ : Extent) ∈ st.ranges L := by
        refine List.mem_append_right _ (List.mem_flatMap.mpr ⟨11, List.mem_finRange 11, ?_⟩)
        rw [hL, ha, List.map_cons, hsize]
        exact List.mem_cons_self
      obtain ⟨r, hr, hsub⟩ := hinside _ hmem
      rw [hregions, List.mem_singleton] at hr
      have hout := hsub (Extent.mem_frames.mpr (by decide) : 0x11000 ∈ _)
      rw [hr, Extent.mem_frames] at hout
      exact absurd hout (by decide)

end Masika
