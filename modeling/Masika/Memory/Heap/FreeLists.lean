import Masika.Memory.Heap.Links

/-!
# The lists of free blocks

`Heap.FreeLists` ties the bytes of the heap to 32 lists of addresses.  It is kept as long as every
block begins a region of its own (`Home`): then different blocks, with the `FreeBlock` at their
beginning, do not overlap.

* `FreeLists.write` — the owner of a block writes to it.
* `FreeLists.insert` — a block is put into a list.
* `FreeLists.removeBestFit` — the search is `find?` on the lists one after another, and what it
  finds is taken out, if the block need not be split.
-/

namespace Masika

/-! ## Blocks that begin a region -/

/-- A block of `n` bytes at the beginning of a region that has room for a `FreeBlock`. -/
def Home (regions : List Extent) (a n : ℕ) : Prop :=
  ∃ r ∈ regions, r.start = a ∧ n ≤ r.count ∧ 24 ≤ r.count ∧ a + r.count ≤ 2 ^ 64

section Regions

variable {regions : List Extent} {a b n k : ℕ}

lemma Home.lt (h : Home regions a n) : a < 2 ^ 64 := by
  obtain ⟨r, -, -, -, hroom, hend⟩ := h
  omega

lemma Home.le (h : Home regions a n) (hk : k ≤ n) : Home regions a k := by
  obtain ⟨r, hr, hstart, hn, hroom⟩ := h
  exact ⟨r, hr, hstart, hk.trans hn, hroom⟩

lemma Home.cons (h : Home regions a n) (r : Extent) : Home (r :: regions) a n := by
  obtain ⟨r', hr', hhome⟩ := h
  exact ⟨r', List.mem_cons_of_mem r hr', hhome⟩

/-- Different blocks lie apart, with their `FreeBlock`s. -/
lemma Home.apart (hR : Extent.Apart regions) (ha : Home regions a n) (hb : Home regions b k)
    (hne : a ≠ b) : a + max n 24 ≤ b ∨ b + max k 24 ≤ a := by
  obtain ⟨r, hr, rfl, hn, hroom, -⟩ := ha
  obtain ⟨r', hr', rfl, hk, hroom', -⟩ := hb
  have hdisj := hR.disjoint hr hr' fun heq => hne (by rw [heq])
  rw [Finset.disjoint_left] at hdisj
  by_contra hcon
  rcases Nat.le_total r.start r'.start with hle | hle
  · exact hdisj (a := r'.start) (Extent.mem_frames.mpr (by omega))
      (Extent.mem_frames.mpr (by omega))
  · exact hdisj (a := r.start) (Extent.mem_frames.mpr (by omega))
      (Extent.mem_frames.mpr (by omega))

/-- Blocks do not begin where a fresh region does. -/
lemma Home.ne_fresh (h : Home regions a n) {start size : ℕ} (hsize : size ≠ 0)
    (hfresh : ∀ r ∈ regions, Disjoint (Extent.mk start size).frames r.frames) : a ≠ start := by
  rintro rfl
  obtain ⟨r, hr, hstart, -, hroom, -⟩ := h
  have hdisj := hfresh r hr
  rw [Finset.disjoint_left] at hdisj
  exact hdisj (a := a) (Extent.mem_frames.mpr ⟨le_rfl, by simp only; omega⟩)
    (Extent.mem_frames.mpr (by omega))

end Regions

/-- The `FreeBlock`s of such blocks do not overlap. -/
lemma Home.places {regions : List Extent} (hR : Extent.Apart regions) :
    Places fun a => Home regions a 0 where
  apart _ _ ha hb hne := by
    have := Home.apart hR ha hb hne
    omega
  lt _ ha := ha.lt

namespace Heap

variable {h : Heap} {a n : ℕ}

/-! ## The lists -/

/-- The lists in the memory of `h` are `L`: every block of them begins a region. -/
structure FreeLists (h : Heap) (L : BlockLists) : Prop where
  apart : Extent.Apart h.regions
  chain : ∀ i, Chain h.link 0 (.inl i) (L i)
  nodup : ∀ i, (L i).Nodup
  disjoint : ∀ i j, i ≠ j → ∀ a ∈ L i, a ∉ L j
  home : ∀ i, ∀ a ∈ L i, Home h.regions a (h.sizeAt a)

namespace FreeLists

variable {L : BlockLists}

lemma places (hL : h.FreeLists L) : Places fun a => Home h.regions a 0 := Home.places hL.apart

lemma linked (hL : h.FreeLists L) : Linked (fun a => Home h.regions a 0) h L :=
  ⟨hL.chain, hL.nodup, hL.disjoint, fun i a ha => (hL.home i a ha).le (Nat.zero_le _)⟩

lemma of_linked (hR : Extent.Apart h.regions) (hL : Linked (fun a => Home h.regions a 0) h L)
    (hhome : ∀ i, ∀ a ∈ L i, Home h.regions a (h.sizeAt a)) : h.FreeLists L :=
  ⟨hR, hL.chain, hL.nodup, hL.disjoint, hhome⟩

/-- Only pointers and sizes matter. -/
lemma congr (hL : h.FreeLists L) {h' : Heap} (hR : h'.regions = h.regions)
    (hheads : h'.heads = h.heads)
    (hmem : ∀ i, ∀ b ∈ L i, h'.next b = h.next b ∧ h'.sizeAt b = h.sizeAt b) : h'.FreeLists L := by
  refine of_linked (hR ▸ hL.apart) ?_ fun i b hb => ?_
  · rw [hR]
    exact hL.linked.congr hheads fun i b hb => (hmem i b hb).1
  · rw [hR, (hmem i b hb).2]
    exact hL.home i b hb

/-- One more region. -/
lemma addRegion (hL : h.FreeLists L) {r : Extent}
    (hfresh : ∀ r' ∈ h.regions, Disjoint r.frames r'.frames) :
    FreeLists { h with regions := r :: h.regions } L :=
  ⟨List.pairwise_cons.mpr ⟨hfresh, hL.apart⟩, hL.chain, hL.nodup, hL.disjoint,
    fun i a ha => (hL.home i a ha).cons r⟩

/-- **Writes to a block that is in no list.** -/
lemma write (hL : h.FreeLists L) (ha : Home h.regions a n) (hout : ∀ i, a ∉ L i)
    {mem : ℕ → U8} (hmem : ∀ x, ¬ (a ≤ x ∧ x < a + max n 24) → mem x = h.mem x) :
    FreeLists { h with mem := mem } L := by
  refine hL.congr rfl rfl fun i b hb => ?_
  have hapart := Home.apart hL.apart ha (hL.home i b hb) fun hab => hout i (hab ▸ hb)
  exact ⟨loadBytes_congr fun x _ _ => hmem x (by omega),
    loadBytes_congr fun x _ _ => hmem x (by omega)⟩

/-- **`insert` of a block that is in no list.** -/
lemma insert (hL : h.FreeLists L) (ha : Home h.regions a n) (hout : ∀ i, a ∉ L i) :
    ∃ L', (h.insert a n).FreeLists L' ∧ ∀ i, ∀ b ∈ L' i,
      (b = a ∧ (h.insert a n).sizeAt a = n % 2 ^ 64) ∨
        (b ∈ L i ∧ (h.insert a n).sizeAt b = h.sizeAt b) := by
  cases hindex : getListIndex n with
  | none =>
    rw [Heap.insert, hindex]
    exact ⟨L, hL, fun i b hb => .inr ⟨hb, rfl⟩⟩
  | some index =>
    have hin : Home h.regions a 0 := ha.le (Nat.zero_le _)
    have hsize : ∀ b, Home h.regions b 0 → b ≠ a → (h.insert a n).sizeAt b = h.sizeAt b := by
      intro b hb hba
      rw [insert_eq hindex]
      exact (writeHeader_apart hL.places hin hb hba h n index).2
    have hself : (h.insert a n).sizeAt a = n % 2 ^ 64 := by
      rw [insert_eq hindex]
      exact h.sizeAt_writeHeader a n index
    -- a reference to address 0 is no block at all: the list is gone
    obtain ⟨L', hlinked, hmembers⟩ : ∃ L',
        Linked (fun a => Home h.regions a 0) (h.insert a n) L' ∧
          ∀ i, ∀ b ∈ L' i, b = a ∨ b ∈ L i := by
      by_cases hzero : a = 0
      · refine ⟨Function.update L index [], ?_, fun i b hb => .inr ?_⟩
        · rw [insert_eq hindex]
          subst hzero
          exact (hL.linked.header hL.places hin hout n index).lose index
        · by_cases hi : i = index
          · rw [hi, Function.update_self] at hb
            exact absurd hb List.not_mem_nil
          · rwa [Function.update_of_ne hi] at hb
      · refine ⟨_, (hL.linked.insert hL.places hin hzero hout hindex).1, fun i b hb => ?_⟩
        by_cases hi : i = index
        · rw [hi, Function.update_self] at hb
          rw [hi]
          exact List.mem_cons.mp hb
        · rw [Function.update_of_ne hi] at hb
          exact .inr hb
    have hcases : ∀ i, ∀ b ∈ L' i, (b = a ∧ (h.insert a n).sizeAt a = n % 2 ^ 64) ∨
        (b ∈ L i ∧ (h.insert a n).sizeAt b = h.sizeAt b) := by
      intro i b hb
      by_cases hba : b = a
      · exact .inl ⟨hba, hself⟩
      · have hold := (hmembers i b hb).resolve_left hba
        exact .inr ⟨hold, hsize b ((hL.home i b hold).le (Nat.zero_le _)) hba⟩
    have hR := (h.insert_account a n).regions
    refine ⟨L', of_linked (hR ▸ hL.apart) (by rw [hR]; exact hlinked) fun i b hb => ?_, hcases⟩
    rw [hR]
    rcases hcases i b hb with ⟨rfl, hs⟩ | ⟨hold, hs⟩
    · rw [hs]
      exact ha.le (Nat.mod_le _ _)
    · rw [hs]
      exact hL.home i b hold

/-- **Taking a block out of its list.** -/
lemma takeOut (hL : h.FreeLists L) {i : Fin 32} {pre post : List ℕ} {y : ℕ}
    (hi : L i = pre ++ y :: post) :
    (h.takeOut (slotAfter (.inl i) pre) y).FreeLists (Function.update L i (pre ++ post)) ∧
      (h.takeOut (slotAfter (.inl i) pre) y).regions = h.regions ∧
      ∀ b, Home h.regions b 0 → (h.takeOut (slotAfter (.inl i) pre) y).sizeAt b = h.sizeAt b := by
  obtain ⟨hlinked, hsize⟩ := hL.linked.takeOut hL.places hi
  have hR : (h.takeOut (slotAfter (.inl i) pre) y).regions = h.regions :=
    (takeOut_account h _ y).regions
  refine ⟨of_linked (hR ▸ hL.apart) (by rw [hR]; exact hlinked) fun j b hb => ?_, hR, hsize⟩
  rw [hR, hsize b (hlinked.mem j b hb)]
  by_cases hj : j = i
  · rw [hj, Function.update_self] at hb
    refine hL.home i b ?_
    rw [hi]
    exact List.perm_middle.mem_iff.mpr (List.mem_cons_of_mem y hb)
  · rw [Function.update_of_ne hj] at hb
    exact hL.home j b hb

/-- **`remove_best_fit` without a split.** -/
lemma removeBestFit (hL : h.FreeLists L) {size align : ℕ}
    (hclose : ∀ y, ((listsFrom size).flatMap L).find? (h.fits size align) = some y →
      h.sizeAt y ≤ size + 32) :
    (h.removeBestFit size align = some (none, h) ∧
        ((listsFrom size).flatMap L).find? (h.fits size align) = none) ∨
      ∃ y h' L' i, h.removeBestFit size align = some (some y, h') ∧ h'.FreeLists L' ∧
        h'.regions = h.regions ∧ y ∈ L i ∧ h.fits size align y = true ∧
        ∀ j, y ∉ L' j ∧ ∀ b ∈ L' j, b ∈ L j := by
  rcases search_eq hL.linked.chain (hL.linked.length_lt hL.places) size align (listsFrom size) with
    ⟨hsearch, hfind⟩ | ⟨i, pre, y, post, hi, hfind, hsearch⟩
  · refine .inl ⟨?_, hfind⟩
    rw [Heap.removeBestFit, hsearch]
    rfl
  · obtain ⟨hL', hR, hsize⟩ := hL.takeOut hi
    have hy : y ∈ L i := by rw [hi]; simp
    have hsame := hsize y ((hL.home i y hy).le (Nat.zero_le _))
    refine .inr ⟨y, _, _, i, ?_, hL', hR, hy, List.find?_some hfind, fun j => ?_⟩
    · simp only [Heap.removeBestFit, hsearch, Option.map_some]
      rw [splitOff, hsame, if_neg (Nat.not_lt.mpr (hclose y hfind))]
    · have hnodup := hL.nodup i
      rw [hi] at hnodup
      obtain ⟨hout, -⟩ := List.nodup_cons.mp (List.perm_middle.nodup_iff.mp hnodup)
      by_cases hj : j = i
      · rw [hj, Function.update_self, hi]
        exact ⟨hout, fun b hb => List.perm_middle.mem_iff.mpr (List.mem_cons_of_mem y hb)⟩
      · rw [Function.update_of_ne hj]
        exact ⟨hL.disjoint i j (Ne.symm hj) y hy, fun b hb => hb⟩

end FreeLists

end Heap

end Masika
