import Mathlib.Data.Multiset.Basic
import Masika.Memory.Heap.Partition

/-!
# What is reserved

`remove_best_fit` puts the rest of a block that it splits where it does not belong, and so the
blocks in the lists may overlap other blocks.  What keeps the lists in order is less than what
`Partitioned` asks for: the `FreeBlock`s of the blocks in the lists and the blocks in use do not
overlap (`HeapRun.reserved`, `ReservedApart`).  This is kept as long as `FreeBlock`s are written
only where nothing is reserved.

* `ReservedApart.insert`, `ReservedApart.takeOut` — a block enters or leaves the lists.
* `ReservedApart.hold`, `ReservedApart.release` — a block is handed out, or is in use no longer.
* `ReservedApart.write` — the owner of a block writes to it.

The sizes of the blocks in the lists are then what the calls have made of them.  They are collected
in `Books`, without addresses, together with what the heap says about itself.  The calls act on the
books by entries.
-/

namespace Masika

/-! ## What is reserved -/

namespace Heap

/-- All blocks of the lists. -/
def blocks (L : BlockLists) : List ℕ := (List.finRange 32).flatMap L

lemma mem_blocks {L : BlockLists} {a : ℕ} : a ∈ blocks L ↔ ∃ i, a ∈ L i := by
  simp [blocks]

lemma flatMap_update_perm {L : BlockLists} {i : Fin 32} {a : ℕ} {xs : List ℕ}
    (h : (L i).Perm (a :: xs)) {is : List (Fin 32)} (his : is.Nodup) (hi : i ∈ is) :
    (is.flatMap L).Perm (a :: is.flatMap (Function.update L i xs)) := by
  induction is with
  | nil => cases hi
  | cons j js ih =>
    obtain ⟨hj, hjs⟩ := List.nodup_cons.mp his
    rw [List.flatMap_cons, List.flatMap_cons]
    rcases List.mem_cons.mp hi with rfl | hi
    · have hrest : js.flatMap (Function.update L i xs) = js.flatMap L :=
        List.flatMap_congr fun k hk =>
          Function.update_of_ne (show k ≠ i from fun hki => hj (hki ▸ hk)) _ _
      rw [Function.update_self, hrest]
      exact h.append_right _
    · have hji : j ≠ i := fun hji => hj (hji ▸ hi)
      rw [Function.update_of_ne hji]
      exact ((ih hjs hi).append_left _).trans List.perm_middle

/-- One block less in one list. -/
lemma blocks_perm {L : BlockLists} {i : Fin 32} {a : ℕ} {xs : List ℕ}
    (h : (L i).Perm (a :: xs)) : (blocks L).Perm (a :: blocks (Function.update L i xs)) :=
  flatMap_update_perm h (List.nodup_finRange 32) (List.mem_finRange i)

/-- One block more. -/
lemma blocks_push (L : BlockLists) (i : Fin 32) (a : ℕ) :
    (blocks (Function.update L i (a :: L i))).Perm (a :: blocks L) := by
  have hself : (Function.update L i (a :: L i) i).Perm (a :: L i) := by rw [Function.update_self]
  have h := blocks_perm hself
  rwa [Function.update_idem, Function.update_eq_self] at h

/-- The lists in the memory of the heap. -/
def HasLists (h : Heap) (L : BlockLists) : Prop := ∀ i, Chain h.link 0 (.inl i) (L i)

/-- The sizes of the blocks in the lists. -/
def freeSizes (h : Heap) (L : BlockLists) : Multiset ℕ := ↑((blocks L).map h.sizeAt)

lemma freeSizes_congr {h h' : Heap} {L : BlockLists}
    (hsizes : ∀ b ∈ blocks L, h'.sizeAt b = h.sizeAt b) : h'.freeSizes L = h.freeSizes L := by
  rw [freeSizes, freeSizes, List.map_congr_left hsizes]

end Heap

open Heap

/-- The blocks in use, and the `FreeBlock`s of those in the lists. -/
def HeapRun.reserved (st : HeapRun) (L : BlockLists) : List Extent :=
  st.live.map (fun b => ⟨b.1, b.2.blockSize⟩) ++ (blocks L).map fun a => ⟨a, 24⟩

/-- What is reserved does not overlap. -/
structure ReservedApart (st : HeapRun) (L : BlockLists) : Prop where
  chain : st.heap.HasLists L
  apart : Extent.Apart (st.reserved L)
  bound : ∀ e ∈ st.reserved L, e.start ≠ 0 ∧ e.start + e.count ≤ 2 ^ 64

/-- A `FreeBlock` can be written at `a`. -/
def ClearHeader (reserved : List Extent) (a : ℕ) : Prop :=
  a ≠ 0 ∧ a + 24 ≤ 2 ^ 64 ∧ ∀ e ∈ reserved, Disjoint (Extent.mk a 24).frames e.frames

lemma ClearHeader.mono {reserved reserved' : List Extent} {a : ℕ} (h : ClearHeader reserved a)
    (hsub : reserved' ⊆ reserved) : ClearHeader reserved' a :=
  ⟨h.1, h.2.1, fun e he => h.2.2 e (hsub he)⟩

/-- What is reserved and does not begin at `a`. -/
def others (reserved : List Extent) (a : ℕ) : List Extent :=
  reserved.filter fun e => e.start ≠ a

lemma mem_others {reserved : List Extent} {a : ℕ} {e : Extent} :
    e ∈ others reserved a ↔ e ∈ reserved ∧ e.start ≠ a := by
  simp [others]

section Reserved

variable {st : HeapRun} {L L' : BlockLists} {a y : ℕ}

lemma mem_reserved_header (ha : a ∈ blocks L) : (⟨a, 24⟩ : Extent) ∈ st.reserved L :=
  List.mem_append_right _ (List.mem_map_of_mem ha)

lemma mem_reserved_live {b : ℕ × Layout} (hb : b ∈ st.live) :
    (⟨b.1, b.2.blockSize⟩ : Extent) ∈ st.reserved L :=
  List.mem_append_left _ (List.mem_map.mpr ⟨b, hb, rfl⟩)

/-- More or fewer `FreeBlock`s. -/
lemma reserved_perm {live : List (ℕ × Layout)} {h h' : Heap}
    (hp : (blocks L').Perm (a :: blocks L)) :
    (HeapRun.reserved ⟨h', live⟩ L').Perm (⟨a, 24⟩ :: HeapRun.reserved ⟨h, live⟩ L) :=
  ((hp.map _).append_left _).trans List.perm_middle

/-- Two `FreeBlock`s. -/
lemma disjoint_headers {a b : ℕ} :
    Disjoint (Extent.mk a 24).frames (Extent.mk b 24).frames ↔ a + 24 ≤ b ∨ b + 24 ≤ a :=
  Extent.disjoint_frames_iff (by simp) (by simp)

lemma Layout.blockSize_pos (l : Layout) : 8 ≤ l.blockSize := by
  have hpos := l.align_pos
  rw [Layout.blockSize]
  omega

lemma Layout.size_le_blockSize (l : Layout) : l.size ≤ l.blockSize := by
  rw [Layout.blockSize]
  omega

lemma reserved_pos {e : Extent} (he : e ∈ st.reserved L) : 0 < e.count := by
  rcases List.mem_append.mp he with he | he
  · obtain ⟨b, -, rfl⟩ := List.mem_map.mp he
    have := b.2.blockSize_pos
    simp only
    omega
  · obtain ⟨a, -, rfl⟩ := List.mem_map.mp he
    simp

namespace ReservedApart

/-- The `FreeBlock`s in the lists. -/
lemma places (hs : ReservedApart st L) : Places (· ∈ blocks L) where
  apart a b ha hb hne := by
    have hdisj := hs.apart.disjoint (mem_reserved_header ha) (mem_reserved_header hb)
      fun heq => hne (congrArg Extent.start heq)
    exact disjoint_headers.mp hdisj
  lt a ha := by
    have := (hs.bound _ (mem_reserved_header ha)).2
    simp only at this
    omega

lemma nodup (hs : ReservedApart st L) : (blocks L).Nodup := by
  have happart := (List.pairwise_append.mp hs.apart).2.1
  rw [List.pairwise_map] at happart
  refine happart.imp fun {a b} hdisj hab => ?_
  have := disjoint_headers.mp hdisj
  omega

lemma linked (hs : ReservedApart st L) : Linked (· ∈ blocks L) st.heap L := by
  have hnodup := List.nodup_flatMap.mp hs.nodup
  refine ⟨hs.chain, fun i => hnodup.1 i (List.mem_finRange i), fun i j hij a hai haj => ?_,
    fun i a ha => mem_blocks.mpr ⟨i, ha⟩⟩
  have : Std.Symm (Function.onFun List.Disjoint L) := ⟨fun _ _ hd => hd.symm⟩
  exact hnodup.2.forall (List.mem_finRange i) (List.mem_finRange j) hij hai haj

/-- What is reserved besides `e` does not overlap it. -/
lemma disjoint_rest (hs : ReservedApart st L) {e e' : Extent} {rest : List Extent}
    (hp : (st.reserved L).Perm (e :: rest)) (he' : e' ∈ rest) : Disjoint e.frames e'.frames :=
  (List.pairwise_cons.mp (hs.apart.perm hp)).1 e' he'

/-- It begins somewhere else. -/
lemma mem_others (hs : ReservedApart st L) {e e' : Extent} {rest : List Extent}
    (hp : (st.reserved L).Perm (e :: rest)) (he' : e' ∈ rest) :
    e' ∈ others (st.reserved L) e.start := by
  have he : e ∈ st.reserved L := hp.mem_iff.mpr List.mem_cons_self
  have hmem : e' ∈ st.reserved L := hp.mem_iff.mpr (List.mem_cons_of_mem e he')
  have hne := Extent.start_ne_of_disjoint (reserved_pos he) (reserved_pos hmem)
    (hs.disjoint_rest hp he')
  exact Masika.mem_others.mpr ⟨hmem, hne.symm⟩

/-- Something more is reserved. -/
lemma extend (hs : ReservedApart st L) {st' : HeapRun} {e : Extent} (hchain : st'.heap.HasLists L')
    (hp : (st'.reserved L').Perm (e :: st.reserved L))
    (hdisj : ∀ e' ∈ st.reserved L, Disjoint e.frames e'.frames)
    (hbound : e.start ≠ 0 ∧ e.start + e.count ≤ 2 ^ 64) : ReservedApart st' L' where
  chain := hchain
  apart := Extent.Apart.perm (List.pairwise_cons.mpr ⟨hdisj, hs.apart⟩) hp.symm
  bound e' he' := by
    rcases List.mem_cons.mp (hp.mem_iff.mp he') with rfl | he'
    · exact hbound
    · exact hs.bound e' he'

/-- Something is reserved no longer. -/
lemma shrink (hs : ReservedApart st L) {st' : HeapRun} {e : Extent} (hchain : st'.heap.HasLists L')
    (hp : (st.reserved L).Perm (e :: st'.reserved L')) : ReservedApart st' L' where
  chain := hchain
  apart := (List.pairwise_cons.mp (hs.apart.perm hp)).2
  bound e' he' := hs.bound e' (hp.mem_iff.mpr (List.mem_cons_of_mem e he'))

/-- Only the lists matter. -/
lemma congr (hs : ReservedApart st L) {h' : Heap} (hheads : h'.heads = st.heap.heads)
    (hnext : ∀ b ∈ blocks L, h'.next b = st.heap.next b) : ReservedApart { st with heap := h' } L :=
  ⟨fun i => (hs.chain i).congr (congrFun hheads i) fun b hb => hnext b (mem_blocks.mpr ⟨i, hb⟩),
    hs.apart, hs.bound⟩

end ReservedApart

end Reserved

/-! ## The books -/

/-- The sizes of the blocks in the lists, and what the heap says about itself. -/
structure Books where
  free : Multiset ℕ
  used : ℕ
  total : ℕ

/-- What the calls do to the books. -/
inductive Entry where
  | opened (size : ℕ)
  | grown (size : ℕ)
  | taken (blockSize size : ℕ)
  | returned (blockSize : ℕ)

namespace Books

/-- What an entry does to the books. -/
def post (b : Books) : Entry → Books
  | .opened size => { b with free := if size = 0 then b.free else size ::ₘ b.free, total := size }
  | .grown size => { b with free := size ::ₘ b.free, total := wrap (b.total + size) }
  | .taken blockSize size =>
    let rest := b.free.erase size
    { b with
      free := if size > blockSize + 32 then (size - blockSize) ::ₘ rest else rest
      used := wrap (b.used + blockSize) }
  | .returned blockSize =>
    { b with free := blockSize ::ₘ b.free, used := wrapSub b.used blockSize }

end Books

namespace Heap

/-- The books of a heap. -/
def books (h : Heap) (L : BlockLists) : Books := ⟨h.freeSizes L, h.usedBytes, h.totalBytes⟩

lemma books_eq {h : Heap} {L : BlockLists} {b : Books} (hfree : h.freeSizes L = b.free)
    (hused : h.usedBytes = b.used) (htotal : h.totalBytes = b.total) : h.books L = b := by
  rw [books, hfree, hused, htotal]

lemma sizeAt_lt (h : Heap) (a : ℕ) : h.sizeAt a < 2 ^ 64 := loadBytes_lt h.mem 8 (a + 8)

end Heap

/-! ## Lists and what is reserved -/

section Lists

variable {st : HeapRun} {L L' : BlockLists} {a n : ℕ}

/-- A block of `n` bytes at `a` is put into the lists. -/
structure Inserted (st : HeapRun) (L : BlockLists) (a n : ℕ) (L' : BlockLists) :
    Prop where
  sound : ReservedApart { st with heap := st.heap.insert a n } L'
  blocks : (blocks L').Perm (a :: blocks L)
  members : ∀ i, ∀ b ∈ L' i, b = a ∨ b ∈ L i
  size : (st.heap.insert a n).sizeAt a = n
  sizes : ∀ b ∈ Heap.blocks L, (st.heap.insert a n).sizeAt b = st.heap.sizeAt b

lemma Inserted.freeSizes (h : Inserted st L a n L') :
    (st.heap.insert a n).freeSizes L' = n ::ₘ st.heap.freeSizes L := by
  have hsizes : (a :: Heap.blocks L).map (st.heap.insert a n).sizeAt =
      n :: (Heap.blocks L).map st.heap.sizeAt := by
    rw [List.map_cons, h.size, List.map_congr_left h.sizes]
  rw [Heap.freeSizes, Heap.freeSizes, Multiset.cons_coe, ← hsizes]
  exact Multiset.coe_eq_coe.mpr (h.blocks.map _)

namespace ReservedApart

/-- There is room for one `FreeBlock` more. -/
lemma places_cons (hs : ReservedApart st L) (hclear : ClearHeader (st.reserved L) a) :
    Places fun b => b ∈ blocks L ∨ b = a := by
  obtain ⟨-, hbound, hdisj⟩ := hclear
  have hnew : ∀ b ∈ blocks L, a + 24 ≤ b ∨ b + 24 ≤ a := fun b hb =>
    disjoint_headers.mp (hdisj _ (mem_reserved_header hb))
  refine ⟨fun b c hb hc hne => ?_, fun b hb => ?_⟩
  · rcases hb with hb | rfl
    · rcases hc with hc | rfl
      · exact hs.places.apart b c hb hc hne
      · exact (hnew b hb).symm
    · rcases hc with hc | rfl
      · exact hnew c hc
      · exact absurd rfl hne
  · rcases hb with hb | rfl
    · exact hs.places.lt b hb
    · omega

/-- **`insert`**, where nothing is reserved. -/
lemma insert (hs : ReservedApart st L) (hclear : ClearHeader (st.reserved L) a) (hn : n ≠ 0)
    (hlt : n < 2 ^ 64) : ∃ L', Inserted st L a n L' := by
  have hP := hs.places_cons hclear
  obtain ⟨hzero, hbound, hdisj⟩ := hclear
  have hout : a ∉ blocks L := by
    intro ha
    have := disjoint_headers.mp (hdisj _ (mem_reserved_header ha))
    omega
  obtain ⟨index, hindex⟩ : ∃ index, getListIndex n = some index := ⟨_, if_neg hn⟩
  obtain ⟨hlinked, hself, hother⟩ := (hs.linked.mono fun _ => .inl).insert hP (.inr rfl) hzero
    (fun i hi => hout (mem_blocks.mpr ⟨i, hi⟩)) hindex
  have hblocks := blocks_push L index a
  refine ⟨Function.update L index (a :: L index),
    hs.extend hlinked.chain (reserved_perm hblocks) hdisj ⟨hzero, hbound⟩, hblocks,
    fun i b hb => ?_, hself.trans (Nat.mod_eq_of_lt hlt),
    fun b hb => hother b (.inl hb) fun hba => hout (hba ▸ hb)⟩
  by_cases hi : i = index
  · rw [hi, Function.update_self, List.mem_cons] at hb
    rwa [hi]
  · rw [Function.update_of_ne hi] at hb
    exact .inr hb

/-- A block is taken out of its list. -/
lemma takeOut (hs : ReservedApart st L) {i : Fin 32} {pre post : List ℕ} {y : ℕ}
    (hi : L i = pre ++ y :: post) : ∃ L',
    ReservedApart { st with heap := st.heap.takeOut (slotAfter (.inl i) pre) y } L' ∧
      (blocks L).Perm (y :: blocks L') ∧
      ∀ b ∈ blocks L, (st.heap.takeOut (slotAfter (.inl i) pre) y).sizeAt b = st.heap.sizeAt b := by
  obtain ⟨hlinked, hsizes⟩ := hs.linked.takeOut hs.places hi
  have hblocks : (blocks L).Perm (y :: blocks (Function.update L i (pre ++ post))) :=
    blocks_perm (by rw [hi]; exact List.perm_middle)
  exact ⟨_, hs.shrink hlinked.chain (reserved_perm hblocks), hblocks, hsizes⟩

/-- A block is handed out. -/
lemma hold (hs : ReservedApart st L) {y : ℕ} {layout : Layout} (hzero : y ≠ 0)
    (hbound : y + layout.blockSize ≤ 2 ^ 64)
    (hdisj : ∀ e ∈ st.reserved L, Disjoint (Extent.mk y layout.blockSize).frames e.frames) :
    ReservedApart ⟨st.heap, (y, layout) :: st.live⟩ L :=
  hs.extend (e := ⟨y, layout.blockSize⟩) hs.chain (.refl _) hdisj ⟨hzero, hbound⟩

/-- A block is in use no longer. -/
lemma release (hs : ReservedApart st L) {b : ℕ × Layout} (hb : b ∈ st.live) :
    (st.reserved L).Perm
        (⟨b.1, b.2.blockSize⟩ :: HeapRun.reserved ⟨st.heap, st.live.erase b⟩ L) ∧
      ReservedApart ⟨st.heap, st.live.erase b⟩ L := by
  have hp : (st.reserved L).Perm
      (⟨b.1, b.2.blockSize⟩ :: HeapRun.reserved ⟨st.heap, st.live.erase b⟩ L) :=
    ((List.perm_cons_erase hb).map _).append_right _
  exact ⟨hp, hs.shrink hs.chain hp⟩

/-- The owner of a block writes to it. -/
lemma write (hs : ReservedApart st L) {b : ℕ × Layout} (hb : b ∈ st.live) {mem : ℕ → U8}
    (hmem : ∀ x, x < b.1 ∨ b.1 + b.2.blockSize ≤ x → mem x = st.heap.mem x) :
    ReservedApart { st with heap := { st.heap with mem } } L ∧
      Heap.books { st.heap with mem } L = st.heap.books L := by
  have hother : ∀ a ∈ blocks L, ∀ x, a ≤ x → x < a + 24 → mem x = st.heap.mem x := by
    intro a ha x hax hxa
    have hpos := b.2.blockSize_pos
    have hmemb := mem_reserved_live (L := L) hb
    have hp := hs.release hb
    have hmema : (⟨a, 24⟩ : Extent) ∈ HeapRun.reserved ⟨st.heap, st.live.erase b⟩ L :=
      mem_reserved_header ha
    have hdisj := hs.disjoint_rest hp.1 hmema
    rw [Extent.disjoint_frames_iff (reserved_pos hmemb) (by simp)] at hdisj
    refine hmem x ?_
    simp only at hdisj
    omega
  have hfree : Heap.freeSizes { st.heap with mem } L = st.heap.freeSizes L :=
    freeSizes_congr fun a ha => loadBytes_congr fun x _ _ => hother a ha x (by omega) (by omega)
  exact ⟨hs.congr rfl fun a ha => loadBytes_congr fun x _ _ => hother a ha x (by omega) (by omega),
    books_eq hfree rfl rfl⟩

/-- The owner of a block stores a byte in it. -/
lemma store (hs : ReservedApart st L) {b : ℕ × Layout} (hb : b ∈ st.live) {addr : ℕ}
    (hle : b.1 ≤ addr) (hlt : addr < b.1 + b.2.size) (byte : U8) :
    ReservedApart { st with heap.mem := Function.update st.heap.mem addr byte } L ∧
      Heap.books { st.heap with mem := Function.update st.heap.mem addr byte } L =
        st.heap.books L := by
  have hsize := b.2.size_le_blockSize
  refine hs.write hb fun x hx => Function.update_of_ne ?_ _ _
  omega

end ReservedApart

/-- The heap of `Heap::new()` has nothing. -/
lemma new_sound (mem : ℕ → U8) : ReservedApart ⟨Heap.new mem, []⟩ fun _ => [] := by
  have hreserved : HeapRun.reserved ⟨Heap.new mem, []⟩ (fun _ => []) = [] := by
    simp [HeapRun.reserved, blocks]
  refine ⟨fun _ => rfl, ?_, fun e he => ?_⟩
  · rw [hreserved]
    exact List.Pairwise.nil
  · rw [hreserved] at he
    exact absurd he List.not_mem_nil

lemma new_books (mem : ℕ → U8) : (Heap.new mem).books (fun _ => []) = ⟨0, 0, 0⟩ :=
  books_eq (by simp [freeSizes, blocks]) rfl rfl

end Lists

end Masika
