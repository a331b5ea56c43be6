import Masika.Memory.Heap.Manager

/-!
# Lists in memory

The lists of free blocks as they are in the bytes of the heap.  What is needed of the blocks is
little: the `FreeBlock`s at their beginnings do not overlap.  `Places P` says so of all addresses
in `P`, and `Linked P h L` that the lists in the memory of `h` are the lists `L` of such addresses.

* `Linked.congr` — writes that no `FreeBlock` in the lists is touched by.
* `Linked.header`, `Linked.push` — a block becomes the head of a list.
* `Linked.takeOut` — a block is taken out of its list.
* `search_eq` — the search of `remove_best_fit` is `find?` on the lists one after another.
-/

namespace Masika

/-- Addresses at which there can be a `FreeBlock`, so that no two overlap. -/
structure Places (P : ℕ → Prop) : Prop where
  apart : ∀ a b, P a → P b → a ≠ b → a + 24 ≤ b ∨ b + 24 ≤ a
  lt : ∀ a, P a → a < 2 ^ 64

/-- A slot of a list: a head, or the link of a block. -/
def SlotIn (P : ℕ → Prop) : Fin 32 ⊕ ℕ → Prop
  | .inl _ => True
  | .inr a => P a

namespace Heap

variable {P Q : ℕ → Prop} {h : Heap} {a b n p : ℕ}

/-! ## Pointers -/

/-- Setting a pointer changes that pointer. -/
lemma link_setLink (hP : Places P) {s t : Fin 32 ⊕ ℕ} (hs : SlotIn P s) (ht : SlotIn P t)
    (hp : p < 2 ^ 64) : (h.setLink s p).link t = if t = s then p else h.link t := by
  cases s with
  | inl i =>
    cases t with
    | inl j =>
      by_cases hij : j = i
      · simp [link, setLink, hij]
      · simp [link, setLink, hij]
    | inr b => simp [link, setLink, next]
  | inr a =>
    cases t with
    | inl j => simp [link, setLink]
    | inr b =>
      simp only [link, setLink, Sum.elim_inr, next, Sum.inr.injEq]
      split_ifs with hba
      · rw [hba, loadBytes_storeBytes]
        exact Nat.mod_eq_of_lt hp
      · have := hP.apart a b hs ht (Ne.symm hba)
        exact loadBytes_storeBytes_other (by omega)

/-- Pointers are not sizes. -/
lemma sizeAt_setLink (hP : Places P) {s : Fin 32 ⊕ ℕ} (hs : SlotIn P s) (hb : P b) :
    (h.setLink s p).sizeAt b = h.sizeAt b := by
  cases s with
  | inl i => rfl
  | inr a =>
    refine loadBytes_storeBytes_other ?_
    by_cases hab : a = b
    · omega
    · have := hP.apart a b hs hb hab
      omega

/-- The pointers after a block has been taken out. -/
lemma link_takeOut (hP : Places P) {s t : Fin 32 ⊕ ℕ} {y : ℕ} (hs : SlotIn P s)
    (hy : SlotIn P (.inr y)) (hne : .inr y ≠ s) (hnext : h.next y < 2 ^ 64) (ht : SlotIn P t) :
    (h.takeOut s y).link t = if t = s then h.next y else if t = .inr y then 0 else h.link t := by
  have hread : (h.setLink s 0).next y = h.next y :=
    (link_setLink hP hs hy (by decide)).trans (if_neg hne)
  rw [takeOut, hread, link_setLink hP hs ht hnext, link_setLink hP hy ht (by decide),
    link_setLink hP hs ht (by decide)]
  split_ifs <;> rfl

lemma sizeAt_takeOut (hP : Places P) {s : Fin 32 ⊕ ℕ} {y : ℕ} (hs : SlotIn P s)
    (hy : SlotIn P (.inr y)) (hb : P b) : (h.takeOut s y).sizeAt b = h.sizeAt b := by
  rw [takeOut, sizeAt_setLink hP hs hb, sizeAt_setLink hP hy hb, sizeAt_setLink hP hs hb]

/-- A list has fewer blocks than there are addresses. -/
lemma chain_length_lt {s : Fin 32 ⊕ ℕ} {xs : List ℕ} (hchain : Chain h.link 0 s xs)
    (hlt : ∀ a ∈ xs, a < 2 ^ 64) : xs.length < 2 ^ 64 := by
  have hsub : xs.toFinset ⊆ Finset.Ico 1 (2 ^ 64) := by
    intro a ha
    rw [List.mem_toFinset] at ha
    have hne := hchain.ne_null ha
    have hlt := hlt a ha
    rw [Finset.mem_Ico]
    omega
  have hcard := Finset.card_le_card hsub
  rw [List.toFinset_card_of_nodup hchain.nodup, Nat.card_Ico] at hcard
  omega

/-! ## Which list -/

lemma mem_listsFrom {size : ℕ} {i : Fin 32} :
    i ∈ listsFrom size ↔ (getListIndex size).elim 0 Fin.val ≤ i.val := by
  rw [listsFrom, List.mem_drop_iff_getElem]
  constructor
  · rintro ⟨j, hj, rfl⟩
    simp
  · intro hle
    exact ⟨i.val - (getListIndex size).elim 0 Fin.val, by simp; omega, by simp; ext; simp; omega⟩

/-- **Blocks that are large enough are in the lists that are searched.** -/
lemma mem_listsFrom_of_le {m : ℕ} {i : Fin 32} (hi : getListIndex n = some i) (hle : m ≤ n) :
    i ∈ listsFrom m := by
  rw [mem_listsFrom]
  cases hm : getListIndex m with
  | none => exact Nat.zero_le _
  | some j =>
    rw [getListIndex] at hi hm
    split_ifs at hi hm with hn0 hm0
    rw [Option.some.injEq] at hi hm
    have hlog : Nat.log2 m ≤ Nat.log2 n :=
      (Nat.le_log2 hn0).mpr ((Nat.log2_self_le hm0).trans hle)
    rw [← hi, ← hm]
    simp only [Option.elim_some]
    omega

/-! ## What does not change -/

/-- The lists have changed, and nothing else. -/
structure SameAccount (h h' : Heap) : Prop where
  total : h'.totalBytes = h.totalBytes
  used : h'.usedBytes = h.usedBytes
  initialized : h'.initialized = h.initialized
  regions : h'.regions = h.regions

lemma setLink_account (h : Heap) (s : Fin 32 ⊕ ℕ) (p : ℕ) : SameAccount h (h.setLink s p) := by
  cases s <;> exact ⟨rfl, rfl, rfl, rfl⟩

lemma SameAccount.trans {h h' h'' : Heap} (hh : SameAccount h h') (hh' : SameAccount h' h'') :
    SameAccount h h'' :=
  ⟨hh'.total.trans hh.total, hh'.used.trans hh.used, hh'.initialized.trans hh.initialized,
    hh'.regions.trans hh.regions⟩

lemma insert_account (h : Heap) (ptr size : ℕ) : SameAccount h (h.insert ptr size) := by
  rw [insert]
  cases getListIndex size <;> exact ⟨rfl, rfl, rfl, rfl⟩

lemma takeOut_account (h : Heap) (s : Fin 32 ⊕ ℕ) (y : ℕ) : SameAccount h (h.takeOut s y) :=
  ((h.setLink_account s 0).trans (setLink_account _ (.inr y) 0)).trans (setLink_account _ s _)

/-! ## The lists -/

/-- The lists in the memory of `h` are `L`. -/
structure Linked (P : ℕ → Prop) (h : Heap) (L : BlockLists) : Prop where
  chain : ∀ i, Chain h.link 0 (.inl i) (L i)
  nodup : ∀ i, (L i).Nodup
  disjoint : ∀ i j, i ≠ j → ∀ a ∈ L i, a ∉ L j
  mem : ∀ i, ∀ a ∈ L i, P a

namespace Linked

variable {L : BlockLists}

lemma mono (hL : Linked P h L) (hPQ : ∀ a, P a → Q a) : Linked Q h L :=
  ⟨hL.chain, hL.nodup, hL.disjoint, fun i a ha => hPQ a (hL.mem i a ha)⟩

/-- Only pointers matter. -/
lemma congr (hL : Linked P h L) {h' : Heap} (hheads : h'.heads = h.heads)
    (hnext : ∀ i, ∀ b ∈ L i, h'.next b = h.next b) : Linked P h' L :=
  ⟨fun i => (hL.chain i).congr (congrFun hheads i) (hnext i), hL.nodup, hL.disjoint, hL.mem⟩

/-- The pointers are addresses. -/
lemma head_lt (hP : Places P) (hL : Linked P h L) (i : Fin 32) : h.heads i < 2 ^ 64 := by
  have hchain := hL.chain i
  have hmem := hL.mem i
  cases hi : L i with
  | nil =>
    rw [hi] at hchain
    have hzero : h.heads i = 0 := hchain
    rw [hzero]
    decide
  | cons a as =>
    rw [hi] at hchain hmem
    have ha : h.heads i = a := hchain.1
    rw [ha]
    exact hP.lt a (hmem a List.mem_cons_self)

lemma length_lt (hP : Places P) (hL : Linked P h L) (i : Fin 32) : (L i).length < 2 ^ 64 :=
  chain_length_lt (hL.chain i) fun a ha => hP.lt a (hL.mem i a ha)

/-- **A change of one list.** -/
lemma replace (hL : Linked P h L) {h' : Heap} {index : Fin 32} {xs : List ℕ}
    (hchain : Chain h'.link 0 (.inl index) xs) (hnodup : xs.Nodup)
    (hdisj : ∀ b ∈ xs, ∀ i, i ≠ index → b ∉ L i) (hmem : ∀ b ∈ xs, P b)
    (hother : ∀ i, i ≠ index → Chain h'.link 0 (.inl i) (L i)) :
    Linked P h' (Function.update L index xs) := by
  refine ⟨fun i => ?_, fun i => ?_, fun i j hij b hb => ?_, fun i b hb => ?_⟩
  · by_cases hi : i = index
    · rw [hi, Function.update_self]
      exact hchain
    · rw [Function.update_of_ne hi]
      exact hother i hi
  · by_cases hi : i = index
    · rw [hi, Function.update_self]
      exact hnodup
    · rw [Function.update_of_ne hi]
      exact hL.nodup i
  · by_cases hi : i = index
    · have hj : j ≠ index := fun h => hij (hi.trans h.symm)
      rw [hi, Function.update_self] at hb
      rw [Function.update_of_ne hj]
      exact hdisj b hb j hj
    · rw [Function.update_of_ne hi] at hb
      by_cases hj : j = index
      · rw [hj, Function.update_self]
        exact fun hbx => hdisj b hbx i hi hb
      · rw [Function.update_of_ne hj]
        exact hL.disjoint i j hij b hb
  · by_cases hi : i = index
    · rw [hi, Function.update_self] at hb
      exact hmem b hb
    · rw [Function.update_of_ne hi] at hb
      exact hL.mem i b hb

/-- The other lists do not see the head of one. -/
lemma chain_setHead (hL : Linked P h L) {i index : Fin 32} (hi : i ≠ index) (p : ℕ) :
    Chain (h.setLink (.inl index) p).link 0 (.inl i) (L i) :=
  (hL.chain i).congr (Function.update_of_ne hi _ _) fun _ _ => rfl

/-- A block that is in no list becomes the head of one. -/
lemma push (hL : Linked P h L) (ha : P a) (hzero : a ≠ 0) (hout : ∀ i, a ∉ L i) {index : Fin 32}
    (hnext : h.next a = h.heads index) :
    Linked P (h.setLink (.inl index) a) (Function.update L index (a :: L index)) := by
  have hself : (h.setLink (.inl index) a).link (.inl index) = a := by simp [link, setLink]
  refine hL.replace ((hL.chain index).push hzero hself hnext fun _ _ => rfl)
    (List.nodup_cons.mpr ⟨hout index, hL.nodup index⟩) (fun b hb i hi => ?_) (fun b hb => ?_)
    fun i hi => hL.chain_setHead hi a
  · rcases List.mem_cons.mp hb with rfl | hb
    · exact hout i
    · exact hL.disjoint index i (Ne.symm hi) b hb
  · rcases List.mem_cons.mp hb with rfl | hb
    · exact ha
    · exact hL.mem index b hb

/-- A null pointer as the head: the list is gone. -/
lemma lose (hL : Linked P h L) (index : Fin 32) :
    Linked P (h.setLink (.inl index) 0) (Function.update L index []) := by
  have hself : (h.setLink (.inl index) 0).link (.inl index) = 0 := by simp [link, setLink]
  exact hL.replace hself List.nodup_nil (fun b hb => absurd hb List.not_mem_nil)
    (fun b hb => absurd hb List.not_mem_nil) fun i hi => hL.chain_setHead hi 0

end Linked

/-- The `FreeBlock` that `insert` writes. -/
def writeHeader (h : Heap) (ptr size : ℕ) (index : Fin 32) : Heap :=
  let mem := storeBytes (storeBytes h.mem 8 ptr (h.heads index)) 8 (ptr + 8) size
  { h with mem := storeBytes mem 1 (ptr + 16) 1 }

/-- `insert` writes a `FreeBlock` and sets the head of the list. -/
lemma insert_eq {size : ℕ} {index : Fin 32} (hindex : getListIndex size = some index) (h : Heap)
    (ptr : ℕ) : h.insert ptr size = (h.writeHeader ptr size index).setLink (.inl index) ptr := by
  rw [insert, hindex]
  rfl

/-- Nothing else is written. -/
lemma writeHeader_other (h : Heap) (ptr size : ℕ) (index : Fin 32) {x : ℕ}
    (hx : x < ptr ∨ ptr + 24 ≤ x) : (h.writeHeader ptr size index).mem x = h.mem x := by
  simp only [writeHeader]
  rw [storeBytes_other (by omega), storeBytes_other (by omega), storeBytes_other (by omega)]

lemma sizeAt_writeHeader (h : Heap) (ptr size : ℕ) (index : Fin 32) :
    (h.writeHeader ptr size index).sizeAt ptr = size % 2 ^ 64 := by
  simp only [sizeAt, writeHeader]
  rw [loadBytes_storeBytes_other (by omega), loadBytes_storeBytes]
  rfl

lemma next_writeHeader (h : Heap) (ptr size : ℕ) (index : Fin 32) (hhead : h.heads index < 2 ^ 64) :
    (h.writeHeader ptr size index).next ptr = h.heads index := by
  simp only [next, writeHeader]
  rw [loadBytes_storeBytes_other (by omega), loadBytes_storeBytes_other (by omega),
    loadBytes_storeBytes]
  exact Nat.mod_eq_of_lt hhead

/-- What other `FreeBlock`s say. -/
lemma writeHeader_apart (hP : Places P) (ha : P a) (hb : P b) (hba : b ≠ a) (h : Heap) (size : ℕ)
    (index : Fin 32) : (h.writeHeader a size index).next b = h.next b ∧
      (h.writeHeader a size index).sizeAt b = h.sizeAt b := by
  have hapart := hP.apart a b ha hb (Ne.symm hba)
  exact ⟨loadBytes_congr fun x _ _ => h.writeHeader_other a size index (by omega),
    loadBytes_congr fun x _ _ => h.writeHeader_other a size index (by omega)⟩

namespace Linked

variable {L : BlockLists}

/-- The `FreeBlock` of a block that is in no list is written. -/
lemma header (hP : Places P) (hL : Linked P h L) (ha : P a) (hout : ∀ i, a ∉ L i) (size : ℕ)
    (index : Fin 32) : Linked P (h.writeHeader a size index) L :=
  hL.congr rfl fun i b hb =>
    (writeHeader_apart hP ha (hL.mem i b hb) (fun hba => hout i (hba ▸ hb)) h size index).1

/-- **`insert`** of a block that is in no list. -/
lemma insert (hP : Places P) (hL : Linked P h L) (ha : P a) (hzero : a ≠ 0) (hout : ∀ i, a ∉ L i)
    {index : Fin 32} (hindex : getListIndex n = some index) :
    Linked P (h.insert a n) (Function.update L index (a :: L index)) ∧
      (h.insert a n).sizeAt a = n % 2 ^ 64 ∧
      ∀ b, P b → b ≠ a → (h.insert a n).sizeAt b = h.sizeAt b := by
  rw [insert_eq hindex]
  refine ⟨(hL.header hP ha hout n index).push ha hzero hout ?_, h.sizeAt_writeHeader a n index,
    fun b hb hba => (writeHeader_apart hP ha hb hba h n index).2⟩
  exact h.next_writeHeader a n index (hL.head_lt hP index)

/-- The slot behind some blocks of a list. -/
lemma slotIn (hL : Linked P h L) {i : Fin 32} {pre : List ℕ} (hpre : ∀ x ∈ pre, x ∈ L i) :
    SlotIn P (slotAfter (.inl i) pre) := by
  rcases slotAfter_mem (.inl i) pre with heq | ⟨x, hx, heq⟩
  · rw [heq]
    trivial
  · rw [heq]
    exact hL.mem i x (hpre x hx)

/-- **Taking a block out of its list.** -/
lemma takeOut (hP : Places P) (hL : Linked P h L) {i : Fin 32} {pre post : List ℕ} {y : ℕ}
    (hi : L i = pre ++ y :: post) :
    Linked P (h.takeOut (slotAfter (.inl i) pre) y) (Function.update L i (pre ++ post)) ∧
      ∀ b, P b → (h.takeOut (slotAfter (.inl i) pre) y).sizeAt b = h.sizeAt b := by
  have hnodup := hL.nodup i
  have hchain := hL.chain i
  have hmemP := hL.mem i
  have hdisj := hL.disjoint i
  rw [hi] at hnodup hchain hmemP hdisj
  have hmem : ∀ x, x ∈ pre ++ post → x ∈ pre ++ y :: post ∧ x ≠ y := by
    intro x hx
    obtain ⟨hy, -⟩ := List.nodup_cons.mp (List.perm_middle.nodup_iff.mp hnodup)
    refine ⟨List.perm_middle.mem_iff.mpr (List.mem_cons_of_mem y hx), ?_⟩
    rintro rfl
    exact hy hx
  have hyin : SlotIn P (.inr y) := hmemP y (by simp)
  have hprev : SlotIn P (slotAfter (.inl i) pre) :=
    hL.slotIn fun x hx => by rw [hi]; exact List.mem_append_left _ hx
  have hpy : Sum.inr y ≠ slotAfter (.inl i) pre := by
    rcases slotAfter_mem (.inl i) pre with heq | ⟨x, hx, heq⟩
    · rw [heq]
      exact Sum.inr_ne_inl
    · rw [heq]
      rintro ⟨rfl⟩
      exact (hmem y (List.mem_append_left _ hx)).2 rfl
  have hnext : h.next y < 2 ^ 64 := by
    have hrest : Chain h.link 0 (.inr y) post := hchain.drop.2.2
    cases post with
    | nil => exact lt_of_eq_of_lt hrest (by decide)
    | cons z zs => exact lt_of_eq_of_lt hrest.1 (hP.lt z (hmemP z (by simp)))
  have hlink := fun t => link_takeOut hP hprev hyin hpy hnext (t := t)
  refine ⟨hL.replace ?_ ?_ (fun b hb j hj => ?_) (fun b hb => hmemP b (hmem b hb).1)
    (fun j hj => ?_), fun b hb => sizeAt_takeOut hP hprev hyin hb⟩
  · refine hchain.unlink hnodup (fun x _ => Sum.inl_ne_inr) ?_ fun t ht hne => ?_
    · rw [hlink _ hprev, if_pos rfl]
      rfl
    · rcases ht with rfl | ⟨x, hx, rfl⟩
      · rw [hlink (.inl i) trivial, if_neg hne, if_neg Sum.inl_ne_inr]
      · obtain ⟨hx, hxy⟩ := hmem x hx
        rw [hlink (.inr x) (hmemP x hx), if_neg hne, if_neg fun h => hxy (Sum.inr.inj h)]
  · exact (List.nodup_cons.mp (List.perm_middle.nodup_iff.mp hnodup)).2
  · exact hdisj j (Ne.symm hj) b (hmem b hb).1
  · -- the other lists have other slots
    have hslot : ∀ x ∈ L j, x ∉ pre ++ y :: post := fun x hx hxi => hdisj j (Ne.symm hj) x hxi hx
    have hne : ∀ t, (∀ x ∈ pre ++ y :: post, t ≠ .inr x) → t ≠ .inl i →
        t ≠ slotAfter (.inl i) pre := by
      intro t ht hti
      rcases slotAfter_mem (.inl i) pre with heq | ⟨x, hx, heq⟩
      · rwa [heq]
      · rw [heq]
        exact ht x (List.mem_append_left _ hx)
    refine (hL.chain j).congr ?_ fun x hx => ?_
    · rw [hlink (.inl j) trivial,
        if_neg (hne _ (fun _ _ => Sum.inl_ne_inr) fun h => hj (Sum.inl.inj h)),
        if_neg Sum.inl_ne_inr]
    · have hxy : ∀ z ∈ pre ++ y :: post, (Sum.inr x : Fin 32 ⊕ ℕ) ≠ .inr z := by
        rintro z hz h
        exact hslot x hx (Sum.inr.inj h ▸ hz)
      rw [hlink (.inr x) (hL.mem j x hx), if_neg (hne _ hxy Sum.inr_ne_inl),
        if_neg (hxy y (by simp))]

end Linked

/-- **The search is `find?` on the lists**, one after another. -/
lemma search_eq {L : BlockLists} (hchain : ∀ i, Chain h.link 0 (.inl i) (L i))
    (hlen : ∀ i, (L i).length < 2 ^ 64) (size align : ℕ) (is : List (Fin 32)) :
    (h.search size align is = some none ∧ (is.flatMap L).find? (h.fits size align) = none) ∨
      ∃ i pre y post, L i = pre ++ y :: post ∧
        (is.flatMap L).find? (h.fits size align) = some y ∧
        h.search size align is = some (some (slotAfter (.inl i) pre, y)) := by
  induction is with
  | nil => exact .inl ⟨rfl, rfl⟩
  | cons i is ih =>
    rw [search, List.flatMap_cons, List.find?_append]
    rcases searchChain_eq (p := h.fits size align) (hchain i) (hlen i) with
      ⟨hsearch, hfind⟩ | ⟨pre, y, post, hi, hfind, hsearch⟩
    · simp only [hsearch, hfind, Option.none_or]
      exact ih
    · simp only [hsearch, hfind, Option.some_or]
      exact .inr ⟨i, pre, y, post, hi, rfl, rfl⟩

end Heap

end Masika
