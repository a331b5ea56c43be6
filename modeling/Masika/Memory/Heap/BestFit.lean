import Masika.Core.Runs
import Masika.Memory.Heap.Partition

/-!
# The search for a block

The lists of free blocks once more, now as what they stand for: 32 sequences of nodes, each with an
address and a size.  `insert` puts a node in front of the list that its size belongs to, and
`remove_best_fit` goes through the lists from that of the request on.

* Lists of smaller blocks need not be looked at, since a block that is large enough is not in one of
  them (`mem_listsFrom_of_le`).
* The sum `offset + size` may wrap around.  Then a block of any size seems to be large enough, and
  it is found although the request does not fit.

That is the only exception (`searchExact_iff`), and it does not occur for the sizes of a `Layout`
(`layout_searchExact`).  For those the lists in the memory of the heap behave like the sequences
(`removeBestFit_refines`).
-/

namespace Masika

/-! ## The code -/

/-- A `FreeBlock`, with its address. -/
structure FreeNode where
  addr : ℕ
  size : ℕ
deriving DecidableEq, Repr

/-- `FreeLists`. -/
abbrev NodeLists := Fin 32 → List FreeNode

namespace NodeLists

/-- `FreeLists::new()`. -/
def new : NodeLists := fun _ => []

/-- `FreeList::insert`. -/
def insert (L : NodeLists) (ptr size : ℕ) : NodeLists :=
  match Heap.getListIndex size with
  | none => L
  | some index => Function.update L index (⟨ptr, size⟩ :: L index)

/-- `offset + size <= curr.size`. -/
def fits (size align : ℕ) (curr : FreeNode) : Bool :=
  decide (wrap (Heap.offset curr.addr align + size) ≤ curr.size)

/-- The inner loop: the first node that fits is taken out of its list. -/
def takeFrom (size align : ℕ) : List FreeNode → Option (FreeNode × List FreeNode)
  | [] => none
  | curr :: rest =>
    if fits size align curr then some (curr, rest)
    else (takeFrom size align rest).map fun (found, rest) => (found, curr :: rest)

/-- The outer loop. -/
def take (L : NodeLists) (size align : ℕ) : List (Fin 32) → Option (FreeNode × NodeLists)
  | [] => none
  | i :: is =>
    match takeFrom size align (L i) with
    | some (curr, rest) => some (curr, Function.update L i rest)
    | none => L.take size align is

/-- `if curr.size > size + 32 { .. }`. -/
def splitOff (L : NodeLists) (curr : FreeNode) (size : ℕ) : NodeLists :=
  if curr.size > wrap (size + 32) then
    let remainingSize := wrapSub curr.size size
    if remainingSize ≥ 32 then
      L.insert (wrap (curr.addr + Heap.FREE_BLOCK_SIZE * size)) remainingSize
    else L
  else L

/-- `remove_best_fit`, with the node whose address is returned. -/
def removeBestFit (L : NodeLists) (size align : ℕ) : Option FreeNode × NodeLists :=
  match L.take size align (Heap.listsFrom size) with
  | none => (none, L)
  | some (curr, L') => (some curr, L'.splitOff curr size)

end NodeLists

/-- The calls of the lists. -/
inductive ListOp where
  | insert (ptr size : ℕ)
  | removeBestFit (size align : ℕ)

/-- One call. -/
def listStep (L : NodeLists) : ListOp → Option NodeLists
  | .insert ptr size => some (L.insert ptr size)
  | .removeBestFit size align => some (L.removeBestFit size align).2

/-- Addresses and sizes are machine words. -/
def MachineWords (_ : NodeLists) : ListOp → Prop
  | .insert ptr size => ptr < 2 ^ 64 ∧ size < 2 ^ 64
  | .removeBestFit _ _ => True

/-! ## The property -/

/-- The distance of an address to the next multiple of `align`. -/
def distance (addr align : ℕ) : ℕ := (addr + align - 1) / align * align - addr

lemma distance_lt {align : ℕ} (hpos : 0 < align) (addr : ℕ) : distance addr align < align := by
  have := Nat.div_mul_le_self (addr + align - 1) align
  rw [distance]
  omega

/-- The request fits into the node, behind the next aligned address. -/
def RoomFor (size align : ℕ) (n : FreeNode) : Prop := distance n.addr align + size ≤ n.size

instance (size align : ℕ) (n : FreeNode) : Decidable (RoomFor size align n) :=
  inferInstanceAs (Decidable (_ ≤ _))

/-- The node `n` has been taken out of its list.  Nothing else has changed, apart from a new node
in front of a list. -/
def TakenOut (L : NodeLists) (n : FreeNode) (L' : NodeLists) : Prop :=
  ∃ i pre post, L i = pre ++ n :: post ∧
    (L' = Function.update L i (pre ++ post) ∨
      ∃ ptr size, L' = NodeLists.insert (Function.update L i (pre ++ post)) ptr size)

/-- **What the search should do** for a request. -/
structure SearchExact (L : NodeLists) (size align : ℕ) : Prop where
  placed : ∀ i, ∀ n ∈ L i, Heap.getListIndex n.size = some i
  none_iff : (L.removeBestFit size align).1 = none ↔ ∀ i, ∀ n ∈ L i, ¬ RoomFor size align n
  taken : ∀ n, (L.removeBestFit size align).1 = some n →
    TakenOut L n (L.removeBestFit size align).2

/-- The sum wraps around, to a number that is not larger than the node. -/
def Overflows (size align : ℕ) (n : FreeNode) : Prop :=
  2 ^ 64 ≤ distance n.addr align + size ∧ distance n.addr align + size - 2 ^ 64 ≤ n.size

/-! ## The loops -/

namespace NodeLists

variable {L : NodeLists} {size align : ℕ}

lemma takeFrom_cases (size align : ℕ) (xs : List FreeNode) :
    (takeFrom size align xs = none ∧ ∀ n ∈ xs, fits size align n = false) ∨
      ∃ pre n post, xs = pre ++ n :: post ∧ fits size align n = true ∧
        takeFrom size align xs = some (n, pre ++ post) := by
  induction xs with
  | nil => exact .inl ⟨rfl, fun n hn => absurd hn List.not_mem_nil⟩
  | cons x xs ih =>
    rw [takeFrom]
    cases hx : fits size align x with
    | true => exact .inr ⟨[], x, xs, rfl, hx, by simp⟩
    | false =>
      rw [if_neg Bool.false_ne_true]
      rcases ih with ⟨hnone, hall⟩ | ⟨pre, n, post, rfl, hfits, htake⟩
      · rw [hnone]
        exact .inl ⟨rfl, List.forall_mem_cons.mpr ⟨hx, hall⟩⟩
      · rw [htake]
        exact .inr ⟨x :: pre, n, post, rfl, hfits, rfl⟩

lemma take_cases (L : NodeLists) (size align : ℕ) (is : List (Fin 32)) :
    (L.take size align is = none ∧ ∀ i ∈ is, ∀ n ∈ L i, fits size align n = false) ∨
      ∃ i ∈ is, ∃ pre n post, L i = pre ++ n :: post ∧ fits size align n = true ∧
        L.take size align is = some (n, Function.update L i (pre ++ post)) := by
  induction is with
  | nil => exact .inl ⟨rfl, fun i hi => absurd hi List.not_mem_nil⟩
  | cons i is ih =>
    rw [take]
    rcases takeFrom_cases size align (L i) with
      ⟨hnone, hall⟩ | ⟨pre, n, post, hi, hfits, htake⟩
    · rw [hnone]
      rcases ih with ⟨hnone, hrest⟩ | ⟨j, hj, hfound⟩
      · exact .inl ⟨hnone, List.forall_mem_cons.mpr ⟨hall, hrest⟩⟩
      · exact .inr ⟨j, List.mem_cons_of_mem i hj, hfound⟩
    · rw [htake]
      exact .inr ⟨i, List.mem_cons_self, pre, n, post, hi, hfits, rfl⟩

/-- **The whole search.** -/
lemma removeBestFit_cases (L : NodeLists) (size align : ℕ) :
    (L.removeBestFit size align = (none, L) ∧
        ∀ i ∈ Heap.listsFrom size, ∀ n ∈ L i, fits size align n = false) ∨
      ∃ i ∈ Heap.listsFrom size, ∃ pre n post, L i = pre ++ n :: post ∧
        fits size align n = true ∧ L.removeBestFit size align
          = (some n, splitOff (Function.update L i (pre ++ post)) n size) := by
  rw [removeBestFit]
  rcases L.take_cases size align (Heap.listsFrom size) with
    ⟨hnone, hall⟩ | ⟨i, hi, pre, n, post, hL, hfits, htake⟩
  · rw [hnone]
    exact .inl ⟨rfl, hall⟩
  · rw [htake]
    exact .inr ⟨i, hi, pre, n, post, hL, hfits, rfl⟩

/-! ## Every node is where it belongs -/

/-- Every node is in the list of its size, and its address and size are machine words. -/
def Placed (L : NodeLists) : Prop :=
  ∀ i, ∀ n ∈ L i, Heap.getListIndex n.size = some i ∧ n.addr < 2 ^ 64 ∧ n.size < 2 ^ 64

lemma Placed.insert (h : Placed L) {ptr size : ℕ} (hptr : ptr < 2 ^ 64) (hsize : size < 2 ^ 64) :
    Placed (L.insert ptr size) := by
  rw [NodeLists.insert]
  cases hindex : Heap.getListIndex size with
  | none => exact h
  | some index =>
    intro i n hn
    by_cases hi : i = index
    · simp only [hi, Function.update_self] at hn
      rcases List.mem_cons.mp hn with rfl | hn
      · rw [hi]
        exact ⟨hindex, hptr, hsize⟩
      · rw [hi]
        exact h index n hn
    · simp only [Function.update_of_ne hi] at hn
      exact h i n hn

lemma Placed.takeOut (h : Placed L) {i : Fin 32} {pre post : List FreeNode} {n : FreeNode}
    (hi : L i = pre ++ n :: post) : Placed (Function.update L i (pre ++ post)) := by
  intro j m hm
  by_cases hj : j = i
  · rw [hj, Function.update_self] at hm
    rw [hj]
    refine h i m ?_
    rw [hi]
    exact List.perm_middle.mem_iff.mpr (List.mem_cons_of_mem n hm)
  · rw [Function.update_of_ne hj] at hm
    exact h j m hm

lemma Placed.splitOff (h : Placed L) (n : FreeNode) (size : ℕ) : Placed (L.splitOff n size) := by
  rw [NodeLists.splitOff]
  simp only
  split_ifs
  · exact h.insert (wrap_lt _) (wrap_lt _)
  · exact h
  · exact h

/-- **One step.** -/
lemma Placed.step (h : Placed L) (op : ListOp) (hop : MachineWords L op) {L' : NodeLists}
    (hstep : listStep L op = some L') : Placed L' := by
  cases op with
  | insert ptr size =>
    cases hstep
    exact h.insert hop.1 hop.2
  | removeBestFit size align =>
    cases hstep
    rcases L.removeBestFit_cases size align with
      ⟨hremove, -⟩ | ⟨i, -, pre, n, post, hi, -, hremove⟩
    · rw [hremove]
      exact h
    · rw [hremove]
      exact (h.takeOut hi).splitOff n size

/-- **Whole runs.** -/
lemma placed_of_run {ops : List ListOp} (hwords : Meets MachineWords listStep new ops)
    (hrun : run listStep new ops = some L) : Placed L :=
  run_invariant_of_meets (fun _ op _ h hop hstep => h.step op hop hstep)
    (fun _ _ hn => absurd hn List.not_mem_nil) hwords hrun

/-! ## Blocks that fit, and blocks that seem to -/

/-- **The check** lets pass what fits and what overflows. -/
lemma fits_iff {n : FreeNode} {k : ℕ} (haddr : n.addr < 2 ^ 64) (hsize : n.size < 2 ^ 64)
    (hreq : size < 2 ^ 64) (hk : k < 64) :
    fits size (2 ^ k) n = true ↔ RoomFor size (2 ^ k) n ∨ Overflows size (2 ^ k) n := by
  have hlt : 2 ^ k < 2 ^ 64 := Nat.pow_lt_pow_right (by decide) hk
  have hbound := distance_lt (Nat.two_pow_pos k) n.addr
  rw [fits, decide_eq_true_eq, Heap.offset_eq haddr (Nat.pow_dvd_pow 2 hk.le) hlt,
    ← distance, RoomFor, Overflows]
  by_cases hwrap : distance n.addr (2 ^ k) + size < 2 ^ 64
  · rw [wrap_of_lt hwrap]
    omega
  · rw [wrap]
    omega

/-- **A node with room is in a list that is searched.** -/
lemma Placed.searched (h : Placed L) {i : Fin 32} {n : FreeNode} (hn : n ∈ L i)
    (hroom : RoomFor size align n) : i ∈ Heap.listsFrom size :=
  Heap.mem_listsFrom_of_le (h i n hn).1 (le_trans (Nat.le_add_left _ _) hroom)

end NodeLists

open NodeLists

section Exact

variable {L : NodeLists} {size k : ℕ}

/-- What the search takes out, and how. -/
lemma takenOut_of_removeBestFit {align : ℕ} {n : FreeNode}
    (hsome : (L.removeBestFit size align).1 = some n) :
    TakenOut L n (L.removeBestFit size align).2 := by
  rcases L.removeBestFit_cases size align with
    ⟨hremove, -⟩ | ⟨i, -, pre, m, post, hi, -, hremove⟩
  · rw [hremove] at hsome
    cases hsome
  · rw [hremove] at hsome ⊢
    cases hsome
    refine ⟨i, pre, post, hi, ?_⟩
    simp only [splitOff]
    split_ifs
    · exact .inr ⟨_, _, rfl⟩
    · exact .inl rfl
    · exact .inl rfl

/-- Nothing is found if and only if nothing in the lists that are searched fits or overflows. -/
lemma removeBestFit_eq_none_iff (h : Placed L) (hreq : size < 2 ^ 64) (hk : k < 64) :
    (L.removeBestFit size (2 ^ k)).1 = none ↔ ∀ i ∈ Heap.listsFrom size, ∀ n ∈ L i,
      ¬ RoomFor size (2 ^ k) n ∧ ¬ Overflows size (2 ^ k) n := by
  have hfits : ∀ i, ∀ n ∈ L i, fits size (2 ^ k) n = false ↔
      ¬ RoomFor size (2 ^ k) n ∧ ¬ Overflows size (2 ^ k) n := by
    intro i n hn
    obtain ⟨-, haddr, hsize⟩ := h i n hn
    rw [← not_or, ← fits_iff haddr hsize hreq hk, Bool.not_eq_true]
  rcases L.removeBestFit_cases size (2 ^ k) with
    ⟨hremove, hall⟩ | ⟨i, hi, pre, n, post, hL, hn, hremove⟩
  · rw [hremove]
    exact iff_of_true rfl fun i hi n hn => (hfits i n hn).mp (hall i hi n hn)
  · rw [hremove]
    refine iff_of_false (by simp) fun hall => ?_
    have hmem : n ∈ L i := by rw [hL]; simp
    have hno := (hfits i n hmem).mpr (hall i hi n hmem)
    rw [hn] at hno
    cases hno

lemma searchExact_of_placed (h : Placed L) (hreq : size < 2 ^ 64) (hk : k < 64)
    (hok : (∃ i, ∃ n ∈ L i, RoomFor size (2 ^ k) n) ∨
      ∀ i ∈ Heap.listsFrom size, ∀ n ∈ L i, ¬ Overflows size (2 ^ k) n) :
    SearchExact L size (2 ^ k) where
  placed i n hn := (h i n hn).1
  none_iff := by
    rw [removeBestFit_eq_none_iff h hreq hk]
    constructor
    · intro hall i n hn hroom
      exact (hall i (h.searched hn hroom) n hn).1 hroom
    · intro hno i hi n hn
      refine ⟨hno i n hn, ?_⟩
      rcases hok with ⟨j, m, hm, hroom⟩ | hnever
      · exact absurd hroom (hno j m hm)
      · exact hnever i hi n hn
  taken _ := takenOut_of_removeBestFit

end Exact

/-- **When the search misses nothing and finds nothing else.**  Either some block has room for the
request, or the sum does not wrap around for a block in the lists that are searched. -/
theorem searchExact_iff {ops : List ListOp} {L : NodeLists}
    (hwords : Meets MachineWords listStep new ops) (hrun : run listStep new ops = some L)
    {size k : ℕ} (hreq : size < 2 ^ 64) (hk : k < 64) :
    SearchExact L size (2 ^ k) ↔
      (∃ i, ∃ n ∈ L i, RoomFor size (2 ^ k) n) ∨
        ∀ i ∈ Heap.listsFrom size, ∀ n ∈ L i, ¬ Overflows size (2 ^ k) n := by
  have h := placed_of_run hwords hrun
  refine ⟨fun hexact => ?_, searchExact_of_placed h hreq hk⟩
  by_contra hbad
  rw [not_or] at hbad
  have hnone := hexact.none_iff.mpr fun i n hn hroom => hbad.1 ⟨i, n, hn, hroom⟩
  exact hbad.2 fun i hi n hn => ((removeBestFit_eq_none_iff h hreq hk).mp hnone i hi n hn).2

/-- One block in the lists. -/
theorem searchExact_one_block : ∃ L, run listStep new [.insert 0x1000 4096] = some L ∧
    SearchExact L 64 (2 ^ 3) := by
  have hwords : Meets MachineWords listStep new [.insert 0x1000 4096] :=
    ⟨⟨by decide, by decide⟩, fun _ _ => trivial⟩
  refine ⟨_, rfl, (searchExact_iff hwords rfl (by decide) (by decide)).mpr (.inl ?_)⟩
  exact ⟨12, ⟨0x1000, 4096⟩, by decide +kernel, by decide⟩

/-- **A block of 2^31 bytes at an odd address** is found for a request of 2^64 - 1 bytes that is to
be aligned to two. -/
theorem overflow_finds_block : ∃ L, run listStep new [.insert 0x1001 (2 ^ 31)] = some L ∧
    (L.removeBestFit (2 ^ 64 - 1) (2 ^ 1)).1 = some ⟨0x1001, 2 ^ 31⟩ ∧
    ¬ SearchExact L (2 ^ 64 - 1) (2 ^ 1) := by
  have hfound : (NodeLists.removeBestFit (new.insert 0x1001 (2 ^ 31)) (2 ^ 64 - 1) (2 ^ 1)).1
      = some ⟨0x1001, 2 ^ 31⟩ := by decide +kernel
  have honly : ∀ i, ∀ n ∈ new.insert 0x1001 (2 ^ 31) i, n = ⟨0x1001, 2 ^ 31⟩ := by decide +kernel
  refine ⟨_, rfl, hfound, fun h => ?_⟩
  have hnone := h.none_iff.mpr fun i n hn => by
    rw [honly i n hn]
    decide
  rw [hfound] at hnone
  cases hnone

/-! ## The requests of `alloc` -/

/-- **The search is exact for all layouts.** -/
theorem layout_searchExact {ops : List ListOp} {L : NodeLists}
    (hwords : Meets MachineWords listStep new ops) (hrun : run listStep new ops = some L)
    (layout : Layout) : SearchExact L layout.blockSize layout.align := by
  obtain ⟨k, hk⟩ := layout.align_pow
  have hsum := layout.align_add_blockSize
  have hpos := layout.align_pos
  have hlt : k < 64 :=
    (Nat.pow_lt_pow_iff_right (by decide : 1 < 2)).mp (hk ▸ layout.align_dvd.2)
  rw [hk] at hsum hpos ⊢
  refine searchExact_of_placed (placed_of_run hwords hrun) (by omega) hlt
    (.inr fun i _ n _ hover => ?_)
  have hdistance := distance_lt hpos n.addr
  have := hover.1
  omega

/-! ## The lists in memory -/

/-- The lists in the memory of a heap, as sequences. -/
def Heap.nodes (h : Heap) (A : BlockLists) : NodeLists := fun i =>
  (A i).map fun a => ⟨a, h.sizeAt a⟩

section Refinement

variable {P : ℕ → Prop} {h : Heap} {A : BlockLists}

/-- One list. -/
lemma takeFrom_nodes {size align y : ℕ} {pre post : List ℕ} (hnodup : (pre ++ y :: post).Nodup)
    (hfind : (pre ++ y :: post).find? (h.fits size align) = some y) :
    takeFrom size align ((pre ++ y :: post).map fun a => ⟨a, h.sizeAt a⟩)
      = some (⟨y, h.sizeAt y⟩, (pre ++ post).map fun a => ⟨a, h.sizeAt a⟩) := by
  induction pre with
  | nil =>
    have hy := List.find?_some hfind
    simp only [List.nil_append, List.map_cons, takeFrom]
    exact if_pos hy
  | cons x pre ih =>
    obtain ⟨hx, hnodup⟩ := List.nodup_cons.mp hnodup
    rw [List.cons_append, List.find?_cons] at hfind
    cases hfits : h.fits size align x with
    | true =>
      -- then `x` would have been found
      rw [hfits] at hfind
      cases hfind
      exact absurd (List.mem_append_right pre List.mem_cons_self) hx
    | false =>
      rw [hfits] at hfind
      have hnext : NodeLists.fits size align ⟨x, h.sizeAt x⟩ = false := hfits
      simp only [List.cons_append, List.map_cons, takeFrom, hnext, Bool.false_eq_true,
        if_false, ih hnodup hfind, Option.map_some]

lemma takeFrom_nodes_none {size align : ℕ} {xs : List ℕ}
    (hfind : xs.find? (h.fits size align) = none) :
    takeFrom size align (xs.map fun a => ⟨a, h.sizeAt a⟩) = none := by
  rcases takeFrom_cases size align (xs.map fun a => ⟨a, h.sizeAt a⟩) with
    ⟨hnone, -⟩ | ⟨pre, n, post, hxs, hfits, -⟩
  · exact hnone
  · obtain ⟨a, ha, rfl⟩ := List.mem_map.mp
      (show n ∈ xs.map fun a => (⟨a, h.sizeAt a⟩ : FreeNode) by rw [hxs]; simp)
    exact absurd hfits (List.find?_eq_none.mp hfind a ha)

/-- All lists: the search in memory finds what the search in the sequences finds. -/
lemma take_nodes (hP : Places P) (hL : h.Linked P A) (size align : ℕ) (is : List (Fin 32)) :
    (h.search size align is = some none ∧ (h.nodes A).take size align is = none) ∨
      ∃ i pre y post, A i = pre ++ y :: post ∧ h.fits size align y = true ∧
        h.search size align is = some (some (slotAfter (.inl i) pre, y)) ∧
        (h.nodes A).take size align is = some (⟨y, h.sizeAt y⟩, Function.update (h.nodes A) i
          ((pre ++ post).map fun a => ⟨a, h.sizeAt a⟩)) := by
  induction is with
  | nil => exact .inl ⟨rfl, rfl⟩
  | cons i is ih =>
    rw [Heap.search, take]
    rcases searchChain_eq (p := h.fits size align) (hL.chain i) (hL.length_lt hP i) with
      ⟨hsearch, hfind⟩ | ⟨pre, y, post, hi, hfind, hsearch⟩
    · have hnone : takeFrom size align (h.nodes A i) = none := takeFrom_nodes_none hfind
      rw [hsearch, hnone]
      exact ih
    · have hnodup := hL.nodup i
      have hfits := List.find?_some hfind
      rw [hi] at hnodup hfind
      have htake := takeFrom_nodes hnodup hfind
      rw [← hi] at htake
      rw [hsearch, show takeFrom size align (h.nodes A i) = _ from htake]
      exact .inr ⟨i, pre, y, post, hi, hfits, rfl, rfl⟩

lemma nodes_update (h : Heap) (A : BlockLists) (i : Fin 32) (xs : List ℕ) :
    h.nodes (Function.update A i xs)
      = Function.update (h.nodes A) i (xs.map fun a => ⟨a, h.sizeAt a⟩) := by
  funext j
  by_cases hj : j = i
  · rw [hj, Heap.nodes, Function.update_self, Function.update_self]
  · rw [Heap.nodes, Function.update_of_ne hj, Function.update_of_ne hj, Heap.nodes]

lemma nodes_congr {h' : Heap} (hsizes : ∀ i, ∀ a ∈ A i, h'.sizeAt a = h.sizeAt a) :
    h'.nodes A = h.nodes A := by
  funext i
  exact List.map_congr_left fun a ha => by rw [hsizes i a ha]

/-- **The rest of a block** is put into the same list in memory as in the sequences. -/
lemma splitOff_refines (hP : Places P) (hL : h.Linked P A) {y size : ℕ} (hle : size ≤ h.sizeAt y)
    (hrest : h.sizeAt y > size + 32 → P (wrap (y + Heap.FREE_BLOCK_SIZE * size)) ∧
      wrap (y + Heap.FREE_BLOCK_SIZE * size) ≠ 0 ∧
      ∀ j, wrap (y + Heap.FREE_BLOCK_SIZE * size) ∉ A j) (hsize : size + 32 < 2 ^ 64) :
    ∃ A', (h.splitOff y size).Linked P A' ∧
      (h.splitOff y size).nodes A' = (h.nodes A).splitOff ⟨y, h.sizeAt y⟩ size := by
  have hlt : h.sizeAt y < 2 ^ 64 := loadBytes_lt h.mem 8 (y + 8)
  rw [Heap.splitOff, NodeLists.splitOff]
  simp only [wrap_of_lt hsize, wrapSub_of_le hle hlt]
  by_cases hsplit : h.sizeAt y > size + 32
  · obtain ⟨hplace, hzero, hout⟩ := hrest hsplit
    rw [if_pos hsplit, if_pos hsplit, if_pos (by omega), if_pos (by omega)]
    obtain ⟨index, hindex⟩ : ∃ index, Heap.getListIndex (h.sizeAt y - size) = some index :=
      ⟨_, if_neg (by omega)⟩
    obtain ⟨hlinked, hself, hother⟩ := hL.insert hP hplace hzero hout hindex
    refine ⟨_, hlinked, ?_⟩
    have hold : (h.insert (wrap (y + Heap.FREE_BLOCK_SIZE * size)) (h.sizeAt y - size)).nodes A
        = h.nodes A :=
      nodes_congr fun i a ha => hother a (hL.mem i a ha) fun heq => hout i (heq ▸ ha)
    rw [nodes_update, NodeLists.insert, hindex, hold, List.map_cons, hself,
      Nat.mod_eq_of_lt (by omega)]
    exact congrArg (Function.update (h.nodes A) index) (congrArg _ (congrFun hold index))
  · rw [if_neg hsplit, if_neg hsplit]
    exact ⟨A, hL, rfl⟩

/-- **The lists in memory behave like the sequences**, for the requests of `alloc`, if the place of
the rest can hold a `FreeBlock`. -/
theorem removeBestFit_refines (hP : Places P) (hL : h.Linked P A) (layout : Layout)
    (hrest : ∀ n, ((h.nodes A).removeBestFit layout.blockSize layout.align).1 = some n →
      n.size > layout.blockSize + 32 →
        P (wrap (n.addr + Heap.FREE_BLOCK_SIZE * layout.blockSize)) ∧
        wrap (n.addr + Heap.FREE_BLOCK_SIZE * layout.blockSize) ≠ 0 ∧
        ∀ j, wrap (n.addr + Heap.FREE_BLOCK_SIZE * layout.blockSize) ∉ A j) :
    ∃ h' A', h.removeBestFit layout.blockSize layout.align
        = some (((h.nodes A).removeBestFit layout.blockSize layout.align).1.map FreeNode.addr,
          h') ∧
      h'.Linked P A' ∧
      h'.nodes A' = ((h.nodes A).removeBestFit layout.blockSize layout.align).2 := by
  rw [Heap.removeBestFit]
  rw [NodeLists.removeBestFit] at hrest ⊢
  rcases take_nodes hP hL layout.blockSize layout.align (Heap.listsFrom layout.blockSize) with
    ⟨hsearch, htake⟩ | ⟨i, pre, y, post, hi, hfits, hsearch, htake⟩
  · rw [hsearch, htake]
    exact ⟨h, A, rfl, hL, rfl⟩
  · rw [htake] at hrest
    rw [hsearch, htake]
    have hy : P y := hL.mem i y (by rw [hi]; simp)
    have hblock : layout.blockSize ≤ 2 ^ 63 := by
      have := layout.bounded
      rw [Layout.blockSize]
      omega
    obtain ⟨hL₁, hsizes⟩ := hL.takeOut hP hi
    -- the blocks that are left were there before
    have hsub : ∀ j, ∀ a ∈ Function.update A i (pre ++ post) j, a ∈ A j := by
      intro j a ha
      by_cases hj : j = i
      · rw [hj, Function.update_self] at ha
        rw [hj, hi]
        exact List.perm_middle.mem_iff.mpr (List.mem_cons_of_mem y ha)
      · rwa [Function.update_of_ne hj] at ha
    have hle : layout.blockSize ≤ (h.takeOut (slotAfter (.inl i) pre) y).sizeAt y := by
      rw [hsizes y hy]
      exact Heap.size_le_of_fits (hP.lt y hy) hfits
    have hplace : (h.takeOut (slotAfter (.inl i) pre) y).sizeAt y > layout.blockSize + 32 →
        P (wrap (y + Heap.FREE_BLOCK_SIZE * layout.blockSize)) ∧
        wrap (y + Heap.FREE_BLOCK_SIZE * layout.blockSize) ≠ 0 ∧
        ∀ j, wrap (y + Heap.FREE_BLOCK_SIZE * layout.blockSize)
          ∉ Function.update A i (pre ++ post) j := by
      intro hsplit
      rw [hsizes y hy] at hsplit
      obtain ⟨hplace, hzero, hout⟩ := hrest ⟨y, h.sizeAt y⟩ rfl hsplit
      exact ⟨hplace, hzero, fun j hj => hout j (hsub j _ hj)⟩
    obtain ⟨A', hlinked, hnodes⟩ := splitOff_refines hP hL₁ hle hplace (by omega)
    refine ⟨_, A', rfl, hlinked, hnodes.trans ?_⟩
    rw [hsizes y hy, nodes_congr fun j a ha => hsizes a (hL.mem j a (hsub j a ha)), nodes_update]

end Refinement

/-- Of a block of 256 bytes 64 are taken; the rest is put at `0x1600`. -/
theorem removeBestFit_refines_one_block :
    ∃ h' A', ((Heap.new fun _ => 0#8).insert 0x1000 256).removeBestFit 64 8
        = some (some 0x1000, h') ∧ h'.nodes A' 7 = [⟨0x1600, 192⟩] := by
  have hP : Places (· ∈ [0x1000, 0x1600]) := by
    constructor <;> simp only [List.mem_cons, List.not_mem_nil, or_false] <;> intros <;> omega
  have hnew : (Heap.new fun _ => 0#8).Linked (· ∈ [0x1000, 0x1600]) fun _ => [] :=
    ⟨fun _ => rfl, by simp, by simp, by simp⟩
  obtain ⟨hL, -, -⟩ := hnew.insert hP (a := 0x1000) (n := 256) (by simp) (by simp) (by simp) rfl
  obtain ⟨h', A', hremove, -, hnodes⟩ :=
    removeBestFit_refines hP hL ⟨64, 8, ⟨3, rfl⟩, by decide⟩ (by
      rintro n hn -
      obtain rfl : ⟨0x1000, 256⟩ = n := Option.some.inj hn
      refine ⟨by decide, by decide, fun j hj => ?_⟩
      rw [Function.update_apply] at hj
      split_ifs at hj <;> revert hj <;> decide)
  exact ⟨h', A', hremove, (congrFun hnodes 7).trans (by decide +kernel)⟩

end Masika
