import Mathlib.Data.Set.Insert
import Masika.Core.BitPacked
import Masika.Core.Runs

/-!
# The allocator of physical pages

`PhysicalPageAllocator` of `syscall/core.rs` hands out the pages of `[start_addr, end_addr)`, with a
bitmap, a hint where the next search starts, and a lock of its own.  What it is for is a finite set
of page addresses, and `pageAllocator_refines_set` says that it implements one: every answer is an
answer of the set, and between calls the lock is free.

* A call that finds the lock held spins forever; this is the outcome `none`.
* `compare_exchange_weak` may fail for no reason.  The outcomes of the exchanges of one call are
  given by a function `cas`, and nothing is assumed about it.
* `total_pages` and the length of the bitmap are determined by the bounds, which the structure
  records, together with the alignment that `new` checks.
-/

namespace Masika

/-- The size of a page. -/
def PAGE_SIZE : ℕ := 4096

/-- A bit for each page between two addresses. -/
structure PhysicalPageAllocator where
  startAddr : ℕ
  endAddr : ℕ
  bitmap : ℕ → U64
  /-- `bitmap.len()` -/
  bitmapLen : ℕ
  totalPages : ℕ
  nextFreeHint : ℕ
  lock : Bool
  start_aligned : startAddr % PAGE_SIZE = 0
  end_eq : endAddr = startAddr + totalPages * PAGE_SIZE
  len_eq : bitmapLen = (totalPages + 63) / 64

namespace PhysicalPageAllocator

/-! ## The code -/

/-- All pages are free. -/
def new (start stop : ℕ) (hle : start ≤ stop) : Except String PhysicalPageAllocator :=
  if h : start % PAGE_SIZE ≠ 0 ∨ stop % PAGE_SIZE ≠ 0 then
    .error "Start and end must be page-aligned"
  else
    .ok {
      startAddr := start
      endAddr := stop
      bitmap := fun _ => 0#64
      bitmapLen := ((stop - start) / PAGE_SIZE + 63) / 64
      totalPages := (stop - start) / PAGE_SIZE
      nextFreeHint := 0
      lock := false
      start_aligned := by rw [PAGE_SIZE] at h ⊢; omega
      end_eq := by rw [PAGE_SIZE] at h ⊢; omega
      len_eq := rfl }

/-- `1u64 << bit_idx`. -/
def mask (pageIdx : ℕ) : U64 := 1#64 <<< (pageIdx % 64)

/-- The search of `allocate_page`: the page whose bit is set in the end.  The first argument is the
number of iterations left, `i` the number of those done, which selects the outcome of the
exchange. -/
def search (a : PhysicalPageAllocator) (cas : ℕ → Bool) : ℕ → ℕ → ℕ → Option ℕ
  | 0, _, _ => none
  | left + 1, i, pageIdx =>
    let pageIdx := if pageIdx ≥ a.totalPages then 0 else pageIdx
    if pageIdx / 64 ≥ a.bitmapLen then none
    else if a.bitmap (pageIdx / 64) &&& mask pageIdx = 0#64 then
      -- after a failed exchange `continue` skips the increment: the same page is tried again
      if cas i then some pageIdx else search a cas left (i + 1) pageIdx
    else search a cas left (i + 1) (pageIdx + 1)

/-- `allocate_page` between taking and releasing the lock. -/
def takePage (a : PhysicalPageAllocator) (cas : ℕ → Bool) : Option ℕ × PhysicalPageAllocator :=
  match a.search cas a.totalPages 0 a.nextFreeHint with
  | some pageIdx =>
    (some (a.startAddr + pageIdx * PAGE_SIZE),
      { a with
        bitmap := Function.update a.bitmap (pageIdx / 64)
          (a.bitmap (pageIdx / 64) ||| mask pageIdx)
        nextFreeHint := (pageIdx + 1) % a.totalPages
        lock := false })
  | none => (none, { a with lock := false })

/-- `none` if the lock is held: the call spins. -/
def allocatePage (a : PhysicalPageAllocator) (cas : ℕ → Bool) :
    Option (Option ℕ × PhysicalPageAllocator) :=
  if a.lock then none else some (a.takePage cas)

/-- The check that `deallocate_page` and `is_allocated` begin with. -/
def invalid (a : PhysicalPageAllocator) (addr : ℕ) : Prop :=
  addr < a.startAddr ∨ addr ≥ a.endAddr ∨ (addr - a.startAddr) % PAGE_SIZE ≠ 0

instance (a : PhysicalPageAllocator) (addr : ℕ) : Decidable (a.invalid addr) :=
  inferInstanceAs (Decidable (_ ∨ _ ∨ _))

/-- `deallocate_page` between taking and releasing the lock. -/
def dropPage (a : PhysicalPageAllocator) (addr : ℕ) : Except String Unit × PhysicalPageAllocator :=
  let pageIdx := (addr - a.startAddr) / PAGE_SIZE
  if pageIdx / 64 ≥ a.bitmapLen then (.error "Page index out of bounds", { a with lock := false })
  else
    let oldEntry := a.bitmap (pageIdx / 64)
    let a' := { a with
      bitmap := Function.update a.bitmap (pageIdx / 64) (oldEntry &&& ~~~mask pageIdx)
      lock := false }
    if oldEntry &&& mask pageIdx = 0#64 then (.error "Page was already deallocated", a')
    else (.ok (), a')

/-- `deallocate_page`, when the lock is free. -/
def freePage (a : PhysicalPageAllocator) (addr : ℕ) : Except String Unit × PhysicalPageAllocator :=
  if a.invalid addr then (.error "Invalid physical address for deallocation", a)
  else a.dropPage addr

/-- `none` if the lock is held and has to be taken. -/
def deallocatePage (a : PhysicalPageAllocator) (addr : ℕ) :
    Option (Except String Unit × PhysicalPageAllocator) :=
  if ¬ a.invalid addr ∧ a.lock = true then none else some (a.freePage addr)

/-- Whether a page is in use. -/
def isAllocated (a : PhysicalPageAllocator) (addr : ℕ) : Except String Bool :=
  if a.invalid addr then .error "Invalid physical address"
  else
    let pageIdx := (addr - a.startAddr) / PAGE_SIZE
    if pageIdx / 64 ≥ a.bitmapLen then .error "Page index out of bounds"
    else .ok (a.bitmap (pageIdx / 64) &&& mask pageIdx != 0#64)

end PhysicalPageAllocator

/-! ## The set of allocated pages -/

/-- The calls. -/
inductive PageCall where
  | allocate (cas : ℕ → Bool)
  | deallocate (addr : ℕ)
  | isAllocated (addr : ℕ)

/-- Their answers. -/
inductive PageAnswer where
  | page (addr : Option ℕ)
  | freed (result : Except String Unit)
  | state (result : Except String Bool)

/-- **The specification.**  Which answers a set of pages can give to a call, and what the set is
afterwards. -/
def PageAnswer.Possible (S : Set ℕ) (S' : Set ℕ) : PageCall → PageAnswer → Prop
  | .allocate _, .page (some addr) => addr ∉ S ∧ S' = insert addr S
  | .allocate _, .page none => S' = S
  | .deallocate addr, .freed (.ok ()) => addr ∈ S ∧ S' = S \ {addr}
  | .deallocate addr, .freed (.error _) => addr ∉ S ∧ S' = S
  | .isAllocated addr, .state result => (result = .ok true ↔ addr ∈ S) ∧ S' = S
  | _, _ => False

namespace PhysicalPageAllocator

/-- One call, with its answer. -/
def call (a : PhysicalPageAllocator) : PageCall → Option (PageAnswer × PhysicalPageAllocator)
  | .allocate cas => (a.allocatePage cas).map fun (addr, a') => (.page addr, a')
  | .deallocate addr => (a.deallocatePage addr).map fun (result, a') => (.freed result, a')
  | .isAllocated addr => some (.state (a.isAllocated addr), a)

/-- One call. -/
def step (a : PhysicalPageAllocator) (c : PageCall) : Option PhysicalPageAllocator :=
  (a.call c).map Prod.snd

/-- The address of a page. -/
def pageAddr (a : PhysicalPageAllocator) (pageIdx : ℕ) : ℕ := a.startAddr + pageIdx * PAGE_SIZE

/-- The addresses of the pages whose bit is set. -/
def allocated (a : PhysicalPageAllocator) : Set ℕ :=
  {addr | ∃ p < a.totalPages, addr = a.pageAddr p ∧ getBit a.bitmap p = true}

/-- The page addresses between two bounds. -/
def pagesBetween (start stop : ℕ) : Set ℕ :=
  {addr | start ≤ addr ∧ addr < stop ∧ addr % PAGE_SIZE = 0}

/-- What holds between two calls. -/
structure Ready (a : PhysicalPageAllocator) : Prop where
  unlocked : a.lock = false
  hint : a.nextFreeHint < max 1 a.totalPages

/-! ## Bits and addresses -/

variable {a : PhysicalPageAllocator}

lemma pageAddr_inj {p q : ℕ} (h : a.pageAddr p = a.pageAddr q) : p = q := by
  rw [pageAddr, pageAddr, PAGE_SIZE] at h
  omega

lemma pageAddr_mem_allocated {p : ℕ} (hp : p < a.totalPages) :
    a.pageAddr p ∈ a.allocated ↔ getBit a.bitmap p = true := by
  constructor
  · rintro ⟨q, -, haddr, hq⟩
    rw [pageAddr_inj haddr]
    exact hq
  · exact fun h => ⟨p, hp, rfl, h⟩

/-- A valid address is the address of a page, and its index has an entry in the bitmap. -/
lemma pageAddr_of_valid {addr : ℕ} (h : ¬ a.invalid addr) :
    (addr - a.startAddr) / PAGE_SIZE < a.totalPages ∧
      a.pageAddr ((addr - a.startAddr) / PAGE_SIZE) = addr ∧
      (addr - a.startAddr) / PAGE_SIZE / 64 < a.bitmapLen := by
  have hend := a.end_eq
  have hlen := a.len_eq
  rw [invalid, not_or, not_or, not_lt, not_le, not_not, hend] at h
  rw [pageAddr, hlen]
  rw [PAGE_SIZE] at h ⊢
  omega

lemma not_mem_allocated_of_invalid {addr : ℕ} (h : a.invalid addr) : addr ∉ a.allocated := by
  rintro ⟨p, hp, rfl, -⟩
  have hend := a.end_eq
  rw [invalid, pageAddr, hend] at h
  rw [PAGE_SIZE] at h
  omega

lemma and_mask (words : ℕ → U64) (p : ℕ) :
    (words (p / 64) &&& mask p != 0#64) = getBit words p := by
  rw [getBit, shiftRight_six, and_sixtyThree, mask]

lemma and_mask_eq_zero (words : ℕ → U64) (p : ℕ) :
    words (p / 64) &&& mask p = 0#64 ↔ getBit words p = false := by
  rw [← and_mask, bne_eq_false_iff_eq]

lemma update_or_mask (words : ℕ → U64) (p : ℕ) :
    Function.update words (p / 64) (words (p / 64) ||| mask p) = setBit words p := by
  rw [setBit, shiftRight_six, and_sixtyThree, mask]

lemma update_and_mask (words : ℕ → U64) (p : ℕ) :
    Function.update words (p / 64) (words (p / 64) &&& ~~~mask p) = clearBit words p := by
  rw [clearBit, shiftRight_six, and_sixtyThree, mask]

/-! ## The calls -/

/-- The search finds a page that exists and is free, whatever the hint and the exchanges are. -/
lemma search_spec (hpos : 0 < a.totalPages) {cas : ℕ → Bool} {left : ℕ} :
    ∀ {i idx p : ℕ}, a.search cas left i idx = some p →
      p < a.totalPages ∧ getBit a.bitmap p = false := by
  induction left with
  | zero => intro i idx p h; simp [search] at h
  | succ left ih =>
    intro i idx p h
    rw [search] at h
    have hidx : (if idx ≥ a.totalPages then 0 else idx) < a.totalPages := by
      split_ifs <;> omega
    generalize (if idx ≥ a.totalPages then 0 else idx) = q at h hidx
    split_ifs at h with hlen hfree hcas
    · rw [Option.some.injEq] at h
      subst h
      exact ⟨hidx, (and_mask_eq_zero _ _).mp hfree⟩
    · exact ih h
    · exact ih h

/-- A page that was free, or no change. -/
theorem takePage_spec (hlock : a.lock = false) (cas : ℕ → Bool) :
    match (a.takePage cas).1 with
    | none => (a.takePage cas).2 = a
    | some addr => ∃ p < a.totalPages, addr = a.pageAddr p ∧ getBit a.bitmap p = false ∧
        (a.takePage cas).2
          = { a with bitmap := setBit a.bitmap p, nextFreeHint := (p + 1) % a.totalPages } := by
  rw [takePage]
  cases hsearch : a.search cas a.totalPages 0 a.nextFreeHint with
  | none => simp only [← hlock]
  | some p =>
    have hpos : 0 < a.totalPages := by
      rcases Nat.eq_zero_or_pos a.totalPages with h0 | h0
      · rw [h0, search] at hsearch
        exact absurd hsearch (by simp)
      · exact h0
    obtain ⟨hp, hclear⟩ := search_spec hpos hsearch
    exact ⟨p, hp, rfl, hclear, by simp only [update_or_mask, hlock]⟩

/-- A page that was in use, or no change. -/
theorem freePage_spec (hlock : a.lock = false) (addr : ℕ) :
    match (a.freePage addr).1 with
    | .error _ => addr ∉ a.allocated ∧ (a.freePage addr).2 = a
    | .ok () => addr ∈ a.allocated ∧ ∃ p < a.totalPages, a.pageAddr p = addr ∧
        (a.freePage addr).2 = { a with bitmap := clearBit a.bitmap p } := by
  rw [freePage]
  by_cases haddr : a.invalid addr
  · rw [if_pos haddr]
    exact ⟨not_mem_allocated_of_invalid haddr, rfl⟩
  rw [if_neg haddr]
  obtain ⟨hp, hpage, hlen⟩ := pageAddr_of_valid haddr
  have hmem := pageAddr_mem_allocated hp
  rw [hpage] at hmem
  rw [dropPage]
  simp only [not_le.mpr hlen, if_false, update_and_mask, and_mask_eq_zero]
  cases hbit : getBit a.bitmap ((addr - a.startAddr) / PAGE_SIZE) with
  | false =>
    rw [if_pos rfl]
    refine ⟨by rw [hmem, hbit]; simp, ?_⟩
    simp only [clearBit_of_clear hbit, ← hlock]
  | true =>
    rw [if_neg (by simp)]
    exact ⟨hmem.mpr hbit, _, hp, hpage, by simp only [hlock]⟩

/-! ## The set of allocated pages before and after -/

lemma allocated_setBit {p : ℕ} (hp : p < a.totalPages) (hint : ℕ) :
    ({ a with bitmap := setBit a.bitmap p, nextFreeHint := hint } :
      PhysicalPageAllocator).allocated = insert (a.pageAddr p) a.allocated := by
  ext addr
  simp only [allocated, Set.mem_ofPred_eq, Set.mem_insert_iff, getBit_setBit, Bool.or_eq_true,
    decide_eq_true_eq]
  constructor
  · rintro ⟨q, hq, haddr, hbit | rfl⟩
    · exact Or.inr ⟨q, hq, haddr, hbit⟩
    · exact Or.inl haddr
  · rintro (haddr | ⟨q, hq, haddr, hbit⟩)
    · exact ⟨p, hp, haddr, Or.inr rfl⟩
    · exact ⟨q, hq, haddr, Or.inl hbit⟩

lemma allocated_clearBit (p : ℕ) :
    ({ a with bitmap := clearBit a.bitmap p } : PhysicalPageAllocator).allocated
      = a.allocated \ {a.pageAddr p} := by
  ext addr
  simp only [allocated, Set.mem_ofPred_eq, Set.mem_sdiff, Set.mem_singleton_iff, getBit_clearBit,
    Bool.and_eq_true, Bool.not_eq_true', decide_eq_false_iff_not]
  constructor
  · rintro ⟨q, hq, rfl, hbit, hne⟩
    exact ⟨⟨q, hq, rfl, hbit⟩, fun h => hne (pageAddr_inj h)⟩
  · rintro ⟨⟨q, hq, rfl, hbit⟩, hne⟩
    exact ⟨q, hq, rfl, hbit, fun h => hne (by rw [h])⟩

lemma takePage_lock (a : PhysicalPageAllocator) (cas : ℕ → Bool) :
    (a.takePage cas).2.lock = false := by
  rw [takePage]
  cases a.search cas a.totalPages 0 a.nextFreeHint <;> rfl

lemma freePage_lock (hlock : a.lock = false) (addr : ℕ) : (a.freePage addr).2.lock = false := by
  have hspec := freePage_spec hlock addr
  generalize a.freePage addr = result at hspec
  obtain ⟨e | _, a'⟩ := result
  · rw [hspec.2]
    exact hlock
  · obtain ⟨-, p, -, -, rfl⟩ := hspec
    exact hlock

/-- A page that is handed out was not allocated, and is now. -/
lemma takePage_allocated (hlock : a.lock = false) (cas : ℕ → Bool) :
    match (a.takePage cas).1 with
    | none => (a.takePage cas).2.allocated = a.allocated
    | some addr => addr ∉ a.allocated ∧ (a.takePage cas).2.allocated = insert addr a.allocated := by
  have hspec := takePage_spec hlock cas
  generalize a.takePage cas = result at hspec
  obtain ⟨_ | addr, a'⟩ := result
  · exact congrArg allocated hspec
  · obtain ⟨p, hp, rfl, hclear, rfl⟩ := hspec
    refine ⟨?_, allocated_setBit hp _⟩
    rw [pageAddr_mem_allocated hp, hclear]
    simp

/-- Whatever the address, giving it back removes it from the set. -/
lemma freePage_allocated (hlock : a.lock = false) (addr : ℕ) :
    (a.freePage addr).2.allocated = a.allocated \ {addr} := by
  have hspec := freePage_spec hlock addr
  generalize a.freePage addr = result at hspec
  obtain ⟨e | _, a'⟩ := result
  · rw [hspec.2, Set.sdiff_singleton_eq_self hspec.1]
  · obtain ⟨-, p, -, rfl, rfl⟩ := hspec
    exact allocated_clearBit p

/-! ## The refinement -/

/-- What a call does, seen from outside. -/
structure Answers (a : PhysicalPageAllocator) (c : PageCall) (answer : PageAnswer)
    (a' : PhysicalPageAllocator) : Prop where
  call : a.call c = some (answer, a')
  allowed : answer.Possible a.allocated a'.allocated c
  kept : ∀ e, answer = .freed (.error e) → a'.bitmap = a.bitmap
  unlocked : a'.lock = false
  bounds : a'.startAddr = a.startAddr ∧ a'.endAddr = a.endAddr

lemma Ready.allocate (ha : a.Ready) (cas : ℕ → Bool) :
    ∃ answer a', Answers a (.allocate cas) answer a' ∧ a'.Ready := by
  have hspec := takePage_spec ha.unlocked cas
  have hset := takePage_allocated ha.unlocked cas
  have hcall : a.call (.allocate cas) = some (.page (a.takePage cas).1, (a.takePage cas).2) := by
    rw [call, allocatePage, ha.unlocked]
    rfl
  generalize a.takePage cas = result at hspec hset hcall
  obtain ⟨_ | addr, a'⟩ := result
  · obtain rfl := hspec
    exact ⟨_, _, ⟨hcall, hset, fun _ h => PageAnswer.noConfusion h, ha.unlocked, rfl, rfl⟩, ha⟩
  · obtain ⟨p, hp, -, -, rfl⟩ := hspec
    have hhint : (p + 1) % a.totalPages < a.totalPages := Nat.mod_lt _ (by omega)
    exact ⟨_, _, ⟨hcall, hset, fun _ h => PageAnswer.noConfusion h, ha.unlocked, rfl, rfl⟩,
      ha.unlocked, lt_of_lt_of_le hhint (le_max_right _ _)⟩

lemma Ready.deallocate (ha : a.Ready) (addr : ℕ) :
    ∃ answer a', Answers a (.deallocate addr) answer a' ∧ a'.Ready := by
  have hspec := freePage_spec ha.unlocked addr
  have hcall : a.call (.deallocate addr)
      = some (.freed (a.freePage addr).1, (a.freePage addr).2) := by
    rw [call, deallocatePage, ha.unlocked, if_neg (by simp)]
    rfl
  generalize a.freePage addr = result at hspec hcall
  obtain ⟨e | _, a'⟩ := result
  · obtain ⟨hnot, rfl⟩ := hspec
    exact ⟨_, _, ⟨hcall, ⟨hnot, rfl⟩, fun _ _ => rfl, ha.unlocked, rfl, rfl⟩, ha⟩
  · obtain ⟨hmem, p, -, rfl, rfl⟩ := hspec
    exact ⟨_, _, ⟨hcall, ⟨hmem, allocated_clearBit p⟩, fun e h => absurd h (by simp), ha.unlocked,
      rfl, rfl⟩, ha.unlocked, ha.hint⟩

lemma isAllocated_eq_ok_true {addr : ℕ} : a.isAllocated addr = .ok true ↔ addr ∈ a.allocated := by
  rw [isAllocated]
  by_cases haddr : a.invalid addr
  · rw [if_pos haddr]
    simp [not_mem_allocated_of_invalid haddr]
  · obtain ⟨hp, hpage, hlen⟩ := pageAddr_of_valid haddr
    have hmem := pageAddr_mem_allocated hp
    rw [hpage] at hmem
    rw [if_neg haddr, hmem]
    simp only [not_le.mpr hlen, if_false, and_mask, Except.ok.injEq]

/-- **Every call returns, with an answer of the set**, and leaves the allocator ready. -/
theorem Ready.answers (ha : a.Ready) (c : PageCall) :
    ∃ answer a', Answers a c answer a' ∧ a'.Ready := by
  cases c with
  | allocate cas => exact ha.allocate cas
  | deallocate addr => exact ha.deallocate addr
  | isAllocated addr =>
    exact ⟨_, a, ⟨rfl, ⟨isAllocated_eq_ok_true, rfl⟩, fun _ _ => rfl, ha.unlocked, rfl, rfl⟩, ha⟩

/-- The invariant of a run: ready, with the bounds it was created with. -/
def ReadyBetween (start stop : ℕ) (a : PhysicalPageAllocator) : Prop :=
  a.Ready ∧ a.startAddr = start ∧ a.endAddr = stop

lemma ReadyBetween.step {start stop : ℕ} (s : PhysicalPageAllocator) (c : PageCall)
    (s' : PhysicalPageAllocator) (hs : ReadyBetween start stop s) (h : s.step c = some s') :
    ReadyBetween start stop s' := by
  obtain ⟨answer, a', hans, hready⟩ := hs.1.answers c
  rw [PhysicalPageAllocator.step, hans.call, Option.map_some, Option.some.injEq] at h
  rw [← h]
  exact ⟨hready, hans.bounds.1.trans hs.2.1, hans.bounds.2.trans hs.2.2⟩

lemma allocated_subset (a : PhysicalPageAllocator) :
    a.allocated ⊆ pagesBetween a.startAddr a.endAddr := by
  rintro addr ⟨p, hp, rfl, -⟩
  have hstart := a.start_aligned
  have hend := a.end_eq
  rw [pagesBetween, Set.mem_ofPred_eq, pageAddr, hend]
  rw [PAGE_SIZE] at *
  omega

end PhysicalPageAllocator

/-- **The allocator refines a finite set of pages.**  For page-aligned bounds `new` succeeds, with
the empty set.  In every state that calls lead to, the set consists of page addresses within the
bounds, the hint is in range, the lock is free; and every further call returns, answers as the set
does, and leaves the bitmap alone when it is a release that fails. -/
theorem pageAllocator_refines_set {start stop : ℕ} (hle : start ≤ stop)
    (hstart : start % PAGE_SIZE = 0) (hstop : stop % PAGE_SIZE = 0) :
    ∃ a₀, PhysicalPageAllocator.new start stop hle = .ok a₀ ∧ a₀.allocated = ∅ ∧
      ∀ calls a, run PhysicalPageAllocator.step a₀ calls = some a →
        a.allocated ⊆ PhysicalPageAllocator.pagesBetween start stop ∧ a.lock = false ∧
        a.nextFreeHint < max 1 a.totalPages ∧
        ∀ c, ∃ answer a', a.Answers c answer a' := by
  have hnew := show PhysicalPageAllocator.new start stop hle = .ok _ from
    dif_neg (by rw [hstart, hstop]; simp)
  refine ⟨_, hnew, ?_, fun calls a h => ?_⟩
  · refine Set.eq_empty_iff_forall_notMem.mpr ?_
    rintro addr ⟨p, -, -, hbit⟩
    rw [getBit_eq, BitVec.getLsbD_zero] at hbit
    exact absurd hbit (by simp)
  · have hinv : PhysicalPageAllocator.ReadyBetween start stop a :=
      run_invariant PhysicalPageAllocator.ReadyBetween.step
        ⟨⟨rfl, lt_of_lt_of_le Nat.zero_lt_one (le_max_left _ _)⟩, rfl, rfl⟩ h
    obtain ⟨hready, rfl, rfl⟩ := hinv
    refine ⟨a.allocated_subset, hready.unlocked, hready.hint, fun c => ?_⟩
    obtain ⟨answer, a', hans, -⟩ := hready.answers c
    exact ⟨answer, a', hans⟩

/-- The bounds of the global allocator, 16 megabytes and two gigabytes. -/
theorem pageAllocator_refines_set_global :
    ∃ a₀, PhysicalPageAllocator.new 0x1000000 0x80000000 (by decide) = .ok a₀ ∧
      a₀.allocated = ∅ ∧ ∀ c, ∃ answer a', a₀.Answers c answer a' := by
  obtain ⟨a₀, hnew, hempty, hrun⟩ :=
    pageAllocator_refines_set (show 0x1000000 ≤ 0x80000000 by decide) (by decide) (by decide)
  exact ⟨a₀, hnew, hempty, (hrun [] a₀ rfl).2.2.2⟩

end Masika
