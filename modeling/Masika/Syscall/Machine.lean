import Masika.Core.Usize
import Masika.Syscall.PhysicalPages

/-!
# What the memory system calls work on

`sys_brk` and `sys_mmap` of `syscall/core.rs` act on three things: the physical pages, the mappings
of the current address space, and the current process with its break and its allocator of virtual
pages.  Parts of this are not in the repository.

* `map_user_page` either maps the page that contains the address, or reports failure and changes
  nothing; `unmap_user_page` unmaps that page.  Which calls fail is not known, so it is an input of
  the system call (`Outcomes`), as are the outcomes of the exchanges inside `allocate_page`.
* `Process` has the fields that its accessors name.
* Between calls the locks of both allocators are free, which the structures record; for the physical
  pages this is part of what `PhysicalPageAllocator` guarantees.

Both system calls contain the same loop: take a physical page, map it, and leave with some clean-up
if either fails.  `mapLoop` is that loop with the clean-up as a parameter, and its properties are
proved here once.  The one that matters for failures is `mapLoop_leak`: once a page has been taken,
a failure does not restore the set of allocated pages.
-/

namespace Masika

/-- `-1i64 as u64`. -/
def MINUS_ONE : U64 := BitVec.allOnes 64

/-! ## Mappings -/

/-- An entry of a process's page table. -/
structure UserPage where
  phys : ℕ
  readable : Bool
  writable : Bool
  executable : Bool
deriving DecidableEq, Repr

/-- The mappings of an address space, by page number. -/
abbrev UserMappings := ℕ → Option UserPage

/-- `map_user_page`, when it succeeds. -/
def mapUserPage (mappings : UserMappings) (vaddr : ℕ) (page : UserPage) : UserMappings :=
  Function.update mappings (vaddr / PAGE_SIZE) (some page)

/-- The page is no longer mapped. -/
def unmapUserPage (mappings : UserMappings) (vaddr : ℕ) : UserMappings :=
  Function.update mappings (vaddr / PAGE_SIZE) none

/-! ## Virtual pages -/

/-- `PageAllocator`: the pages between `start_addr` and `end_addr`, handed out in order. -/
structure PageAllocator where
  startAddr : U64
  endAddr : U64
  current : U64
  lock : Bool

namespace PageAllocator

/-- `usize::saturating_add`. -/
def saturatingAdd (a b : ℕ) : ℕ := min (a + b) (2 ^ 64 - 1)

/-- Nothing is given out. -/
def new (heapStart heapSize : U64) : PageAllocator :=
  { startAddr := heapStart
    endAddr := BitVec.ofNat 64 (saturatingAdd heapStart.toNat heapSize.toNat)
    current := heapStart
    lock := false }

/-- `allocate_pages` between taking and releasing the lock.  With the lock held nobody else changes
`current`, so the exchange succeeds in the first round. -/
def claimPages (p : PageAllocator) (count : ℕ) : Option U64 × PageAllocator :=
  let totalSize := wrap (count * PAGE_SIZE)
  let newCurrent := saturatingAdd p.current.toNat totalSize
  if newCurrent > p.endAddr.toNat then (none, { p with lock := false })
  else (some p.current, { p with current := BitVec.ofNat 64 newCurrent, lock := false })

/-- `none` if the lock is held: the call spins. -/
def allocatePages (p : PageAllocator) (count : ℕ) : Option (Option U64 × PageAllocator) :=
  if count = 0 then some (none, p)
  else if p.lock then none
  else some (p.claimPages count)

lemma claimPages_lock (p : PageAllocator) (count : ℕ) : (p.claimPages count).2.lock = false := by
  rw [claimPages]
  split_ifs <;> rfl

end PageAllocator

/-! ## The machine -/

/-- The fields of a process that the calls use. -/
structure Process where
  heapStart : U64
  heapEnd : U64
  maxHeap : U64
  allocator : PageAllocator
  idle : allocator.lock = false

/-- What the system calls work on. -/
structure Machine where
  physical : PhysicalPageAllocator
  idle : physical.lock = false
  mappings : UserMappings
  /-- `Process::current()` -/
  process : Option Process

namespace Machine

/-- The set of allocated physical pages. -/
def pages (s : Machine) : Set ℕ := s.physical.allocated

/-- `PHYSICAL_ALLOCATOR.lock().allocate_page()`. -/
def takePage (s : Machine) (cas : ℕ → Bool) : Option ℕ × Machine :=
  ((s.physical.takePage cas).1,
    { s with
      physical := (s.physical.takePage cas).2
      idle := s.physical.takePage_lock cas })

/-- `PHYSICAL_ALLOCATOR.lock().deallocate_page(addr)`, the result of which is ignored. -/
def freePage (s : Machine) (addr : ℕ) : Machine :=
  { s with
    physical := (s.physical.freePage addr).2
    idle := PhysicalPageAllocator.freePage_lock s.idle addr }

/-- Map a page of the process. -/
def mapPage (s : Machine) (vaddr : ℕ) (page : UserPage) : Machine :=
  { s with mappings := mapUserPage s.mappings vaddr page }

/-- Unmap a page of the process. -/
def unmapPage (s : Machine) (vaddr : ℕ) : Machine :=
  { s with mappings := unmapUserPage s.mappings vaddr }

lemma takePage_none {s s' : Machine} {cas : ℕ → Bool} (h : s.takePage cas = (none, s')) :
    s'.pages = s.pages ∧ s'.mappings = s.mappings ∧ s'.process = s.process := by
  have hset := PhysicalPageAllocator.takePage_allocated s.idle cas
  rw [takePage, Prod.mk.injEq] at h
  obtain ⟨hnone, rfl⟩ := h
  rw [hnone] at hset
  exact ⟨hset, rfl, rfl⟩

lemma takePage_some {s s' : Machine} {cas : ℕ → Bool} {addr : ℕ}
    (h : s.takePage cas = (some addr, s')) :
    addr ∉ s.pages ∧ s'.pages = insert addr s.pages ∧ s'.mappings = s.mappings ∧
      s'.process = s.process := by
  have hset := PhysicalPageAllocator.takePage_allocated s.idle cas
  rw [takePage, Prod.mk.injEq] at h
  obtain ⟨hsome, rfl⟩ := h
  rw [hsome] at hset
  exact ⟨hset.1, hset.2, rfl, rfl⟩

@[simp] lemma freePage_pages (s : Machine) (addr : ℕ) :
    (s.freePage addr).pages = s.pages \ {addr} :=
  PhysicalPageAllocator.freePage_allocated s.idle addr

@[simp] lemma mapPage_pages (s : Machine) (vaddr : ℕ) (page : UserPage) :
    (s.mapPage vaddr page).pages = s.pages := rfl

@[simp] lemma unmapPage_pages (s : Machine) (vaddr : ℕ) : (s.unmapPage vaddr).pages = s.pages := rfl

lemma mapPage_mappings (s : Machine) (vaddr : ℕ) (page : UserPage) (q : ℕ) :
    (s.mapPage vaddr page).mappings q
      = if q = vaddr / PAGE_SIZE then some page else s.mappings q :=
  Function.update_apply _ _ _ _

/-- Unmapping page after page. -/
def unmapPages (s : Machine) (vaddrs : List ℕ) : Machine := vaddrs.foldl unmapPage s

lemma unmapPages_spec (s : Machine) (vaddrs : List ℕ) :
    (s.unmapPages vaddrs).pages = s.pages ∧ (s.unmapPages vaddrs).process = s.process ∧
      ∀ q, (s.unmapPages vaddrs).mappings q
        = if q ∈ vaddrs.map (· / PAGE_SIZE) then none else s.mappings q := by
  induction vaddrs generalizing s with
  | nil => exact ⟨rfl, rfl, fun q => rfl⟩
  | cons vaddr vaddrs ih =>
    obtain ⟨hpages, hprocess, hmap⟩ := ih (s.unmapPage vaddr)
    refine ⟨hpages, hprocess, fun q => ?_⟩
    refine (hmap q).trans ?_
    simp only [List.map_cons, List.mem_cons, unmapPage, unmapUserPage, Function.update_apply]
    by_cases hq : q = vaddr / PAGE_SIZE <;> by_cases hin : q ∈ vaddrs.map (· / PAGE_SIZE) <;>
      simp [hq, hin]

end Machine

/-- A machine with `n` free pages from one page boundary on, nothing mapped, and a process with an
empty heap. -/
def freshMachine (n : ℕ) : Machine where
  physical :=
    { startAddr := 0x1000
      endAddr := 0x1000 + n * PAGE_SIZE
      bitmap := fun _ => 0#64
      bitmapLen := (n + 63) / 64
      totalPages := n
      nextFreeHint := 0
      lock := false
      start_aligned := rfl
      end_eq := rfl
      len_eq := rfl }
  idle := rfl
  mappings := fun _ => none
  process := some
    { heapStart := 0x400000#64
      heapEnd := 0x400000#64
      maxHeap := 0x500000#64
      allocator := ⟨0x600000#64, 0x700000#64, 0x600000#64, false⟩
      idle := rfl }

/-- No page of a fresh machine is allocated. -/
lemma pages_ne_freshMachine {s : Machine} {n : ℕ} (htotal : 0 < s.physical.totalPages)
    (hbit : getBit s.physical.bitmap 0 = true) : s.pages ≠ (freshMachine n).pages := by
  intro hpages
  have hmem : s.physical.pageAddr 0 ∈ s.pages :=
    (PhysicalPageAllocator.pageAddr_mem_allocated htotal).mpr hbit
  rw [hpages] at hmem
  obtain ⟨p, -, -, hp⟩ := hmem
  rw [getBit_eq] at hp
  simp [freshMachine] at hp

/-! ## The loop of both system calls -/

/-- How the calls inside one system call turn out: the exchanges of the `i`-th `allocate_page`, and
whether the `i`-th `map_user_page` succeeds. -/
structure Outcomes where
  cas : ℕ → ℕ → Bool
  mapOk : ℕ → Bool

/-- Every call succeeds, as long as there are pages. -/
def Outcomes.good : Outcomes := ⟨fun _ _ => true, fun _ => true⟩

/-- What the loop maps, and how it cleans up in iteration `i`: when there is no physical page, and
when the page it has got cannot be mapped.  `none` means that the clean-up does not come back. -/
structure LoopPlan where
  vaddr : ℕ → ℕ
  page : ℕ → UserPage
  noPage : ℕ → Machine → Machine
  noMapping : ℕ → ℕ → Machine → Option Machine

/-- `for i in 0..n { .. }`, with the number of iterations left and the number of those done.  The
answer says whether the loop has reached its end. -/
def mapLoop (plan : LoopPlan) (o : Outcomes) : ℕ → ℕ → Machine → Option (Bool × Machine)
  | 0, _, s => some (true, s)
  | left + 1, i, s =>
    match s.takePage (o.cas i) with
    | (none, s) => some (false, plan.noPage i s)
    | (some phys, s) =>
      if o.mapOk i then mapLoop plan o left (i + 1) (s.mapPage (plan.vaddr i) (plan.page phys))
      else (plan.noMapping i phys s).map fun s => (false, s)

/-- The call that fails first, with its iteration. -/
inductive Failure where
  | page (i : ℕ)
  | mapping (i : ℕ)
deriving DecidableEq, Repr

/-- The round that failed. -/
def Failure.round : Failure → ℕ
  | page i => i
  | mapping i => i

/-- The first failure of `n` rounds, beginning with round `i`, of taking a page and mapping it. -/
def firstFailure (o : Outcomes) : ℕ → ℕ → PhysicalPageAllocator → Option Failure
  | 0, _, _ => none
  | left + 1, i, a =>
    match (a.takePage (o.cas i)).1 with
    | none => some (.page i)
    | some _ =>
      if o.mapOk i then firstFailure o left (i + 1) (a.takePage (o.cas i)).2
      else some (.mapping i)

section MapLoop

variable {plan : LoopPlan} {o : Outcomes} {left i phys : ℕ} {s s₁ : Machine}

/-- The three ways in which round `i` can go. -/
inductive Round (o : Outcomes) (i : ℕ) (s : Machine) : Prop
  | noPage (s₁ : Machine) (htake : s.takePage (o.cas i) = (none, s₁))
  | noMapping (phys : ℕ) (s₁ : Machine) (htake : s.takePage (o.cas i) = (some phys, s₁))
      (hok : o.mapOk i = false)
  | mapped (phys : ℕ) (s₁ : Machine) (htake : s.takePage (o.cas i) = (some phys, s₁))
      (hok : o.mapOk i = true)

lemma round (o : Outcomes) (i : ℕ) (s : Machine) : Round o i s := by
  cases htake : s.takePage (o.cas i) with
  | mk r s₁ =>
    cases r with
    | none => exact .noPage s₁ htake
    | some phys =>
      cases hok : o.mapOk i with
      | false => exact .noMapping phys s₁ htake hok
      | true => exact .mapped phys s₁ htake hok

lemma mapLoop_noPage (htake : s.takePage (o.cas i) = (none, s₁)) :
    mapLoop plan o (left + 1) i s = some (false, plan.noPage i s₁) := by
  rw [mapLoop, htake]

lemma mapLoop_noMapping (htake : s.takePage (o.cas i) = (some phys, s₁)) (hok : o.mapOk i = false) :
    mapLoop plan o (left + 1) i s = (plan.noMapping i phys s₁).map fun s => (false, s) := by
  simp [mapLoop, htake, hok]

lemma mapLoop_mapped (htake : s.takePage (o.cas i) = (some phys, s₁)) (hok : o.mapOk i = true) :
    mapLoop plan o (left + 1) i s
      = mapLoop plan o left (i + 1) (s₁.mapPage (plan.vaddr i) (plan.page phys)) := by
  simp [mapLoop, htake, hok]

lemma firstFailure_noPage (htake : s.takePage (o.cas i) = (none, s₁)) :
    firstFailure o (left + 1) i s.physical = some (.page i) := by
  have hr : (s.physical.takePage (o.cas i)).1 = none := congrArg Prod.fst htake
  rw [firstFailure, hr]

lemma firstFailure_noMapping (htake : s.takePage (o.cas i) = (some phys, s₁))
    (hok : o.mapOk i = false) : firstFailure o (left + 1) i s.physical = some (.mapping i) := by
  have hr : (s.physical.takePage (o.cas i)).1 = some phys := congrArg Prod.fst htake
  simp [firstFailure, hr, hok]

lemma firstFailure_mapped (htake : s.takePage (o.cas i) = (some phys, s₁))
    (hok : o.mapOk i = true) :
    firstFailure o (left + 1) i s.physical = firstFailure o left (i + 1) s₁.physical := by
  have hr : (s.physical.takePage (o.cas i)).1 = some phys := congrArg Prod.fst htake
  have hs : (s.physical.takePage (o.cas i)).2 = s₁.physical :=
    congrArg (fun t => t.2.physical) htake
  simp [firstFailure, hr, hs, hok]

/-- How the loop ends is decided by the first failure. -/
lemma mapLoop_end (plan : LoopPlan) (o : Outcomes) (left : ℕ) : ∀ (i : ℕ) (s : Machine),
    match firstFailure o left i s.physical with
    | none => ∃ s', mapLoop plan o left i s = some (true, s')
    | some (.page k) => ∃ s₁, mapLoop plan o left i s = some (false, plan.noPage k s₁)
    | some (.mapping k) => ∃ phys s₁,
        mapLoop plan o left i s = (plan.noMapping k phys s₁).map fun s => (false, s) := by
  induction left with
  | zero => exact fun i s => ⟨s, rfl⟩
  | succ left ih =>
    intro i s
    cases round o i s with
    | noPage s₁ htake =>
      rw [firstFailure_noPage htake]
      exact ⟨s₁, mapLoop_noPage htake⟩
    | noMapping phys s₁ htake hok =>
      rw [firstFailure_noMapping htake hok]
      exact ⟨phys, s₁, mapLoop_noMapping htake hok⟩
    | mapped phys s₁ htake hok =>
      rw [firstFailure_mapped htake hok, mapLoop_mapped htake hok]
      exact ih (i + 1) (s₁.mapPage (plan.vaddr i) (plan.page phys))

/-- The loop comes back if its clean-ups do. -/
lemma mapLoop_returns (plan : LoopPlan) (hplan : ∀ k phys s, (plan.noMapping k phys s).isSome)
    (o : Outcomes) (left i : ℕ) (s : Machine) : (mapLoop plan o left i s).isSome := by
  have hend := mapLoop_end plan o left i s
  cases hfail : firstFailure o left i s.physical with
  | none =>
    rw [hfail] at hend
    obtain ⟨s', h⟩ := hend
    simp [h]
  | some failure =>
    rw [hfail] at hend
    cases failure with
    | page k =>
      obtain ⟨s₁, h⟩ := hend
      simp [h]
    | mapping k =>
      obtain ⟨phys, s₁, h⟩ := hend
      simp [h, hplan]

/-- Failures are counted from the round the loop begins with. -/
lemma le_of_firstFailure {failure : Failure} : ∀ {i : ℕ} {s : Machine},
    firstFailure o left i s.physical = some failure → i ≤ failure.round := by
  induction left with
  | zero => intro i s h; simp [firstFailure] at h
  | succ left ih =>
    intro i s h
    cases round o i s with
    | noPage s₁ htake =>
      rw [firstFailure_noPage htake, Option.some.injEq] at h
      rw [← h, Failure.round]
    | noMapping phys s₁ htake hok =>
      rw [firstFailure_noMapping htake hok, Option.some.injEq] at h
      rw [← h, Failure.round]
    | mapped phys s₁ htake hok =>
      rw [firstFailure_mapped htake hok] at h
      exact (Nat.le_succ i).trans (ih h)

/-- A loop that reaches its end has passed each round with a page and a mapping. -/
lemma mapLoop_eq_true {s' : Machine} (h : mapLoop plan o (left + 1) i s = some (true, s')) :
    ∃ phys s₁, s.takePage (o.cas i) = (some phys, s₁) ∧
      mapLoop plan o left (i + 1) (s₁.mapPage (plan.vaddr i) (plan.page phys))
        = some (true, s') := by
  cases round o i s with
  | noPage s₁ htake => simp [mapLoop_noPage htake] at h
  | noMapping phys s₁ htake hok => simp [mapLoop_noMapping htake hok] at h
  | mapped phys s₁ htake hok => exact ⟨phys, s₁, htake, mapLoop_mapped htake hok ▸ h⟩

/-- A loop that reaches its end has mapped the pages of all its addresses, and has changed no other
mapping. -/
lemma mapLoop_success : ∀ {i : ℕ} {s s' : Machine}, mapLoop plan o left i s = some (true, s') →
    s'.process = s.process ∧
    ∀ q, (q ∈ (List.range' i left).map (plan.vaddr · / PAGE_SIZE) → (s'.mappings q).isSome) ∧
      (q ∉ (List.range' i left).map (plan.vaddr · / PAGE_SIZE) → s'.mappings q = s.mappings q) := by
  induction left with
  | zero =>
    intro i s s' h
    rw [mapLoop, Option.some.injEq, Prod.mk.injEq] at h
    rw [← h.2]
    simp
  | succ left ih =>
    intro i s s' h
    obtain ⟨phys, s₁, htake, h⟩ := mapLoop_eq_true h
    obtain ⟨-, -, hmappings, hprocess⟩ := Machine.takePage_some htake
    obtain ⟨hproc, hmap⟩ := ih h
    refine ⟨hproc.trans hprocess, fun q => ?_⟩
    simp only [List.range'_succ, List.map_cons, List.mem_cons]
    have hstep := Machine.mapPage_mappings s₁ (plan.vaddr i) (plan.page phys) q
    rw [hmappings] at hstep
    by_cases hin : q ∈ (List.range' (i + 1) left).map (plan.vaddr · / PAGE_SIZE)
    · exact ⟨fun _ => (hmap q).1 hin, fun hnot => absurd (Or.inr hin) hnot⟩
    · rw [(hmap q).2 hin, hstep]
      by_cases hq : q = plan.vaddr i / PAGE_SIZE <;> simp [hq, hin]

/-- Such a loop gives no page back. -/
lemma mapLoop_keeps_pages : ∀ {i : ℕ} {s s' : Machine},
    mapLoop plan o left i s = some (true, s') → s.pages ⊆ s'.pages := by
  induction left with
  | zero =>
    intro i s s' h
    rw [mapLoop, Option.some.injEq, Prod.mk.injEq] at h
    rw [h.2]
  | succ left ih =>
    intro i s s' h
    obtain ⟨phys, s₁, htake, h⟩ := mapLoop_eq_true h
    obtain ⟨-, hpages, -, -⟩ := Machine.takePage_some htake
    have hrest := ih h
    rw [Machine.mapPage_pages, hpages] at hrest
    exact (Set.subset_insert phys s.pages).trans hrest

/-- **A page of its own for each round.**  When the addresses lie in different pages, such a loop
has mapped each of them to a physical page that nobody had before. -/
lemma mapLoop_own_pages : ∀ {i : ℕ} {s s' : Machine},
    mapLoop plan o left i s = some (true, s') →
    (∀ j k, i ≤ j → j < k → k < i + left →
      plan.vaddr j / PAGE_SIZE ≠ plan.vaddr k / PAGE_SIZE) →
    ∃ phys : ℕ → ℕ,
      (∀ k, i ≤ k → k < i + left →
        s'.mappings (plan.vaddr k / PAGE_SIZE) = some (plan.page (phys k)) ∧
          phys k ∉ s.pages ∧ phys k ∈ s'.pages) ∧
      ∀ j k, i ≤ j → j < k → k < i + left → phys j ≠ phys k := by
  induction left with
  | zero =>
    intro i s s' _ _
    exact ⟨id, fun k hik hk => by omega, fun j k hij hjk hk => by omega⟩
  | succ left ih =>
    intro i s s' h hpages
    obtain ⟨phys, s₁, htake, h⟩ := mapLoop_eq_true h
    obtain ⟨hfresh, hinsert, -, -⟩ := Machine.takePage_some htake
    obtain ⟨rest, hrest, hrestne⟩ := ih h fun j k hij hjk hk =>
      hpages j k (by omega) hjk (by omega)
    have hkept := mapLoop_keeps_pages h
    rw [Machine.mapPage_pages, hinsert] at hkept
    -- what later rounds take is not what this one has taken
    have hlater : ∀ k, i < k → k < i + (left + 1) → rest k ≠ phys ∧ rest k ∉ s.pages := by
      intro k hik hk
      have hnot := (hrest k hik (by omega)).2.1
      rw [Machine.mapPage_pages, hinsert, Set.mem_insert_iff, not_or] at hnot
      exact hnot
    refine ⟨Function.update rest i phys, fun k hik hk => ?_, fun j k hij hjk hk => ?_⟩
    · rcases Nat.eq_or_lt_of_le hik with rfl | hik
      · rw [Function.update_self]
        refine ⟨?_, hfresh, hkept (Set.mem_insert phys s.pages)⟩
        have hother : plan.vaddr i / PAGE_SIZE ∉
            (List.range' (i + 1) left).map (plan.vaddr · / PAGE_SIZE) := by
          simp only [List.mem_map, List.mem_range'_1, not_exists, not_and]
          intro k hk hpage
          exact hpages i k le_rfl (by omega) (by omega) hpage.symm
        rw [((mapLoop_success h).2 _).2 hother, Machine.mapPage_mappings, if_pos rfl]
      · rw [Function.update_of_ne (by omega)]
        obtain ⟨hmap, -, hin⟩ := hrest k hik (by omega)
        exact ⟨hmap, (hlater k hik hk).2, hin⟩
    · rw [Function.update_of_ne (show k ≠ i by omega)]
      rcases Nat.eq_or_lt_of_le hij with rfl | hij
      · rw [Function.update_self]
        exact (hlater k hjk hk).1.symm
      · rw [Function.update_of_ne (by omega)]
        exact hrestne j k hij hjk (by omega)

/-- With at least one round, it has taken one. -/
lemma mapLoop_takes_page {s' : Machine} (h : mapLoop plan o (left + 1) i s = some (true, s')) :
    s'.pages ≠ s.pages := by
  obtain ⟨phys, s₁, htake, h⟩ := mapLoop_eq_true h
  obtain ⟨hfresh, hpages, -, -⟩ := Machine.takePage_some htake
  have hrest := mapLoop_keeps_pages h
  rw [Machine.mapPage_pages, hpages] at hrest
  intro heq
  exact hfresh (heq ▸ hrest (Set.mem_insert phys s.pages))

/-- A clean-up that leaves one of two pages taken since the set of allocated pages was `S`. -/
structure LeavesPage (plan : LoopPlan) (S : Set ℕ) (n : ℕ) : Prop where
  noPage : ∀ k s, (plan.noPage k s).pages = s.pages
  noMapping : ∀ k phys q s s', k < n → phys ∈ s.pages → phys ∉ S → q ∈ s.pages → q ∉ S → q ≠ phys →
    plan.noMapping k phys s = some s' → s'.pages ≠ S

/-- **A loop that fails after it has taken a page leaks.**  `S` is the set of allocated pages at the
beginning of the system call; `q` is a page taken since.  The clean-ups may free pages, but never
all of those taken. -/
lemma mapLoop_leak {S : Set ℕ} {n : ℕ} (hplan : LeavesPage plan S n) :
    ∀ {i q : ℕ} {s s' : Machine}, i + left ≤ n → S ⊆ s.pages → q ∈ s.pages → q ∉ S →
      mapLoop plan o left i s = some (false, s') → s'.pages ≠ S := by
  induction left with
  | zero => intro i q s s' _ _ _ _ h; simp [mapLoop] at h
  | succ left ih =>
    intro i q s s' hn hS hq hqS h
    cases round o i s with
    | noPage s₁ htake =>
      obtain ⟨hpages, -, -⟩ := Machine.takePage_none htake
      rw [mapLoop_noPage htake, Option.some.injEq, Prod.mk.injEq] at h
      rw [← h.2, hplan.noPage, hpages]
      intro heq
      exact hqS (heq ▸ hq)
    | noMapping phys s₁ htake hok =>
      obtain ⟨hfresh, hpages, -, -⟩ := Machine.takePage_some htake
      rw [mapLoop_noMapping htake hok, Option.map_eq_some_iff] at h
      obtain ⟨s₂, h₂, hs₂⟩ := h
      rw [← (Prod.mk.inj hs₂).2]
      have hphys : phys ∈ s₁.pages := by rw [hpages]; exact Set.mem_insert phys s.pages
      have hq₁ : q ∈ s₁.pages := by rw [hpages]; exact Set.mem_insert_of_mem phys hq
      exact hplan.noMapping i phys q s₁ s₂ (by omega) hphys (fun hin => hfresh (hS hin)) hq₁
        hqS (fun heq => hfresh (heq ▸ hq)) h₂
    | mapped phys s₁ htake hok =>
      obtain ⟨-, hpages, -, -⟩ := Machine.takePage_some htake
      rw [mapLoop_mapped htake hok] at h
      have hsub : s.pages ⊆ s₁.pages := by
        rw [hpages]
        exact Set.subset_insert phys s.pages
      exact ih (s := s₁.mapPage (plan.vaddr i) (plan.page phys))
        (show i + 1 + left ≤ n by omega) (hS.trans hsub) (hsub hq) hqS h

/-- In particular a loop leaks that passes its first round and fails later. -/
lemma mapLoop_leak_of_mapped {s' : Machine} (hplan : LeavesPage plan s.pages (left + 1))
    (htake : s.takePage (o.cas 0) = (some phys, s₁)) (hok : o.mapOk 0 = true)
    (h : mapLoop plan o (left + 1) 0 s = some (false, s')) : s'.pages ≠ s.pages := by
  obtain ⟨hfresh, hpages, -, -⟩ := Machine.takePage_some htake
  rw [mapLoop_mapped htake hok] at h
  refine mapLoop_leak (s := s₁.mapPage (plan.vaddr 0) (plan.page phys)) (q := phys) hplan
    (by omega) ?_ ?_ hfresh h
  · rw [Machine.mapPage_pages, hpages]
    exact Set.subset_insert phys s.pages
  · rw [Machine.mapPage_pages, hpages]
    exact Set.mem_insert phys s.pages

end MapLoop

end Masika
