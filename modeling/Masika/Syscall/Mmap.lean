import Masika.Syscall.Machine

/-!
# `sys_mmap`

The call acquires three things one after the other: a range of virtual addresses, and for each of
its pages a physical page and a mapping.  Only part of this is undone on failure.

* The range comes from the allocator of the process, unless the caller names an address.  That
  allocator only ever moves forward, and no exit moves it back.
* When `allocate_page` fails, the pages mapped so far are unmapped; the physical pages behind them
  stay allocated.
* When `map_user_page` fails, the page that could not be mapped is freed, but not the earlier ones.

So a failing call leaves no trace if and only if it fails before it has acquired a range of
addresses, or in the first round with an address that was given by the caller
(`sysMmap_clean_iff`).
-/

namespace Masika

open Machine

/-! ## The arguments -/

/-- The page may be read. -/
def PROT_READ : U64 := 1#64

/-- The page may be written. -/
def PROT_WRITE : U64 := 2#64

/-- The page may be executed. -/
def PROT_EXEC : U64 := 4#64

/-- Shared with others. -/
def MAP_SHARED : U64 := 1#64

/-- Private. -/
def MAP_PRIVATE : U64 := 2#64

/-- Without a file. -/
def MAP_ANONYMOUS : U64 := 0x20#64

/-- At the given address. -/
def MAP_FIXED : U64 := 0x10#64

/-- The first address of user space. -/
def USER_SPACE_START : ℕ := 0x40000000

/-- The end of user space. -/
def USER_SPACE_END : ℕ := 0x7FFFFFFFFF000

/-- The arguments of `mmap`. -/
structure MmapArgs where
  addr : U64
  length : U64
  prot : U64
  flags : U64
  fd : U32
  offset : U64

/-- The range is in user space. -/
def validateUserPointer (ptr len : U64) : Bool :=
  let addr := ptr.toNat
  if ptr = 0#64 then false
  else if addr < USER_SPACE_START ∨ addr ≥ USER_SPACE_END then false
  else if len.toNat > 0 ∧ addr + len.toNat ≥ 2 ^ 64 then false
  else if len.toNat > 0 ∧ addr + len.toNat > USER_SPACE_END then false
  else true

namespace MmapArgs

/-- The checks before anything is acquired. -/
def Accepted (a : MmapArgs) : Prop :=
  a.length ≠ 0#64 ∧ a.length.toNat ≤ 0x1000000000 ∧
    a.prot &&& ~~~(PROT_READ ||| PROT_WRITE ||| PROT_EXEC) = 0#64 ∧
    a.flags &&& ~~~(MAP_SHARED ||| MAP_PRIVATE ||| MAP_ANONYMOUS ||| MAP_FIXED) = 0#64

instance (a : MmapArgs) : Decidable a.Accepted := instDecidableAnd

/-- The number of pages, at least one. -/
def pagesNeeded (a : MmapArgs) : ℕ := max (wrap (a.length.toNat + PAGE_SIZE - 1) / PAGE_SIZE) 1

/-- The caller names the address. -/
def AtAddress (a : MmapArgs) : Prop := a.flags &&& MAP_FIXED ≠ 0#64 ∧ a.addr ≠ 0#64

instance (a : MmapArgs) : Decidable a.AtAddress := instDecidableAnd

end MmapArgs

/-! ## The code -/

/-- `process.get_page_allocator().allocate_pages(count)`.  The lock is free, so that the call comes
back (`allocatePages_idle`). -/
def Machine.claimPages (s : Machine) (process : Process) (count : ℕ) : Option U64 × Machine :=
  ((process.allocator.claimPages count).1,
    { s with
      process := some
        { process with
          allocator := (process.allocator.claimPages count).2
          idle := process.allocator.claimPages_lock count } })

lemma allocatePages_idle (process : Process) {count : ℕ} (h : count ≠ 0) :
    process.allocator.allocatePages count = some (process.allocator.claimPages count) := by
  simp [PageAllocator.allocatePages, h, process.idle]

/-- The address of the mapping; `none` stands for the exits that return -1. -/
def mmapAddress (s : Machine) (a : MmapArgs) : Option U64 × Machine :=
  if a.AtAddress then
    if validateUserPointer a.addr a.length then (some a.addr, s) else (none, s)
  else
    match s.process with
    | none => (none, s)
    | some process => s.claimPages process a.pagesNeeded

/-- The loop over the pages.  The two branches for `MAP_ANONYMOUS` take a page and clean up in the
same way. -/
def mmapPlan (virtAddr : ℕ) (prot : U64) : LoopPlan where
  vaddr i := wrap (virtAddr + i * PAGE_SIZE)
  page phys :=
    { phys
      readable := decide (prot &&& PROT_READ ≠ 0#64)
      writable := decide (prot &&& PROT_WRITE ≠ 0#64)
      executable := decide (prot &&& PROT_EXEC ≠ 0#64) }
  noPage i s := s.unmapPages ((List.range i).map fun j => wrap (virtAddr + j * PAGE_SIZE))
  noMapping i phys s :=
    some ((s.unmapPages ((List.range i).map fun j =>
      wrap (virtAddr + j * PAGE_SIZE))).freePage phys)

/-- `mmap`, with the outcomes of the allocations. -/
def sysMmap (s : Machine) (a : MmapArgs) (o : Outcomes) : Option (U64 × Machine) :=
  if ¬ a.Accepted then some (MINUS_ONE, s)
  else
    match mmapAddress s a with
    | (none, s) => some (MINUS_ONE, s)
    | (some virtAddr, s) =>
      (mapLoop (mmapPlan virtAddr.toNat a.prot) o a.pagesNeeded 0 s).map
        fun (complete, s) => (if complete then virtAddr else MINUS_ONE, s)

/-- Every call returns. -/
theorem sysMmap_returns (s : Machine) (a : MmapArgs) (o : Outcomes) : (sysMmap s a o).isSome := by
  have hloop := fun virtAddr t => mapLoop_returns (mmapPlan virtAddr a.prot)
    (fun k phys s => rfl) o a.pagesNeeded 0 t
  rw [sysMmap]
  split_ifs
  · cases mmapAddress s a with
    | mk address t =>
      cases address with
      | none => rfl
      | some virtAddr => simp [hloop]
  · rfl

/-! ## Failing calls -/

/-- The allocated pages, the mappings and the virtual pages handed out are the same. -/
structure MmapUnchanged (s s' : Machine) : Prop where
  pages : s'.pages = s.pages
  mappings : s'.mappings = s.mappings
  current : s'.process.map (·.allocator.current) = s.process.map (·.allocator.current)

/-- A call that returns -1 changes nothing. -/
def MmapFailsCleanly (s : Machine) (a : MmapArgs) (o : Outcomes) : Prop :=
  ∀ s', sysMmap s a o = some (MINUS_ONE, s') → MmapUnchanged s s'

/-- The request is refused; or it names an address, and the first failure is in the first round; or
the process has the addresses and nothing fails.  In the last case the allocator must not stand at
the address that is the number for failure.  If it does, it cannot move, so that a failure in the
first round is clean, and success is not. -/
def MmapNeedsNoCleanUp (s : Machine) (a : MmapArgs) (o : Outcomes) : Prop :=
  a.Accepted →
    if a.AtAddress then
      validateUserPointer a.addr a.length →
        ∀ failure, firstFailure o a.pagesNeeded 0 s.physical = some failure → failure.round = 0
    else
      ∀ process, s.process = some process →
        PageAllocator.saturatingAdd process.allocator.current.toNat
          (wrap (a.pagesNeeded * PAGE_SIZE)) ≤ process.allocator.endAddr.toNat →
        match firstFailure o a.pagesNeeded 0 s.physical with
        | none => process.allocator.current ≠ MINUS_ONE
        | some failure => failure.round = 0 ∧ process.allocator.current = MINUS_ONE

lemma MmapUnchanged.refl (s : Machine) : MmapUnchanged s s := ⟨rfl, rfl, rfl⟩

lemma mmapPlan_leavesPage (virtAddr : ℕ) (prot : U64) (S : Set ℕ) (n : ℕ) :
    LeavesPage (mmapPlan virtAddr prot) S n where
  noPage _ s := (unmapPages_spec s _).1
  noMapping k phys q s s' _ _ _ hq hqS hne h := by
    rw [mmapPlan, Option.some.injEq] at h
    rw [← h, freePage_pages, (unmapPages_spec s _).1]
    intro heq
    exact hqS (heq ▸ ⟨hq, hne⟩)

section Loop

variable {virtAddr n : ℕ} {prot : U64} {o : Outcomes} {failure : Failure}

/-- The clean-ups come back, so that the loop answers whenever something fails. -/
lemma mmapLoop_fails (virtAddr : ℕ) (prot : U64) {s : Machine}
    (hfail : firstFailure o n 0 s.physical = some failure) :
    ∃ s', mapLoop (mmapPlan virtAddr prot) o n 0 s = some (false, s') := by
  have hend := mapLoop_end (mmapPlan virtAddr prot) o n 0 s
  rw [hfail] at hend
  cases failure with
  | page k =>
    obtain ⟨s₁, h₁⟩ := hend
    exact ⟨_, h₁⟩
  | mapping k =>
    obtain ⟨phys, s₁, h₁⟩ := hend
    exact ⟨_, h₁⟩

/-- A failure in the first round leaves no trace: either no page was taken, or it is freed. -/
lemma mmapLoop_first_round {s s' : Machine}
    (hfail : firstFailure o (n + 1) 0 s.physical = some failure) (hround : failure.round = 0)
    (h : mapLoop (mmapPlan virtAddr prot) o (n + 1) 0 s = some (false, s')) :
    s'.pages = s.pages ∧ s'.mappings = s.mappings ∧ s'.process = s.process := by
  cases round o 0 s with
  | noPage s₁ htake =>
    rw [mapLoop_noPage htake, Option.some.injEq, Prod.mk.injEq] at h
    rw [← h.2]
    exact takePage_none htake
  | noMapping phys s₁ htake hok =>
    obtain ⟨hfresh, hpages, hmappings, hprocess⟩ := takePage_some htake
    rw [mapLoop_noMapping htake hok] at h
    have hs' : s₁.freePage phys = s' := (Prod.mk.inj (Option.some.inj h)).2
    rw [← hs', freePage_pages, hpages, Set.insert_sdiff_self_of_notMem hfresh]
    exact ⟨rfl, hmappings, hprocess⟩
  | mapped phys s₁ htake hok =>
    rw [firstFailure_mapped htake hok] at hfail
    have hlate := le_of_firstFailure hfail
    omega

/-- A failure in a later round leaks a page. -/
lemma mmapLoop_later_round {s s' : Machine}
    (hfail : firstFailure o (n + 1) 0 s.physical = some failure) (hround : failure.round ≠ 0)
    (h : mapLoop (mmapPlan virtAddr prot) o (n + 1) 0 s = some (false, s')) :
    s'.pages ≠ s.pages := by
  cases round o 0 s with
  | noPage s₁ htake =>
    rw [firstFailure_noPage htake, Option.some.injEq] at hfail
    exact absurd (hfail ▸ rfl) hround
  | noMapping phys s₁ htake hok =>
    rw [firstFailure_noMapping htake hok, Option.some.injEq] at hfail
    exact absurd (hfail ▸ rfl) hround
  | mapped phys s₁ htake hok =>
    exact mapLoop_leak_of_mapped (mmapPlan_leavesPage virtAddr prot _ _) htake hok h

end Loop

/-- The answer of the call when its loop has ended. -/
def mmapAnswer (virtAddr : U64) : Bool × Machine → U64 × Machine
  | (complete, s) => (if complete then virtAddr else MINUS_ONE, s)

/-- **The loop.**  `s` is the machine before the call and `t` the one that has a range of addresses.
Nothing is left behind if and only if nothing fails, or the first round fails and the range does not
count. -/
lemma mmapAnswer_clean_iff {s t : Machine} (hphysical : t.physical = s.physical)
    (hmappings : t.mappings = s.mappings) (virtAddr prot : U64) (o : Outcomes) {n : ℕ}
    (hn : n ≠ 0) :
    (∀ s', (mapLoop (mmapPlan virtAddr.toNat prot) o n 0 t).map (mmapAnswer virtAddr)
        = some (MINUS_ONE, s') → MmapUnchanged s s') ↔
      match firstFailure o n 0 s.physical with
      | none => virtAddr ≠ MINUS_ONE
      | some failure => failure.round = 0 ∧
          t.process.map (·.allocator.current) = s.process.map (·.allocator.current) := by
  obtain ⟨n, rfl⟩ := Nat.exists_eq_succ_of_ne_zero hn
  have hpages : t.pages = s.pages := congrArg PhysicalPageAllocator.allocated hphysical
  rw [← hphysical]
  cases hfail : firstFailure o (n + 1) 0 t.physical with
  | none =>
    have hend := mapLoop_end (mmapPlan virtAddr.toNat prot) o (n + 1) 0 t
    rw [hfail] at hend
    obtain ⟨s₁, h₁⟩ := hend
    rw [h₁, Option.map_some]
    constructor
    · intro hall heq
      have hsame := (hall s₁ (by rw [mmapAnswer, if_pos rfl, heq])).pages
      exact mapLoop_takes_page h₁ (hsame.trans hpages.symm)
    · exact fun hne s' h => absurd (Prod.mk.inj (Option.some.inj h)).1 hne
  | some failure =>
    obtain ⟨s₁, h₁⟩ := mmapLoop_fails virtAddr.toNat prot hfail
    rw [h₁, Option.map_some]
    by_cases hround : failure.round = 0
    · obtain ⟨hp, hm, hproc⟩ := mmapLoop_first_round hfail hround h₁
      constructor
      · intro hall
        have hcurrent := (hall s₁ rfl).current
        rw [hproc] at hcurrent
        exact ⟨hround, hcurrent⟩
      · rintro ⟨-, hcurrent⟩ s' h
        rw [← (Prod.mk.inj (Option.some.inj h)).2]
        refine ⟨hp.trans hpages, hm.trans hmappings, ?_⟩
        rw [hproc]
        exact hcurrent
    · refine ⟨fun hall => ?_, fun h => absurd h.1 hround⟩
      exact absurd ((hall s₁ rfl).pages.trans hpages.symm) (mmapLoop_later_round hfail hround h₁)

/-! ## The range of addresses -/

lemma pagesNeeded_ne_zero (a : MmapArgs) : a.pagesNeeded ≠ 0 := by
  have := le_max_right (wrap (a.length.toNat + PAGE_SIZE - 1) / PAGE_SIZE) 1
  rw [MmapArgs.pagesNeeded]
  omega

/-- A request that is accepted asks for less than 2 ^ 64 bytes, and for some. -/
lemma requestSize_pos {a : MmapArgs} (h : a.Accepted) : 0 < wrap (a.pagesNeeded * PAGE_SIZE) := by
  obtain ⟨-, hlength, -⟩ := h
  have hround : wrap (a.length.toNat + PAGE_SIZE - 1) = a.length.toNat + PAGE_SIZE - 1 := by
    rw [PAGE_SIZE, wrap_of_lt (by omega)]
  rw [MmapArgs.pagesNeeded, hround, PAGE_SIZE, wrap_of_lt (by omega)]
  omega

/-- An address that passes the check is not the number for failure. -/
lemma ne_minusOne_of_validateUserPointer {ptr len : U64} (h : validateUserPointer ptr len) :
    ptr ≠ MINUS_ONE := by
  rintro rfl
  have hmax : (MINUS_ONE).toNat = 2 ^ 64 - 1 := rfl
  rw [validateUserPointer, hmax, USER_SPACE_START, USER_SPACE_END] at h
  simp at h

/-- The allocator stays where it is only at the very end of the address space. -/
lemma saturatingAdd_eq_self_iff {current : U64} {size : ℕ} (h : 0 < size) :
    BitVec.ofNat 64 (PageAllocator.saturatingAdd current.toNat size) = current ↔
      current = MINUS_ONE := by
  have hlt := current.isLt
  have hmax : (MINUS_ONE).toNat = 2 ^ 64 - 1 := rfl
  rw [← BitVec.toNat_inj, ← BitVec.toNat_inj, hmax, BitVec.toNat_ofNat,
    PageAllocator.saturatingAdd]
  omega

section Claim

variable {s : Machine} {process : Process} {count : ℕ}

lemma claimPages_refused (hproc : s.process = some process)
    (h : process.allocator.endAddr.toNat < PageAllocator.saturatingAdd
      process.allocator.current.toNat (wrap (count * PAGE_SIZE))) :
    s.claimPages process count = (none, s) := by
  have hclaim : process.allocator.claimPages count = (none, process.allocator) := by
    rw [PageAllocator.claimPages, if_pos h, ← process.idle]
  obtain ⟨physical, idle, mappings, _⟩ := s
  subst hproc
  simp only [Machine.claimPages, hclaim]

lemma claimPages_granted (h : PageAllocator.saturatingAdd process.allocator.current.toNat
      (wrap (count * PAGE_SIZE)) ≤ process.allocator.endAddr.toNat) :
    ∃ t, s.claimPages process count = (some process.allocator.current, t) ∧
      t.physical = s.physical ∧ t.mappings = s.mappings ∧
      t.process.map (·.allocator.current) = some (BitVec.ofNat 64 (PageAllocator.saturatingAdd
        process.allocator.current.toNat (wrap (count * PAGE_SIZE)))) := by
  have hclaim : process.allocator.claimPages count = (some process.allocator.current, _) :=
    if_neg (not_lt.mpr h)
  refine ⟨(s.claimPages process count).2, ?_, rfl, rfl, ?_⟩
  · simp only [Machine.claimPages, hclaim]
  · simp only [Machine.claimPages, hclaim, Option.map_some]

end Claim

/-- **When a failing `sys_mmap` changes nothing.** -/
theorem sysMmap_clean_iff (s : Machine) (a : MmapArgs) (o : Outcomes) :
    MmapFailsCleanly s a o ↔ MmapNeedsNoCleanUp s a o := by
  have hrefused : ∀ s', some (MINUS_ONE, s) = some (MINUS_ONE, s') → MmapUnchanged s s' := by
    intro s' h
    rw [← (Prod.mk.inj (Option.some.inj h)).2]
    exact MmapUnchanged.refl s
  rw [MmapFailsCleanly, MmapNeedsNoCleanUp, sysMmap]
  by_cases hok : a.Accepted
  swap
  · rw [if_pos hok]
    exact iff_of_true hrefused fun h => absurd h hok
  rw [if_neg (not_not_intro hok), mmapAddress]
  simp only [hok, forall_const]
  by_cases hat : a.AtAddress
  · rw [if_pos hat, if_pos hat]
    cases hvalid : validateUserPointer a.addr a.length with
    | false => exact iff_of_true hrefused (by simp)
    | true =>
      have hclean := mmapAnswer_clean_iff (s := s) (t := s) rfl rfl a.addr a.prot o
        (pagesNeeded_ne_zero a)
      refine hclean.trans ?_
      cases firstFailure o a.pagesNeeded 0 s.physical with
      | none => simp [ne_minusOne_of_validateUserPointer hvalid]
      | some failure => simp
  · rw [if_neg hat, if_neg hat]
    cases hproc : s.process with
    | none => exact iff_of_true hrefused (by simp)
    | some process =>
      simp only [Option.some.injEq, forall_eq']
      by_cases hfits : PageAllocator.saturatingAdd process.allocator.current.toNat
          (wrap (a.pagesNeeded * PAGE_SIZE)) ≤ process.allocator.endAddr.toNat
      · obtain ⟨t, hclaim, hphysical, hmappings, hcurrent⟩ := claimPages_granted (s := s) hfits
        have hclean := mmapAnswer_clean_iff hphysical hmappings process.allocator.current a.prot o
          (pagesNeeded_ne_zero a)
        rw [hcurrent, hproc, Option.map_some, Option.some.injEq,
          saturatingAdd_eq_self_iff (requestSize_pos hok)] at hclean
        rw [hclaim]
        exact hclean.trans ⟨fun h _ => h, fun h => h hfits⟩
      · rw [claimPages_refused hproc (not_le.mp hfits)]
        exact iff_of_true hrefused fun h => absurd h hfits

/-- **A page is lost.**  There is one physical page and the mapping needs two: the first page is
taken and mapped, the second cannot be had, and the clean-up only unmaps the first. -/
theorem failing_mmap_loses_a_page :
    ¬ ∀ (s : Machine) (a : MmapArgs) (o : Outcomes), MmapFailsCleanly s a o := by
  intro hall
  have hcomp : (sysMmap (freshMachine 1) ⟨0#64, 0x2000#64, 3#64, 0x22#64, 0#32, 0#64⟩ .good).map
      (fun r => (r.1, getBit r.2.physical.bitmap 0, r.2.physical.totalPages))
      = some (MINUS_ONE, true, 1) := by decide +kernel
  obtain ⟨⟨r, s'⟩, hcall, hview⟩ := Option.map_eq_some_iff.mp hcomp
  simp only [Prod.mk.injEq] at hview
  obtain ⟨rfl, hbit, htotal⟩ := hview
  have hpages := (hall (freshMachine 1) _ .good s' hcall).pages
  exact pages_ne_freshMachine (by omega) hbit hpages

end Masika
