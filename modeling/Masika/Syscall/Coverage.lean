import Masika.Core.Strides
import Masika.Syscall.Mmap

/-!
# What a successful `sys_mmap` has mapped

The number of pages is computed from the length alone, while the mapping begins wherever the caller
or the allocator of the process says.  Only for the caller's address there is a check, and it looks
at the bytes, not at the pages.

* Whatever happens, each page that is mapped has its own physical page, which was free before, and
  the protection that was asked for (`mapLoop_own_pages`).
* The pages contain all bytes if and only if the part of the first page before the address finds
  room in the last one (`strides_cover_iff`).
* An address that passes the check has all its pages in user space.  That of the allocator need not.

`sysMmap_serves_iff` puts this together.
-/

namespace Masika

open Machine

namespace MmapArgs

variable (a : MmapArgs)

/-- The page that round `i` maps. -/
def pageOf (r : U64) (i : ℕ) : ℕ := (mmapPlan r.toNat a.prot).vaddr i / PAGE_SIZE

/-- A page with the protection that the arguments ask for. -/
def userPage (phys : ℕ) : UserPage :=
  ⟨phys, decide (a.prot &&& PROT_READ ≠ 0#64), decide (a.prot &&& PROT_WRITE ≠ 0#64),
    decide (a.prot &&& PROT_EXEC ≠ 0#64)⟩

end MmapArgs

/-- The call has mapped what was asked for: `[r, r + length)`. -/
structure MmapServes (s s' : Machine) (a : MmapArgs) (r : U64) : Prop where
  covered : ∀ b, r.toNat ≤ b → b < r.toNat + a.length.toNat →
    ∃ i < a.pagesNeeded, a.pageOf r i = b / PAGE_SIZE
  own : ∃ phys : ℕ → ℕ,
    (∀ i < a.pagesNeeded, s'.mappings (a.pageOf r i) = some (a.userPage (phys i)) ∧
      phys i ∉ s.pages ∧ phys i ∈ s'.pages) ∧
    ∀ i j, i < j → j < a.pagesNeeded → phys i ≠ phys j
  inside : ∀ i < a.pagesNeeded, USER_SPACE_START ≤ a.pageOf r i * PAGE_SIZE ∧
    (a.pageOf r i + 1) * PAGE_SIZE ≤ USER_SPACE_END
  /-- these are all the pages that the call has mapped -/
  others : ∀ q, (∀ i < a.pagesNeeded, a.pageOf r i ≠ q) → s'.mappings q = s.mappings q

/-- The bytes before `r` in its page find room in the last page. -/
def MmapArgs.FitsPages (a : MmapArgs) (r : ℕ) : Prop :=
  r % PAGE_SIZE + a.length.toNat ≤ PAGE_SIZE * a.pagesNeeded

/-- The address, where it comes from the process, is followed by enough pages of user space. -/
def MmapArgs.FitsUserSpace (a : MmapArgs) (r : ℕ) : Prop :=
  USER_SPACE_START ≤ r ∧ r / PAGE_SIZE + a.pagesNeeded ≤ USER_SPACE_END / PAGE_SIZE

/-- The address of the mapping is a good one. -/
def MmapFits (s : Machine) (a : MmapArgs) : Prop :=
  if a.AtAddress then a.FitsPages a.addr.toNat
  else ∀ process, s.process = some process →
    a.FitsPages process.allocator.current.toNat ∧ a.FitsUserSpace process.allocator.current.toNat

/-! ## The pages of a request -/

section Pages

variable {a : MmapArgs}

lemma length_pos (h : a.Accepted) : 0 < a.length.toNat := by
  rw [Nat.pos_iff_ne_zero]
  intro hzero
  exact h.1 (BitVec.eq_of_toNat_eq hzero)

lemma pagesNeeded_le (h : a.Accepted) : a.pagesNeeded ≤ 2 ^ 24 := by
  obtain ⟨-, hlength, -⟩ := h
  rw [MmapArgs.pagesNeeded, PAGE_SIZE, wrap_of_lt (by omega)]
  omega

/-- Different rounds map different pages, even around the end of the address space. -/
lemma pageOf_ne (h : a.Accepted) (r : U64) {i j : ℕ} (hij : i < j) (hj : j < a.pagesNeeded) :
    a.pageOf r i ≠ a.pageOf r j := by
  have hle := pagesNeeded_le h
  simp only [MmapArgs.pageOf, mmapPlan, wrap, PAGE_SIZE]
  omega

/-- Below the end of the address space the pages are consecutive. -/
lemma pageOf_eq {r : U64} {i : ℕ} (h : r.toNat + i * PAGE_SIZE < 2 ^ 64) :
    a.pageOf r i = r.toNat / PAGE_SIZE + i := by
  simp only [MmapArgs.pageOf, mmapPlan, wrap_of_lt h]
  exact Nat.add_mul_div_right _ _ (by decide)

/-- The pages lie in user space if and only if the first and the last of them do. -/
lemma pages_inside_iff (h : a.Accepted) (r : U64) :
    (∀ i < a.pagesNeeded, USER_SPACE_START ≤ a.pageOf r i * PAGE_SIZE ∧
      (a.pageOf r i + 1) * PAGE_SIZE ≤ USER_SPACE_END) ↔ a.FitsUserSpace r.toNat := by
  have hle := pagesNeeded_le h
  have hpos := Nat.pos_of_ne_zero (pagesNeeded_ne_zero a)
  have hr := r.isLt
  rw [MmapArgs.FitsUserSpace]
  constructor
  · intro hall
    obtain ⟨hfirst, hend⟩ := hall 0 hpos
    rw [pageOf_eq (by omega)] at hfirst hend
    simp only [PAGE_SIZE, USER_SPACE_START, USER_SPACE_END] at hfirst hend
    have hlast := (hall (a.pagesNeeded - 1) (by omega)).2
    rw [pageOf_eq (by rw [PAGE_SIZE]; omega)] at hlast
    simp only [PAGE_SIZE, USER_SPACE_START, USER_SPACE_END] at hlast ⊢
    omega
  · rintro ⟨hstart, hend⟩ i hi
    simp only [PAGE_SIZE, USER_SPACE_START, USER_SPACE_END] at hstart hend
    rw [pageOf_eq (by rw [PAGE_SIZE]; omega)]
    simp only [PAGE_SIZE, USER_SPACE_START, USER_SPACE_END]
    omega

/-- Pages in user space contain the bytes of the range if and only if there are enough of them. -/
lemma pages_covered_iff (h : a.Accepted) {r : U64} (hspace : a.FitsUserSpace r.toNat) :
    (∀ b, r.toNat ≤ b → b < r.toNat + a.length.toNat →
      ∃ i < a.pagesNeeded, a.pageOf r i = b / PAGE_SIZE) ↔ a.FitsPages r.toNat := by
  have hpage : ∀ i < a.pagesNeeded, a.pageOf r i = r.toNat / PAGE_SIZE + i := by
    intro i hi
    obtain ⟨-, hend⟩ := hspace
    simp only [PAGE_SIZE, USER_SPACE_END] at hend
    exact pageOf_eq (by rw [PAGE_SIZE]; omega)
  rw [MmapArgs.FitsPages, ← strides_cover_iff (by decide) (length_pos h)]
  refine forall_congr' fun b => forall_congr' fun hb => forall_congr' fun _ => ?_
  have hmono : r.toNat / PAGE_SIZE ≤ b / PAGE_SIZE := Nat.div_le_div_right hb
  constructor
  · rintro ⟨i, hi, hib⟩
    rw [hpage i hi] at hib
    omega
  · intro hlt
    refine ⟨b / PAGE_SIZE - r.toNat / PAGE_SIZE, by omega, ?_⟩
    rw [hpage _ (by omega)]
    omega

/-- An address that passes the check is followed by enough pages of user space. -/
lemma fitsUserSpace_of_valid (h : a.Accepted)
    (hvalid : validateUserPointer a.addr a.length = true) : a.FitsUserSpace a.addr.toNat := by
  have hpos := length_pos h
  obtain ⟨-, hlength, -⟩ := h
  simp only [validateUserPointer] at hvalid
  split_ifs at hvalid with hnull hrange hwrap hend
  simp only [USER_SPACE_START, USER_SPACE_END] at hrange hend
  rw [MmapArgs.FitsUserSpace, MmapArgs.pagesNeeded, PAGE_SIZE, wrap_of_lt (by omega),
    USER_SPACE_START, USER_SPACE_END]
  omega

end Pages

/-! ## The call -/

/-- Where the address comes from. -/
lemma mmapAddress_some {s t : Machine} {a : MmapArgs} {r : U64}
    (h : mmapAddress s a = (some r, t)) :
    t.physical = s.physical ∧ t.mappings = s.mappings ∧
      ((a.AtAddress ∧ r = a.addr ∧ validateUserPointer a.addr a.length = true) ∨
        ¬ a.AtAddress ∧ ∃ process, s.process = some process ∧ r = process.allocator.current) := by
  rw [mmapAddress] at h
  split_ifs at h with hat hvalid
  · rw [Prod.mk.injEq, Option.some.injEq] at h
    obtain ⟨rfl, rfl⟩ := h
    exact ⟨rfl, rfl, .inl ⟨hat, rfl, hvalid⟩⟩
  · cases h
  · cases hproc : s.process with
    | none =>
      rw [hproc] at h
      cases h
    | some process =>
      rw [hproc] at h
      by_cases hfits : PageAllocator.saturatingAdd process.allocator.current.toNat
          (wrap (a.pagesNeeded * PAGE_SIZE)) ≤ process.allocator.endAddr.toNat
      · obtain ⟨t', hclaim, hphysical, hmappings, -⟩ := claimPages_granted (s := s) hfits
        simp only [hclaim, Prod.mk.injEq, Option.some.injEq] at h
        obtain ⟨rfl, rfl⟩ := h
        exact ⟨hphysical, hmappings, .inr ⟨hat, process, rfl, rfl⟩⟩
      · simp only [claimPages_refused hproc (not_le.mp hfits)] at h
        cases h

/-- A call that succeeds has an address and completes its loop. -/
lemma sysMmap_success {s s' : Machine} {a : MmapArgs} {o : Outcomes} {r : U64}
    (h : sysMmap s a o = some (r, s')) (hr : r ≠ MINUS_ONE) :
    a.Accepted ∧ ∃ t, mmapAddress s a = (some r, t) ∧
      mapLoop (mmapPlan r.toNat a.prot) o a.pagesNeeded 0 t = some (true, s') := by
  rw [sysMmap] at h
  split_ifs at h with hok
  · cases haddr : mmapAddress s a with
    | mk answer t =>
      rw [haddr] at h
      cases answer with
      | none => exact absurd (Prod.mk.inj (Option.some.inj h)).1.symm hr
      | some virtAddr =>
        simp only [Option.map_eq_some_iff, Prod.mk.injEq] at h
        obtain ⟨⟨complete, s₁⟩, hloop, hanswer, rfl⟩ := h
        cases complete with
        | false => exact absurd hanswer.symm hr
        | true =>
          obtain rfl : virtAddr = r := hanswer
          exact ⟨hok, t, rfl, hloop⟩
  · exact absurd (Prod.mk.inj (Option.some.inj h)).1.symm hr

/-- **When a successful `sys_mmap` has mapped what was asked for.**  With an address of the caller
the pages must contain all bytes; with one of the process they must also lie in user space. -/
theorem sysMmap_serves_iff {s s' : Machine} {a : MmapArgs} {o : Outcomes} {r : U64}
    (h : sysMmap s a o = some (r, s')) (hr : r ≠ MINUS_ONE) :
    MmapServes s s' a r ↔ MmapFits s a := by
  obtain ⟨hok, t, haddr, hloop⟩ := sysMmap_success h hr
  obtain ⟨hphysical, hmappings, hsource⟩ := mmapAddress_some haddr
  have hserves : MmapServes s s' a r ↔ a.FitsPages r.toNat ∧ a.FitsUserSpace r.toNat := by
    constructor
    · intro hs
      have hspace := (pages_inside_iff hok r).mp hs.inside
      exact ⟨(pages_covered_iff hok hspace).mp hs.covered, hspace⟩
    · rintro ⟨hpages, hspace⟩
      refine ⟨(pages_covered_iff hok hspace).mpr hpages, ?_, (pages_inside_iff hok r).mpr hspace,
        fun q hq => ?_⟩
      · obtain ⟨phys, hown, hne⟩ := mapLoop_own_pages hloop fun j k _ hjk hk =>
          pageOf_ne hok r hjk (by omega)
        rw [show t.pages = s.pages from congrArg PhysicalPageAllocator.allocated hphysical] at hown
        exact ⟨phys, fun i hi => hown i (Nat.zero_le i) (by omega), fun i j hij hj =>
          hne i j (Nat.zero_le i) hij (by omega)⟩
      · rw [((mapLoop_success hloop).2 q).2, hmappings]
        simp only [List.mem_map, List.mem_range'_1, not_exists, not_and]
        exact fun i hi => hq i (by omega)
  rw [hserves, MmapFits]
  rcases hsource with ⟨hat, rfl, hvalid⟩ | ⟨hat, process, hproc, rfl⟩
  · rw [if_pos hat]
    exact and_iff_left (fitsUserSpace_of_valid hok hvalid)
  · rw [if_neg hat, hproc]
    simp only [Option.some.injEq, forall_eq']

/-- Two pages at the beginning of user space. -/
theorem sysMmap_serves_two_pages : ∃ r s',
    sysMmap (freshMachine 2) ⟨0x40000000#64, 0x2000#64, 3#64, 0x32#64, 0#32, 0#64⟩ .good
      = some (r, s') ∧ r ≠ MINUS_ONE ∧
    MmapServes (freshMachine 2) s' ⟨0x40000000#64, 0x2000#64, 3#64, 0x32#64, 0#32, 0#64⟩ r := by
  have hcomp : (sysMmap (freshMachine 2) ⟨0x40000000#64, 0x2000#64, 3#64, 0x32#64, 0#32, 0#64⟩
      .good).map (·.1) = some 0x40000000#64 := by decide +kernel
  obtain ⟨⟨r, s'⟩, hcall, rfl⟩ := Option.map_eq_some_iff.mp hcomp
  refine ⟨_, s', hcall, by decide, (sysMmap_serves_iff hcall (by decide)).mpr ?_⟩
  rw [MmapFits, if_pos (by decide), MmapArgs.FitsPages]
  decide

/-- **The second byte is not mapped.**  Two bytes, the first of which is the last one of its page,
need two pages; the length asks for one. -/
theorem sysMmap_misses_second_page : ∃ s',
    sysMmap (freshMachine 2) ⟨0x40000FFF#64, 2#64, 3#64, 0x32#64, 0#32, 0#64⟩ .good
      = some (0x40000FFF#64, s') ∧
    s'.mappings (0x40001000 / PAGE_SIZE) = none ∧
    ¬ MmapServes (freshMachine 2) s' ⟨0x40000FFF#64, 2#64, 3#64, 0x32#64, 0#32, 0#64⟩
      0x40000FFF#64 := by
  have hcomp : (sysMmap (freshMachine 2) ⟨0x40000FFF#64, 2#64, 3#64, 0x32#64, 0#32, 0#64⟩
      .good).map (fun x => (x.1, (x.2.mappings (0x40001000 / PAGE_SIZE)).isNone))
      = some (0x40000FFF#64, true) := by decide +kernel
  obtain ⟨⟨r, s'⟩, hcall, hview⟩ := Option.map_eq_some_iff.mp hcomp
  simp only [Prod.mk.injEq] at hview
  obtain ⟨rfl, hnone⟩ := hview
  have hnone := Option.isNone_iff_eq_none.mp hnone
  refine ⟨s', hcall, hnone, fun hserves => ?_⟩
  obtain ⟨i, hi, hpage⟩ := hserves.covered 0x40001000 (by decide) (by decide)
  obtain ⟨phys, hown, -⟩ := hserves.own
  have hmapped := (hown i hi).1
  rw [hpage, hnone] at hmapped
  cases hmapped

end Masika
