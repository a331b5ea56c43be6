import Masika.Core.Runs
import Masika.Syscall.Machine

/-!
# `sys_brk`

The break of a process may be any address, but pages are mapped and unmapped from the old or new
break in steps of whole pages.  What this means for the heap of a run of successful calls is the
subject of the next module; this one is about a call that fails.

The clean-up after a failed `map_user_page` reconstructs the addresses of the pages taken before by
arithmetic on the last one, and forgets the last one itself; the clean-up after a failed
`allocate_page` frees no page at all.  So a failing call changes nothing if and only if it fails at
the first `allocate_page`, or before (`sysBrk_clean_iff`).

There is one more twist.  The guard of `PHYSICAL_ALLOCATOR.lock()` in the head of the `if let` lives
until its end, and the clean-up after a failed `map_user_page` locks again.  `Mutex` is not part of
the repository: `relock` says whether a second `lock()` comes back.  Everything is proved for both
answers.
-/

namespace Masika

open Machine

/-! ## The code -/

/-- `(hi - lo + PAGE_SIZE - 1) / PAGE_SIZE`. -/
def pagesSpanned (lo hi : ℕ) : ℕ := wrap (hi - lo + PAGE_SIZE - 1) / PAGE_SIZE

/-- The expansion loop.  A second `lock()` is only reached when there is a page to clean up. -/
def brkPlan (relock : Bool) (heapEnd : ℕ) : LoopPlan where
  vaddr i := wrap (heapEnd + i * PAGE_SIZE)
  page phys := ⟨phys, true, true, false⟩
  noPage i s := s.unmapPages ((List.range i).map fun j => wrap (heapEnd + j * PAGE_SIZE))
  noMapping i phys s :=
    if i ≠ 0 ∧ relock = false then none
    else
      some ((List.range i).foldl (fun s j =>
        let tempPhysAddr := wrap (wrapSub phys (i * PAGE_SIZE) + j * PAGE_SIZE)
        (s.unmapPage (wrap (heapEnd + j * PAGE_SIZE))).freePage tempPhysAddr) s)

/-- Store the new break. -/
def Machine.setHeapEnd (s : Machine) (newBrk : U64) : Machine :=
  { s with process := s.process.map fun p => { p with heapEnd := newBrk } }

/-- `None` when the call does not come back. -/
def sysBrk (relock : Bool) (s : Machine) (newBrk : U64) (o : Outcomes) : Option (U64 × Machine) :=
  match s.process with
  | none => some (MINUS_ONE, s)
  | some process =>
    let heapEnd := process.heapEnd.toNat
    let newBrkAddr := newBrk.toNat
    if newBrk = 0#64 then some (process.heapEnd, s)
    else if newBrkAddr < process.heapStart.toNat ∨ newBrkAddr > process.maxHeap.toNat then
      some (MINUS_ONE, s)
    else if newBrkAddr > heapEnd then
      (mapLoop (brkPlan relock heapEnd) o (pagesSpanned heapEnd newBrkAddr) 0 s).map
        fun (complete, s) =>
          if complete then (newBrk, s.setHeapEnd newBrk) else (MINUS_ONE, s)
    else if newBrkAddr < heapEnd then
      let vaddrs := (List.range (pagesSpanned newBrkAddr heapEnd)).map
        fun i => wrap (newBrkAddr + i * PAGE_SIZE)
      some (newBrk, (s.unmapPages (vaddrs.filter (· < heapEnd))).setHeapEnd newBrk)
    else some (newBrk, s.setHeapEnd newBrk)

/-- When a lock can be taken twice, every call returns. -/
theorem sysBrk_returns (s : Machine) (newBrk : U64) (o : Outcomes) :
    (sysBrk true s newBrk o).isSome := by
  have hloop := fun heapEnd n => mapLoop_returns (brkPlan true heapEnd)
    (fun k phys s => by simp [brkPlan]) o n 0 s
  cases hproc : s.process with
  | none => simp [sysBrk, hproc]
  | some process =>
    simp only [sysBrk, hproc]
    split_ifs <;> simp [hloop]

/-! ## Failing calls -/

/-- The allocated pages, the mappings and the break are the same. -/
structure BrkUnchanged (s s' : Machine) : Prop where
  pages : s'.pages = s.pages
  mappings : s'.mappings = s.mappings
  heapEnd : s'.process.map Process.heapEnd = s.process.map Process.heapEnd

/-- A call that returns -1 changes nothing. -/
def BrkFailsCleanly (relock : Bool) (s : Machine) (newBrk : U64) (o : Outcomes) : Prop :=
  ∀ s', sysBrk relock s newBrk o = some (MINUS_ONE, s') → BrkUnchanged s s'

/-- The call does not grow the heap; or no page at all can be taken; or nothing fails, and the new
break is not itself the number that stands for failure.  Or the clean-up does not come back. -/
def BrkNeedsNoCleanUp (relock : Bool) (s : Machine) (newBrk : U64) (o : Outcomes) : Prop :=
  ∀ process, s.process = some process → newBrk ≠ 0#64 →
    process.heapStart.toNat ≤ newBrk.toNat → newBrk.toNat ≤ process.maxHeap.toNat →
    process.heapEnd.toNat < newBrk.toNat →
    match firstFailure o (pagesSpanned process.heapEnd.toNat newBrk.toNat) 0 s.physical with
    | none => newBrk ≠ MINUS_ONE
    | some (.page i) => i = 0
    | some (.mapping i) => i ≠ 0 ∧ relock = false

lemma BrkUnchanged.refl (s : Machine) : BrkUnchanged s s := ⟨rfl, rfl, rfl⟩

/-- The address that the clean-up computes is never that of the page it should free. -/
lemma tempPhysAddr_ne {phys i j : ℕ} (hij : j < i) (hi : i < 2 ^ 52) :
    wrap (wrapSub phys (i * PAGE_SIZE) + j * PAGE_SIZE) ≠ phys := by
  rw [wrapSub, wrap, wrap, wrap, PAGE_SIZE]
  omega

/-- The clean-up after a failed mapping frees other pages, if any, but not the last one. -/
lemma mem_pages_brkRollback (heapEnd : ℕ) {i phys : ℕ} (hi : i < 2 ^ 52) (js : List ℕ)
    (hjs : ∀ j ∈ js, j < i) : ∀ {s : Machine}, phys ∈ s.pages →
      phys ∈ (js.foldl (fun s j => (s.unmapPage (wrap (heapEnd + j * PAGE_SIZE))).freePage
        (wrap (wrapSub phys (i * PAGE_SIZE) + j * PAGE_SIZE))) s).pages := by
  induction js with
  | nil => exact fun h => h
  | cons j js ih =>
    intro s hs
    rw [List.foldl_cons]
    refine ih (fun k hk => hjs k (List.mem_cons_of_mem j hk)) ?_
    rw [freePage_pages, unmapPage_pages]
    exact ⟨hs, fun heq => tempPhysAddr_ne (hjs j List.mem_cons_self) hi heq.symm⟩

lemma pagesSpanned_le (lo hi : ℕ) : pagesSpanned lo hi < 2 ^ 52 := by
  have := wrap_lt (hi - lo + PAGE_SIZE - 1)
  rw [pagesSpanned, PAGE_SIZE] at *
  omega

/-- The page that could not be mapped stays allocated. -/
lemma brkPlan_noMapping {relock : Bool} {heapEnd k phys : ℕ} {S : Set ℕ} {s s' : Machine}
    (hk : k < 2 ^ 52) (hphys : phys ∈ s.pages) (hS : phys ∉ S)
    (h : (brkPlan relock heapEnd).noMapping k phys s = some s') : s'.pages ≠ S := by
  simp only [brkPlan] at h
  split_ifs at h
  rw [Option.some.injEq] at h
  rw [← h]
  intro heq
  have hmem := mem_pages_brkRollback heapEnd hk (List.range k)
    (fun j hj => List.mem_range.mp hj) hphys
  rw [heq] at hmem
  exact hS hmem

lemma brkPlan_leavesPage (relock : Bool) (heapEnd : ℕ) (S : Set ℕ) {n : ℕ} (hn : n < 2 ^ 52) :
    LeavesPage (brkPlan relock heapEnd) S n where
  noPage _ s := (unmapPages_spec s _).1
  noMapping _ _ _ _ _ hk hphys hS _ _ _ h := brkPlan_noMapping (hk.trans hn) hphys hS h

section Expansion

variable {relock : Bool} {heapEnd n : ℕ} {o : Outcomes} {s : Machine}

lemma brkLoop_stuck {k : ℕ} (hfail : firstFailure o n 0 s.physical = some (.mapping k))
    (hstuck : k ≠ 0 ∧ relock = false) : mapLoop (brkPlan relock heapEnd) o n 0 s = none := by
  have hend := mapLoop_end (brkPlan relock heapEnd) o n 0 s
  rw [hfail] at hend
  obtain ⟨phys, s₁, h₁⟩ := hend
  have hnone : (brkPlan relock heapEnd).noMapping k phys s₁ = none := if_pos hstuck
  rw [h₁, hnone, Option.map_none]

lemma brkLoop_fails (relock : Bool) (heapEnd : ℕ) {failure : Failure}
    (hfail : firstFailure o n 0 s.physical = some failure)
    (hback : ∀ k, failure = .mapping k → ¬ (k ≠ 0 ∧ relock = false)) :
    ∃ s', mapLoop (brkPlan relock heapEnd) o n 0 s = some (false, s') := by
  have hend := mapLoop_end (brkPlan relock heapEnd) o n 0 s
  rw [hfail] at hend
  cases failure with
  | page k =>
    obtain ⟨s₁, h₁⟩ := hend
    exact ⟨_, h₁⟩
  | mapping k =>
    obtain ⟨phys, s₁, h₁⟩ := hend
    have hsome : (brkPlan relock heapEnd).noMapping k phys s₁ = some _ := if_neg (hback k rfl)
    rw [hsome] at h₁
    exact ⟨_, h₁⟩

/-- **The expansion.**  A failure is clean if and only if it is that of the first page. -/
lemma brkLoop_unchanged_iff {failure : Failure} {s' : Machine} (hn : n < 2 ^ 52)
    (hfail : firstFailure o n 0 s.physical = some failure)
    (h : mapLoop (brkPlan relock heapEnd) o n 0 s = some (false, s')) :
    BrkUnchanged s s' ↔ failure = .page 0 := by
  cases n with
  | zero => simp [firstFailure] at hfail
  | succ n =>
    cases round o 0 s with
    | noPage s₁ htake =>
      obtain ⟨hpages, hmappings, hprocess⟩ := takePage_none htake
      rw [firstFailure_noPage htake, Option.some.injEq] at hfail
      rw [mapLoop_noPage htake, Option.some.injEq, Prod.mk.injEq] at h
      rw [← h.2]
      refine iff_of_true ⟨hpages, hmappings, ?_⟩ hfail.symm
      exact congrArg (Option.map Process.heapEnd) hprocess
    | noMapping phys s₁ htake hok =>
      obtain ⟨hfresh, hpages, -, -⟩ := takePage_some htake
      have hphys : phys ∈ s₁.pages := by rw [hpages]; exact Set.mem_insert phys s.pages
      rw [firstFailure_noMapping htake hok, Option.some.injEq] at hfail
      rw [mapLoop_noMapping htake hok, Option.map_eq_some_iff] at h
      obtain ⟨s₂, h₂, hs₂⟩ := h
      rw [← (Prod.mk.inj hs₂).2, ← hfail]
      refine iff_of_false (fun hsame => ?_) (by simp)
      exact brkPlan_noMapping (by omega) hphys hfresh h₂ hsame.pages
    | mapped phys s₁ htake hok =>
      refine iff_of_false (fun hsame => ?_) ?_
      · exact mapLoop_leak_of_mapped (brkPlan_leavesPage relock heapEnd _ hn) htake hok h
          hsame.pages
      · rintro rfl
        rw [firstFailure_mapped htake hok] at hfail
        exact absurd (le_of_firstFailure hfail) (by simp [Failure.round])

end Expansion

lemma setHeapEnd_changes {s : Machine} {process : Process} {newBrk : U64}
    (h : s.process = some process) (hne : process.heapEnd ≠ newBrk) {s₀ : Machine}
    (h₀ : s₀.process = some process) : ¬ BrkUnchanged s₀ (s.setHeapEnd newBrk) := by
  intro hsame
  have hend := hsame.heapEnd
  rw [Machine.setHeapEnd, h, h₀] at hend
  exact hne (Option.some.inj hend).symm

/-- The answer of a growing call. -/
def brkAnswer (newBrk : U64) : Bool × Machine → U64 × Machine
  | (true, s) => (newBrk, s.setHeapEnd newBrk)
  | (false, s) => (MINUS_ONE, s)

lemma brkAnswer_clean_iff (relock : Bool) {s : Machine} {process : Process} {newBrk : U64}
    (hproc : s.process = some process) (hne : process.heapEnd ≠ newBrk) {n : ℕ} (hn : n < 2 ^ 52)
    (o : Outcomes) :
    (∀ s', (mapLoop (brkPlan relock process.heapEnd.toNat) o n 0 s).map (brkAnswer newBrk)
        = some (MINUS_ONE, s') → BrkUnchanged s s') ↔
      match firstFailure o n 0 s.physical with
      | none => newBrk ≠ MINUS_ONE
      | some (.page i) => i = 0
      | some (.mapping i) => i ≠ 0 ∧ relock = false := by
  have hfalse : ∀ {s₁}, mapLoop (brkPlan relock process.heapEnd.toNat) o n 0 s = some (false, s₁) →
      ((∀ s', (mapLoop (brkPlan relock process.heapEnd.toNat) o n 0 s).map (brkAnswer newBrk)
        = some (MINUS_ONE, s') → BrkUnchanged s s') ↔ BrkUnchanged s s₁) := by
    intro s₁ h₁
    simp [h₁, brkAnswer]
  cases hfail : firstFailure o n 0 s.physical with
  | none =>
    have hend := mapLoop_end (brkPlan relock process.heapEnd.toNat) o n 0 s
    rw [hfail] at hend
    obtain ⟨s₁, h₁⟩ := hend
    have hproc₁ : s₁.process = some process := (mapLoop_success h₁).1.trans hproc
    simp only [h₁, Option.map_some, brkAnswer, Option.some.injEq, Prod.mk.injEq]
    constructor
    · exact fun hall heq => setHeapEnd_changes hproc₁ hne hproc (hall _ ⟨heq, rfl⟩)
    · exact fun hneq s' h => absurd h.1 hneq
  | some failure =>
    cases failure with
    | page k =>
      obtain ⟨s₁, h₁⟩ := brkLoop_fails relock process.heapEnd.toNat hfail (by simp)
      rw [hfalse h₁, brkLoop_unchanged_iff hn hfail h₁, Failure.page.injEq]
    | mapping k =>
      by_cases hstuck : k ≠ 0 ∧ relock = false
      · rw [brkLoop_stuck hfail hstuck]
        exact iff_of_true (by simp) hstuck
      · obtain ⟨s₁, h₁⟩ :=
          brkLoop_fails relock process.heapEnd.toNat hfail (by simpa using hstuck)
        rw [hfalse h₁, brkLoop_unchanged_iff hn hfail h₁]
        exact iff_of_false (by simp) hstuck

section Growing

variable {relock : Bool} {s : Machine} {process : Process} {newBrk : U64} {o : Outcomes}

lemma sysBrk_of_growing (hproc : s.process = some process) (h0 : newBrk ≠ 0#64)
    (hlo : process.heapStart.toNat ≤ newBrk.toNat) (hhi : newBrk.toNat ≤ process.maxHeap.toNat)
    (hgrow : process.heapEnd.toNat < newBrk.toNat) :
    sysBrk relock s newBrk o
      = (mapLoop (brkPlan relock process.heapEnd.toNat) o
          (pagesSpanned process.heapEnd.toNat newBrk.toNat) 0 s).map (brkAnswer newBrk) := by
  have hrange : ¬ (newBrk.toNat < process.heapStart.toNat ∨
      newBrk.toNat > process.maxHeap.toNat) := by omega
  have hanswer : (fun x : Bool × Machine => if x.1 then (newBrk, x.2.setHeapEnd newBrk)
      else (MINUS_ONE, x.2)) = brkAnswer newBrk := by
    funext ⟨complete, s⟩
    cases complete <;> rfl
  simp only [sysBrk, hproc, if_neg h0, if_neg hrange, if_pos hgrow, hanswer]

/-- A call that does not grow the heap and returns -1 has done nothing: the answer of the others is
the new break, which is -1 only if the old one was. -/
lemma brkFailsCleanly_of_not_growing (hproc : s.process = some process)
    (h : newBrk ≠ 0#64 → process.heapStart.toNat ≤ newBrk.toNat →
      newBrk.toNat ≤ process.maxHeap.toNat → newBrk.toNat ≤ process.heapEnd.toNat) :
    BrkFailsCleanly relock s newBrk o := by
  intro s' hcall
  simp only [sysBrk, hproc] at hcall
  by_cases h0 : newBrk = 0#64
  · rw [if_pos h0, Option.some.injEq, Prod.mk.injEq] at hcall
    rw [← hcall.2]
    exact BrkUnchanged.refl s
  by_cases hrange : newBrk.toNat < process.heapStart.toNat ∨ newBrk.toNat > process.maxHeap.toNat
  · rw [if_neg h0, if_pos hrange, Option.some.injEq, Prod.mk.injEq] at hcall
    rw [← hcall.2]
    exact BrkUnchanged.refl s
  have hle := h h0 (by omega) (by omega)
  rw [if_neg h0, if_neg hrange, if_neg (by omega)] at hcall
  have hmax : (MINUS_ONE).toNat = 2 ^ 64 - 1 := rfl
  have hlt := process.heapEnd.isLt
  by_cases hshrink : newBrk.toNat < process.heapEnd.toNat
  · rw [if_pos hshrink, Option.some.injEq, Prod.mk.injEq] at hcall
    rw [hcall.1] at hshrink
    omega
  · rw [if_neg hshrink, Option.some.injEq, Prod.mk.injEq] at hcall
    have heq : process.heapEnd = newBrk := BitVec.eq_of_toNat_eq (by omega)
    rw [← hcall.2]
    refine ⟨rfl, rfl, ?_⟩
    rw [Machine.setHeapEnd, hproc, ← heq]
    rfl

end Growing

/-- **When a failing `sys_brk` changes nothing.** -/
theorem sysBrk_clean_iff (relock : Bool) (s : Machine) (newBrk : U64) (o : Outcomes) :
    BrkFailsCleanly relock s newBrk o ↔ BrkNeedsNoCleanUp relock s newBrk o := by
  cases hproc : s.process with
  | none =>
    refine iff_of_true (fun s' h => ?_) fun process h => by simp [hproc] at h
    simp only [sysBrk, hproc, Option.some.injEq, Prod.mk.injEq] at h
    rw [← h.2]
    exact BrkUnchanged.refl s
  | some process =>
    simp only [BrkNeedsNoCleanUp, hproc, Option.some.injEq, forall_eq']
    by_cases hgrow : newBrk ≠ 0#64 ∧ process.heapStart.toNat ≤ newBrk.toNat ∧
        newBrk.toNat ≤ process.maxHeap.toNat ∧ process.heapEnd.toNat < newBrk.toNat
    · obtain ⟨h0, hlo, hhi, hlt⟩ := hgrow
      have hne : process.heapEnd ≠ newBrk := by
        rintro rfl
        exact lt_irrefl _ hlt
      have hclean := brkAnswer_clean_iff relock hproc hne
        (pagesSpanned_le process.heapEnd.toNat newBrk.toNat) o
      rw [BrkFailsCleanly, sysBrk_of_growing hproc h0 hlo hhi hlt, hclean]
      exact ⟨fun h _ _ _ _ => h, fun h => h h0 hlo hhi hlt⟩
    · refine iff_of_true (brkFailsCleanly_of_not_growing hproc fun h0 hlo hhi => ?_) ?_
      · exact not_lt.mp fun hlt => hgrow ⟨h0, hlo, hhi, hlt⟩
      · exact fun h0 hlo hhi hlt => absurd ⟨h0, hlo, hhi, hlt⟩ hgrow

/-- **A page is lost.**  There is one physical page and the heap is to grow by two: the first page
is taken and mapped, the second cannot be had, and the clean-up unmaps it without freeing it. -/
theorem failing_brk_loses_a_page :
    ¬ ∀ (relock : Bool) (s : Machine) (newBrk : U64) (o : Outcomes),
        BrkFailsCleanly relock s newBrk o := by
  intro hall
  have hcomp : (sysBrk false (freshMachine 1) 0x402000#64 .good).map
      (fun r => (r.1, getBit r.2.physical.bitmap 0, r.2.physical.totalPages))
      = some (MINUS_ONE, true, 1) := by decide +kernel
  obtain ⟨⟨r, s'⟩, hcall, hview⟩ := Option.map_eq_some_iff.mp hcomp
  simp only [Prod.mk.injEq] at hview
  obtain ⟨rfl, hbit, htotal⟩ := hview
  have hpages := (hall false (freshMachine 1) 0x402000#64 .good s' hcall).pages
  exact pages_ne_freshMachine (by omega) hbit hpages

end Masika
