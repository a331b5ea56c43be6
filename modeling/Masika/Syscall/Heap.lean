import Masika.Syscall.Brk

/-!
# The heap of a process

What `sys_brk` is for: the pages that are mapped in the area between `heap_start` and `max_heap` are
those that intersect the heap, `[heap_start, heap_end)`.  The area is measured in bytes and the
pages are not, so the two ends of a call have to be looked at separately.  Growing from a break
inside a page maps that page again, over the page that is there; shrinking to a break inside a page
unmaps it, although its lower part still belongs to the heap.

* `spannedPages_mem` — the pages that a growing call maps and a shrinking call unmaps, when the end
  from which they are counted is a page boundary.
* `heap_exact_of_aligned` — the heap stays exact, and no byte below the break changes its page.
* `shrinking_into_a_page_unmaps_it` — why the boundary is needed.
-/

namespace Masika

open Machine

/-! ## Runs of successful calls -/

/-- One call: the new break, and how the calls inside turn out. -/
structure BrkCall where
  newBrk : U64
  outcomes : Outcomes

/-- A call that succeeds; `none` for any other. -/
def brkStep (relock : Bool) (s : Machine) (c : BrkCall) : Option Machine :=
  match sysBrk relock s c.newBrk c.outcomes with
  | none => none
  | some (answer, s') => if answer = MINUS_ONE then none else some s'

/-- A page holds one of the addresses from `lo` up to `hi`. -/
def Intersects (q lo hi : ℕ) : Prop := ∃ addr, lo ≤ addr ∧ addr < hi ∧ addr / PAGE_SIZE = q

/-- Exactly the pages of the heap are mapped in the heap area. -/
def HeapExact (s : Machine) (process : Process) : Prop :=
  ∀ q, Intersects q process.heapStart.toNat process.maxHeap.toNat →
    ((s.mappings q).isSome ↔ Intersects q process.heapStart.toNat process.heapEnd.toNat)

/-- What a step from `s` to `s'` must not do to the heap: a growing call replaces no page behind an
address below the old break, and a shrinking call unmaps none that holds bytes below the new one. -/
structure KeepsHeap (s s' : Machine) (process process' : Process) : Prop where
  grow : process.heapEnd.toNat < process'.heapEnd.toNat → ∀ addr,
    process.heapStart.toNat ≤ addr → addr < process.heapEnd.toNat →
    s'.mappings (addr / PAGE_SIZE) = s.mappings (addr / PAGE_SIZE)
  shrink : process'.heapEnd.toNat < process.heapEnd.toNat → ∀ addr,
    process.heapStart.toNat ≤ addr → addr < process'.heapEnd.toNat →
    (s'.mappings (addr / PAGE_SIZE)).isSome

/-- The call grows from a page boundary or shrinks to one; and rounding the distance up does not
leave 64 bits. -/
def AlignedCall (s : Machine) (c : BrkCall) : Prop :=
  ∀ process, s.process = some process → c.newBrk ≠ 0#64 →
    (process.heapEnd.toNat < c.newBrk.toNat → process.heapEnd.toNat % PAGE_SIZE = 0 ∧
      c.newBrk.toNat - process.heapEnd.toNat + PAGE_SIZE ≤ 2 ^ 64) ∧
    (c.newBrk.toNat < process.heapEnd.toNat → c.newBrk.toNat % PAGE_SIZE = 0 ∧
      process.heapEnd.toNat - c.newBrk.toNat + PAGE_SIZE ≤ 2 ^ 64)

/-! ## Pages and addresses -/

lemma intersects_iff {q lo hi : ℕ} (hlo : lo % PAGE_SIZE = 0) :
    Intersects q lo hi ↔ lo ≤ q * PAGE_SIZE ∧ q * PAGE_SIZE < hi := by
  rw [PAGE_SIZE] at hlo
  constructor
  · rintro ⟨addr, h₁, h₂, rfl⟩
    rw [PAGE_SIZE]
    omega
  · rintro ⟨h₁, h₂⟩
    exact ⟨q * PAGE_SIZE, h₁, h₂, Nat.mul_div_cancel q (by decide)⟩

lemma pagesSpanned_eq {lo hi : ℕ} (h : hi - lo + PAGE_SIZE ≤ 2 ^ 64) :
    pagesSpanned lo hi = (hi - lo + 4095) / 4096 := by
  rw [PAGE_SIZE] at h
  rw [pagesSpanned, PAGE_SIZE, wrap_of_lt (by omega)]
  rfl

/-- The pages from a page boundary up to an address. -/
lemma spannedPages_mem {lo hi q : ℕ} (hlo : lo % PAGE_SIZE = 0) (hle : lo ≤ hi) (hhi : hi < 2 ^ 64)
    (h : hi - lo + PAGE_SIZE ≤ 2 ^ 64) :
    q ∈ (List.range' 0 (pagesSpanned lo hi)).map (fun i => wrap (lo + i * PAGE_SIZE) / PAGE_SIZE) ↔
      lo ≤ q * PAGE_SIZE ∧ q * PAGE_SIZE < hi := by
  rw [pagesSpanned_eq h]
  simp only [List.mem_map, List.mem_range'_1, PAGE_SIZE] at hlo ⊢
  constructor
  · rintro ⟨i, hi', rfl⟩
    rw [wrap_of_lt (by omega)]
    omega
  · rintro ⟨h₁, h₂⟩
    refine ⟨q - lo / 4096, by omega, ?_⟩
    rw [wrap_of_lt (by omega)]
    omega

/-! ## What a successful call does -/

/-- The three ways to succeed with an address: grow, shrink, stay. -/
inductive Moved (relock : Bool) (s : Machine) (process : Process) (c : BrkCall) (s' : Machine) :
    Prop
  | grow (s₁ : Machine) (hlt : process.heapEnd.toNat < c.newBrk.toNat)
      (hloop : mapLoop (brkPlan relock process.heapEnd.toNat) c.outcomes
        (pagesSpanned process.heapEnd.toNat c.newBrk.toNat) 0 s = some (true, s₁))
      (heq : s' = s₁.setHeapEnd c.newBrk)
  | shrink (hlt : c.newBrk.toNat < process.heapEnd.toNat)
      (heq : s' = (s.unmapPages (((List.range (pagesSpanned c.newBrk.toNat
        process.heapEnd.toNat)).map fun i => wrap (c.newBrk.toNat + i * PAGE_SIZE)).filter
          (· < process.heapEnd.toNat))).setHeapEnd c.newBrk)
  | stay (h : c.newBrk = process.heapEnd) (heq : s' = s.setHeapEnd c.newBrk)

lemma brkStep_cases {relock : Bool} {s s' : Machine} {process : Process} {c : BrkCall}
    (hproc : s.process = some process) (h : brkStep relock s c = some s') :
    (c.newBrk = 0#64 ∧ s' = s) ∨
      (c.newBrk ≠ 0#64 ∧ process.heapStart.toNat ≤ c.newBrk.toNat ∧
        c.newBrk.toNat ≤ process.maxHeap.toNat ∧ Moved relock s process c s') := by
  rw [brkStep, sysBrk, hproc] at h
  simp only at h
  by_cases h0 : c.newBrk = 0#64
  · rw [if_pos h0] at h
    simp only [Option.ite_none_left_eq_some, Option.some.injEq] at h
    exact Or.inl ⟨h0, h.2.symm⟩
  rw [if_neg h0] at h
  by_cases hrange : c.newBrk.toNat < process.heapStart.toNat ∨
      c.newBrk.toNat > process.maxHeap.toNat
  · rw [if_pos hrange] at h
    simp at h
  rw [if_neg hrange] at h
  refine Or.inr ⟨h0, by omega, by omega, ?_⟩
  by_cases hgrow : c.newBrk.toNat > process.heapEnd.toNat
  · rw [if_pos hgrow] at h
    cases hloop : mapLoop (brkPlan relock process.heapEnd.toNat) c.outcomes
        (pagesSpanned process.heapEnd.toNat c.newBrk.toNat) 0 s with
    | none => simp [hloop] at h
    | some result =>
      obtain ⟨_ | _, s₁⟩ := result
      · simp [hloop] at h
      · simp only [hloop, Option.map_some, if_true, Option.ite_none_left_eq_some,
          Option.some.injEq] at h
        exact .grow s₁ hgrow hloop h.2.symm
  rw [if_neg hgrow] at h
  by_cases hshrink : c.newBrk.toNat < process.heapEnd.toNat
  · rw [if_pos hshrink] at h
    simp only [Option.ite_none_left_eq_some, Option.some.injEq] at h
    exact .shrink hshrink h.2.symm
  · rw [if_neg hshrink] at h
    simp only [Option.ite_none_left_eq_some, Option.some.injEq] at h
    exact .stay (BitVec.eq_of_toNat_eq (by omega)) h.2.symm

/-- The process after the break has been set. -/
def Process.withBreak (process : Process) (newBrk : U64) : Process :=
  { process with heapEnd := newBrk }

lemma setHeapEnd_process {s : Machine} {process : Process} (h : s.process = some process)
    (newBrk : U64) : (s.setHeapEnd newBrk).process = some (process.withBreak newBrk) := by
  rw [Machine.setHeapEnd, h]
  rfl

/-! ## Growing and shrinking at page boundaries -/

section Boundary

variable {relock : Bool} {s s₁ : Machine} {process : Process} {newBrk : U64}

/-- A growing call from a page boundary maps the pages from there on. -/
lemma grow_mappings (hlt : process.heapEnd.toNat < newBrk.toNat)
    (haligned : process.heapEnd.toNat % PAGE_SIZE = 0)
    (hfits : newBrk.toNat - process.heapEnd.toNat + PAGE_SIZE ≤ 2 ^ 64) {o : Outcomes}
    (hloop : mapLoop (brkPlan relock process.heapEnd.toNat) o
      (pagesSpanned process.heapEnd.toNat newBrk.toNat) 0 s = some (true, s₁)) (q : ℕ) :
    (process.heapEnd.toNat ≤ q * PAGE_SIZE ∧ q * PAGE_SIZE < newBrk.toNat →
      (s₁.mappings q).isSome) ∧
    (¬ (process.heapEnd.toNat ≤ q * PAGE_SIZE ∧ q * PAGE_SIZE < newBrk.toNat) →
      s₁.mappings q = s.mappings q) := by
  have hmem := spannedPages_mem (q := q) haligned hlt.le newBrk.isLt hfits
  have hmap := (mapLoop_success hloop).2 q
  exact ⟨fun hq => hmap.1 (hmem.mpr hq), fun hq => hmap.2 fun hin => hq (hmem.mp hin)⟩

/-- A shrinking call to a page boundary unmaps the pages from there on. -/
lemma shrink_mappings (hlt : newBrk.toNat < process.heapEnd.toNat)
    (haligned : newBrk.toNat % PAGE_SIZE = 0)
    (hfits : process.heapEnd.toNat - newBrk.toNat + PAGE_SIZE ≤ 2 ^ 64) (q : ℕ) :
    (s.unmapPages (((List.range (pagesSpanned newBrk.toNat process.heapEnd.toNat)).map fun i =>
      wrap (newBrk.toNat + i * PAGE_SIZE)).filter (· < process.heapEnd.toNat))).mappings q
      = if newBrk.toNat ≤ q * PAGE_SIZE ∧ q * PAGE_SIZE < process.heapEnd.toNat then none
        else s.mappings q := by
  have hmem := spannedPages_mem (q := q) haligned hlt.le process.heapEnd.isLt hfits
  have hall : ((List.range (pagesSpanned newBrk.toNat process.heapEnd.toNat)).map fun i =>
      wrap (newBrk.toNat + i * PAGE_SIZE)).filter (· < process.heapEnd.toNat)
      = (List.range (pagesSpanned newBrk.toNat process.heapEnd.toNat)).map fun i =>
          wrap (newBrk.toNat + i * PAGE_SIZE) := by
    refine List.filter_eq_self.mpr fun vaddr hv => ?_
    obtain ⟨i, hi, rfl⟩ := List.mem_map.mp hv
    have hi' := List.mem_range.mp hi
    rw [pagesSpanned_eq hfits] at hi'
    have hend := process.heapEnd.isLt
    rw [decide_eq_true_eq, PAGE_SIZE, wrap_of_lt (by omega)]
    omega
  rw [hall, (unmapPages_spec s _).2.2 q, List.map_map, List.range_eq_range']
  simp only [Function.comp_def, hmem]

variable (hstart : process.heapStart.toNat % PAGE_SIZE = 0) (hexact : HeapExact s process)

include hstart hexact

/-- The pages of the heap area, after the break has moved. -/
lemma heapExact_withBreak {s' : Machine} (hpages : ∀ q, process.heapStart.toNat ≤ q * PAGE_SIZE →
      ((s.mappings q).isSome ↔ q * PAGE_SIZE < process.heapEnd.toNat) →
      ((s'.mappings q).isSome ↔ q * PAGE_SIZE < newBrk.toNat)) :
    HeapExact s' (process.withBreak newBrk) := by
  intro q hq
  have harea : Intersects q process.heapStart.toNat process.maxHeap.toNat := hq
  have hnew : Intersects q process.heapStart.toNat newBrk.toNat ↔
      process.heapStart.toNat ≤ q * PAGE_SIZE ∧ q * PAGE_SIZE < newBrk.toNat :=
    intersects_iff hstart
  have hlo := ((intersects_iff hstart).mp harea).1
  have hold := hexact q harea
  rw [intersects_iff hstart, and_iff_right hlo] at hold
  exact (hpages q hlo hold).trans ((and_iff_right hlo).symm.trans hnew.symm)

lemma grow_exact (hlt : process.heapEnd.toNat < newBrk.toNat)
    (haligned : process.heapEnd.toNat % PAGE_SIZE = 0)
    (hfits : newBrk.toNat - process.heapEnd.toNat + PAGE_SIZE ≤ 2 ^ 64) {o : Outcomes}
    (hloop : mapLoop (brkPlan relock process.heapEnd.toNat) o
      (pagesSpanned process.heapEnd.toNat newBrk.toNat) 0 s = some (true, s₁)) :
    HeapExact (s₁.setHeapEnd newBrk) (process.withBreak newBrk) ∧
      KeepsHeap s (s₁.setHeapEnd newBrk) process (process.withBreak newBrk) := by
  have hmap := grow_mappings hlt haligned hfits hloop
  have hbreak : (process.withBreak newBrk).heapEnd = newBrk := rfl
  refine ⟨heapExact_withBreak hstart hexact fun q _ hold => ?_,
    ⟨fun _ addr _ hbelow => ?_, fun hback => ?_⟩⟩
  · by_cases hin : process.heapEnd.toNat ≤ q * PAGE_SIZE ∧ q * PAGE_SIZE < newBrk.toNat
    · exact ⟨fun _ => hin.2, fun _ => (hmap q).1 hin⟩
    · have hsame : (s₁.setHeapEnd newBrk).mappings q = s.mappings q := (hmap q).2 hin
      rw [hsame, hold]
      omega
  · refine (hmap _).2 ?_
    rw [PAGE_SIZE] at haligned ⊢
    omega
  · rw [hbreak] at hback
    omega

lemma shrink_exact (hlt : newBrk.toNat < process.heapEnd.toNat)
    (hmax : newBrk.toNat ≤ process.maxHeap.toNat) (haligned : newBrk.toNat % PAGE_SIZE = 0)
    (hmap : ∀ q, s₁.mappings q
      = if newBrk.toNat ≤ q * PAGE_SIZE ∧ q * PAGE_SIZE < process.heapEnd.toNat then none
        else s.mappings q) :
    HeapExact (s₁.setHeapEnd newBrk) (process.withBreak newBrk) ∧
      KeepsHeap s (s₁.setHeapEnd newBrk) process (process.withBreak newBrk) := by
  have hbreak : (process.withBreak newBrk).heapEnd = newBrk := rfl
  refine ⟨heapExact_withBreak hstart hexact fun q _ hold => ?_,
    ⟨fun hforth => ?_, fun _ addr habove hbelow => ?_⟩⟩
  · have hmappings : (s₁.setHeapEnd newBrk).mappings q = s₁.mappings q := rfl
    rw [hmappings, hmap q]
    split_ifs with hin
    · simp only [Option.isSome_none, Bool.false_eq_true, false_iff]
      omega
    · rw [hold]
      omega
  · rw [hbreak] at hforth
    omega
  · rw [hbreak] at hbelow
    have hmappings : (s₁.setHeapEnd newBrk).mappings (addr / PAGE_SIZE)
        = s₁.mappings (addr / PAGE_SIZE) := rfl
    rw [hmappings, hmap, if_neg]
    · exact (hexact _ ⟨addr, habove, by omega, rfl⟩).mpr ⟨addr, habove, by omega, rfl⟩
    · rw [PAGE_SIZE] at haligned ⊢
      omega

end Boundary

/-! ## Whole runs -/

/-- The invariant: an exact heap between its unchanging bounds. -/
def HeapInv (heapStart maxHeap : U64) (s : Machine) : Prop :=
  ∃ process, s.process = some process ∧ process.heapStart = heapStart ∧
    process.maxHeap = maxHeap ∧ HeapExact s process

lemma HeapInv.step {relock : Bool} {heapStart maxHeap : U64}
    (hstart : heapStart.toNat % PAGE_SIZE = 0) {s s' : Machine} {process : Process} {c : BrkCall}
    (hproc : s.process = some process) (hs : HeapInv heapStart maxHeap s)
    (hok : AlignedCall s c) (h : brkStep relock s c = some s') :
    HeapInv heapStart maxHeap s' ∧
      ∃ process', s'.process = some process' ∧ KeepsHeap s s' process process' := by
  obtain ⟨p, hp, rfl, rfl, hexact⟩ := hs
  obtain rfl : process = p := Option.some.inj (hproc.symm.trans hp)
  rcases brkStep_cases hproc h with ⟨-, rfl⟩ | ⟨h0, -, hmax, hmoved⟩
  · exact ⟨⟨process, hproc, rfl, rfl, hexact⟩, process, hproc,
      fun hlt => absurd hlt (lt_irrefl _), fun hlt => absurd hlt (lt_irrefl _)⟩
  obtain ⟨hgrow, hshrink⟩ := hok process hproc h0
  cases hmoved with
  | grow s₁ hlt hloop heq =>
    obtain ⟨haligned, hfits⟩ := hgrow hlt
    obtain ⟨hexact', hkeeps⟩ := grow_exact hstart hexact hlt haligned hfits hloop
    have hproc₁ : s₁.process = some process := (mapLoop_success hloop).1.trans hproc
    rw [heq]
    exact ⟨⟨_, setHeapEnd_process hproc₁ _, rfl, rfl, hexact'⟩, _,
      setHeapEnd_process hproc₁ _, hkeeps⟩
  | shrink hlt heq =>
    obtain ⟨haligned, hfits⟩ := hshrink hlt
    have hmap := shrink_mappings (s := s) hlt haligned hfits
    obtain ⟨hexact', hkeeps⟩ := shrink_exact hstart hexact hlt hmax haligned hmap
    have hproc₁ := (unmapPages_spec s (((List.range (pagesSpanned c.newBrk.toNat
      process.heapEnd.toNat)).map fun i => wrap (c.newBrk.toNat + i * PAGE_SIZE)).filter
        (· < process.heapEnd.toNat))).2.1.trans hproc
    rw [heq]
    exact ⟨⟨_, setHeapEnd_process hproc₁ _, rfl, rfl, hexact'⟩, _,
      setHeapEnd_process hproc₁ _, hkeeps⟩
  | stay hsame heq =>
    have hbreak : process.withBreak c.newBrk = process := by rw [hsame]; rfl
    have hproc' := setHeapEnd_process hproc c.newBrk
    rw [hbreak] at hproc'
    rw [heq]
    exact ⟨⟨process, hproc', rfl, rfl, hexact⟩, process, hproc',
      fun hlt => absurd hlt (lt_irrefl _), fun hlt => absurd hlt (lt_irrefl _)⟩

/-- **The heap at page boundaries.**  Let a process start with an empty heap at a page boundary and
nothing mapped in the heap area.  In every run of successful calls that grow from page boundaries
and shrink to page boundaries, exactly the pages of the heap are mapped in every state; and the next
such call neither replaces a page below the old break nor unmaps one below the new break. -/
theorem heap_exact_of_aligned (relock : Bool) (s₀ : Machine) {process : Process}
    (hproc : s₀.process = some process) (hstart : process.heapStart.toNat % PAGE_SIZE = 0)
    (hempty : process.heapEnd = process.heapStart)
    (hunmapped : ∀ q, Intersects q process.heapStart.toNat process.maxHeap.toNat →
      s₀.mappings q = none)
    {calls : List BrkCall} {s : Machine} (hok : Meets AlignedCall (brkStep relock) s₀ calls)
    (h : run (brkStep relock) s₀ calls = some s) :
    ∃ p, s.process = some p ∧ HeapExact s p ∧
      ∀ c s', AlignedCall s c → brkStep relock s c = some s' →
        ∃ p', s'.process = some p' ∧ KeepsHeap s s' p p' := by
  have hinit : HeapInv process.heapStart process.maxHeap s₀ := by
    refine ⟨process, hproc, rfl, rfl, fun q hq => ?_⟩
    rw [hunmapped q hq, hempty]
    simp only [Option.isSome_none, Bool.false_eq_true, false_iff]
    rintro ⟨addr, hlo, hhi, -⟩
    omega
  have hinv : HeapInv process.heapStart process.maxHeap s := by
    refine run_invariant_of_meets (fun s c s' hs hc hstep => ?_) hinit hok h
    obtain ⟨p, hp, -⟩ := id hs
    exact (hs.step hstart hp hc hstep).1
  obtain ⟨p, hp, -, -, hexact⟩ := id hinv
  exact ⟨p, hp, hexact, fun c s' hc hstep => (hinv.step hstart hp hc hstep).2⟩

/-- Grow by two pages, shrink by one. -/
def growAndShrink : List BrkCall := [⟨0x402000#64, .good⟩, ⟨0x401000#64, .good⟩]

/-- Two pages, and one back. -/
theorem heap_exact_of_aligned_growAndShrink :
    ∃ s, run (brkStep false) (freshMachine 4) growAndShrink = some s ∧
      (s.mappings 0x400).isSome ∧ s.mappings 0x401 = none ∧
      ∃ p, s.process = some p ∧ HeapExact s p ∧
        ∀ c s', AlignedCall s c → brkStep false s c = some s' →
          ∃ p', s'.process = some p' ∧ KeepsHeap s s' p p' := by
  have hcomp : (run (brkStep false) (freshMachine 4) growAndShrink).map
      (fun s => ((s.mappings 0x400).isSome, s.mappings 0x401)) = some (true, none) := by
    decide +kernel
  obtain ⟨s, hs, hview⟩ := Option.map_eq_some_iff.mp hcomp
  rw [Prod.mk.injEq] at hview
  refine ⟨s, hs, hview.1, hview.2, heap_exact_of_aligned false (freshMachine 4) rfl rfl rfl
    (fun _ _ => rfl) ?_ hs⟩
  have hgrown : (brkStep false (freshMachine 4) ⟨0x402000#64, .good⟩).bind
      (fun s => s.process.map fun p => p.heapEnd) = some 0x402000#64 := by decide +kernel
  refine ⟨?_, fun s₁ h₁ => ⟨?_, fun _ _ => trivial⟩⟩
  · rintro p hp -
    obtain rfl := Option.some.inj hp
    decide +kernel
  · rintro p hp -
    rw [h₁, Option.bind_some, hp, Option.map_some, Option.some.injEq] at hgrown
    rw [hgrown]
    decide +kernel

/-- **Shrinking into a page.**  The heap grows by two pages and shrinks by half a page.  The second
page is unmapped, although its lower half still belongs to the heap. -/
theorem shrinking_into_a_page_unmaps_it :
    ¬ ∀ (relock : Bool) (s₀ : Machine) (process : Process),
        s₀.process = some process → process.heapStart.toNat % PAGE_SIZE = 0 →
        process.heapEnd = process.heapStart →
        (∀ q, Intersects q process.heapStart.toNat process.maxHeap.toNat → s₀.mappings q = none) →
        ∀ (calls : List BrkCall) (s : Machine), run (brkStep relock) s₀ calls = some s →
          ∃ p, s.process = some p ∧ HeapExact s p ∧
            ∀ c s', brkStep relock s c = some s' →
              ∃ p', s'.process = some p' ∧ KeepsHeap s s' p p' := by
  intro hall
  have hcomp : (run (brkStep false) (freshMachine 4)
      [⟨0x402000#64, .good⟩, ⟨0x401800#64, .good⟩]).map (fun s => (s.mappings 0x401,
        s.process.map fun p => (p.heapStart, p.heapEnd, p.maxHeap)))
      = some (none, some (0x400000#64, 0x401800#64, 0x500000#64)) := by decide +kernel
  obtain ⟨s, hs, hview⟩ := Option.map_eq_some_iff.mp hcomp
  obtain ⟨p, hp, hexact, -⟩ := hall false (freshMachine 4) _ rfl rfl rfl (fun _ _ => rfl) _ s hs
  rw [hp, Option.map_some] at hview
  simp only [Prod.mk.injEq, Option.some.injEq] at hview
  obtain ⟨hunmapped, hstart, hend, hmax⟩ := hview
  have hiff := hexact 0x401
  rw [hstart, hend, hmax, hunmapped] at hiff
  have harea : Intersects 0x401 (0x400000#64).toNat (0x500000#64).toNat :=
    ⟨0x401000, by decide, by decide, by decide⟩
  have hheap : Intersects 0x401 (0x400000#64).toNat (0x401800#64).toNat :=
    ⟨0x401000, by decide, by decide, by decide⟩
  exact Bool.false_ne_true ((hiff harea).mpr hheap)

end Masika
