import Masika.Core.Extents
import Masika.Core.Runs
import Masika.Syscall.Machine

/-!
# The ranges a process is given

`PageAllocator` moves `current` forward and never back, so the ranges that `allocate_pages` returns
should follow each other inside the heap.  The calls of all clients are taken in the order in which
they get the lock.  Beside the allocator the ranges are recorded as the clients understand them,
with `count * 4096` bytes over the natural numbers.

The size is multiplied without a check, and the sum saturates.  So there are two ways in which a
range goes wrong:

* the size wraps, and a huge request is granted as a small one;
* the heap reaches to `usize::MAX`, where no request is refused any more, and after a range that
  ends beyond it `current` lags behind.

`bumpRanges_sound_iff` says which requests are harmless, for every heap and every sequence.
-/

namespace Masika

open PageAllocator

/-- The allocator, and the ranges of bytes it has handed out, the latest first. -/
structure Bump where
  allocator : PageAllocator
  granted : List Extent

namespace Bump

/-- A new allocator. -/
def start (heapStart heapSize : U64) : Bump := ⟨PageAllocator.new heapStart heapSize, []⟩

/-- What the caller of `allocate_pages` is given. -/
def grant (granted : List Extent) (count : U64) : Option U64 → List Extent
  | none => granted
  | some addr => ⟨addr.toNat, count.toNat * PAGE_SIZE⟩ :: granted

/-- One request. -/
def step (s : Bump) (count : U64) : Option Bump :=
  (s.allocator.allocatePages count.toNat).map fun result =>
    ⟨result.2, grant s.granted count result.1⟩

/-- The ranges are pairwise disjoint and inside the heap. -/
structure Sound (heapStart heapSize : U64) (s : Bump) : Prop where
  apart : Extent.Apart s.granted
  inside : ∀ e ∈ s.granted,
    heapStart.toNat ≤ e.start ∧ e.start + e.count ≤ heapStart.toNat + heapSize.toNat

/-- The request is refused: it is empty, or the heap ends below `usize::MAX` and the sum, with the
wrapped size, is beyond its end. -/
def Refuses (heapStart heapSize : U64) (s : Bump) (count : U64) : Prop :=
  count.toNat = 0 ∨
    heapStart.toNat + heapSize.toNat < 2 ^ 64 - 1 ∧
      heapStart.toNat + heapSize.toNat
        < s.allocator.current.toNat + wrap (count.toNat * PAGE_SIZE)

/-- The request is refused, or what it asks for is left, and no earlier range ends beyond the
address space. -/
def SafeRequest (heapStart heapSize : U64) (s : Bump) (count : U64) : Prop :=
  s.Refuses heapStart heapSize count ∨
    s.allocator.current.toNat + count.toNat * PAGE_SIZE ≤ heapStart.toNat + heapSize.toNat ∧
      ∀ e ∈ s.granted, e.start + e.count < 2 ^ 64

/-! ## One request -/

/-- What holds after any requests.  `current` is behind the end of a range only if the size of the
range wrapped, or the range ends beyond the address space. -/
structure Valid (heapStart heapSize : U64) (s : Bump) : Prop where
  unlocked : s.allocator.lock = false
  limit : s.allocator.endAddr.toNat = saturatingAdd heapStart.toNat heapSize.toNat
  above : heapStart.toNat ≤ s.allocator.current.toNat
  nonempty : ∀ e ∈ s.granted, 0 < e.count
  begun : ∀ e ∈ s.granted, e.start ≤ s.allocator.current.toNat
  passed : ∀ e ∈ s.granted, e.count < 2 ^ 64 →
    saturatingAdd e.start e.count ≤ s.allocator.current.toNat

variable {heapStart heapSize : U64} {s : Bump} {count : U64}

/-- The state after a request that is granted. -/
def granting (s : Bump) (count : U64) : Bump :=
  ⟨{ s.allocator with
      current := BitVec.ofNat 64
        (saturatingAdd s.allocator.current.toNat (wrap (count.toNat * PAGE_SIZE)))
      lock := false },
    ⟨s.allocator.current.toNat, count.toNat * PAGE_SIZE⟩ :: s.granted⟩

lemma saturatingAdd_lt (a b : ℕ) : saturatingAdd a b < 2 ^ 64 := by
  rw [saturatingAdd]
  omega

lemma granting_current (s : Bump) (count : U64) :
    (s.granting count).allocator.current.toNat
      = saturatingAdd s.allocator.current.toNat (wrap (count.toNat * PAGE_SIZE)) := by
  rw [granting, BitVec.toNat_ofNat, Nat.mod_eq_of_lt (saturatingAdd_lt _ _)]

/-- **A request is refused and changes nothing, or it is granted.** -/
lemma Valid.step_eq (h : s.Valid heapStart heapSize) (count : U64) :
    s.Refuses heapStart heapSize count ∧ s.step count = some s ∨
      ¬ s.Refuses heapStart heapSize count ∧ s.step count = some (s.granting count) := by
  have hunlocked : { s.allocator with lock := false } = s.allocator := by
    rw [← h.unlocked]
  rw [step, allocatePages]
  by_cases hzero : count.toNat = 0
  · rw [if_pos hzero]
    exact .inl ⟨.inl hzero, rfl⟩
  · rw [if_neg hzero, h.unlocked, if_neg (by simp), claimPages]
    have hrefuse : saturatingAdd s.allocator.current.toNat (wrap (count.toNat * PAGE_SIZE))
        > s.allocator.endAddr.toNat ↔ s.Refuses heapStart heapSize count := by
      rw [h.limit, Refuses, saturatingAdd, saturatingAdd, or_iff_right hzero]
      omega
    split_ifs with hlimit
    · refine .inl ⟨hrefuse.mp hlimit, ?_⟩
      rw [hunlocked]
      rfl
    · exact .inr ⟨fun hno => hlimit (hrefuse.mpr hno), rfl⟩

lemma valid_start (heapStart heapSize : U64) :
    (start heapStart heapSize).Valid heapStart heapSize where
  unlocked := rfl
  limit := by
    rw [start, PageAllocator.new, BitVec.toNat_ofNat, Nat.mod_eq_of_lt (saturatingAdd_lt _ _)]
  above := Nat.le_refl _
  nonempty := by simp [start]
  begun := by simp [start]
  passed := by simp [start]

/-- A grant moves `current` forward, and past the new range unless its size wrapped. -/
lemma Valid.granting (h : s.Valid heapStart heapSize) (hcount : count.toNat ≠ 0) :
    (s.granting count).Valid heapStart heapSize := by
  have hcurrent := s.granting_current count
  have hlt := s.allocator.current.isLt
  have hforward : s.allocator.current.toNat ≤ (s.granting count).allocator.current.toNat := by
    rw [hcurrent, saturatingAdd]
    omega
  refine ⟨rfl, h.limit, h.above.trans hforward, ?_, ?_, ?_⟩
  · rintro e (_ | ⟨_, he⟩)
    · exact Nat.mul_pos (Nat.pos_of_ne_zero hcount) (by decide)
    · exact h.nonempty e he
  · rintro e (_ | ⟨_, he⟩)
    · exact hforward
    · exact (h.begun e he).trans hforward
  · rintro e (_ | ⟨_, he⟩) hsize
    · rw [hcurrent, wrap_of_lt hsize]
    · exact (h.passed e he hsize).trans hforward

lemma Valid.step {s' : Bump} (h : s.Valid heapStart heapSize) (hstep : s.step count = some s') :
    s'.Valid heapStart heapSize := by
  rcases h.step_eq count with ⟨-, heq⟩ | ⟨hgrants, heq⟩
  · rw [heq, Option.some.injEq] at hstep
    rwa [← hstep]
  · rw [heq, Option.some.injEq] at hstep
    rw [← hstep]
    exact h.granting fun hzero => hgrants (.inl hzero)

/-! ## Which requests are harmless -/

/-- A new range is disjoint from an earlier one if that one ends inside the address space. -/
lemma Valid.disjoint_iff (h : s.Valid heapStart heapSize) (hcount : count.toNat ≠ 0) {e : Extent}
    (he : e ∈ s.granted) (hsize : e.count < 2 ^ 64) :
    Disjoint (⟨s.allocator.current.toNat, count.toNat * PAGE_SIZE⟩ : Extent).frames e.frames ↔
      e.start + e.count < 2 ^ 64 := by
  have hpos : 0 < count.toNat * PAGE_SIZE :=
    Nat.mul_pos (Nat.pos_of_ne_zero hcount) (by decide)
  have hbegun := h.begun e he
  have hpassed := h.passed e he hsize
  have hlt := s.allocator.current.isLt
  rw [Extent.disjoint_frames_iff hpos (h.nonempty e he)]
  rw [saturatingAdd] at hpassed
  simp only
  omega

lemma Sound.size_lt (h : s.Sound heapStart heapSize) {e : Extent} (he : e ∈ s.granted) :
    e.count < 2 ^ 64 := by
  have hinside := h.inside e he
  have hlt := heapSize.isLt
  omega

lemma sound_granting_iff (h : s.Valid heapStart heapSize) (hs : s.Sound heapStart heapSize)
    (hcount : count.toNat ≠ 0) :
    (s.granting count).Sound heapStart heapSize ↔
      s.allocator.current.toNat + count.toNat * PAGE_SIZE ≤ heapStart.toNat + heapSize.toNat ∧
        ∀ e ∈ s.granted, e.start + e.count < 2 ^ 64 := by
  constructor
  · rintro ⟨hapart, hinside⟩
    refine ⟨(hinside _ List.mem_cons_self).2, fun e he => ?_⟩
    rw [← h.disjoint_iff hcount he (hs.size_lt he)]
    exact (List.pairwise_cons.mp hapart).1 e he
  · rintro ⟨hfits, hends⟩
    constructor
    · refine List.pairwise_cons.mpr ⟨fun e he => ?_, hs.apart⟩
      exact (h.disjoint_iff hcount he (hs.size_lt he)).mpr (hends e he)
    · rintro e (_ | ⟨_, he⟩)
      · exact ⟨h.above, hfits⟩
      · exact hs.inside e he

lemma harmless_iff (h : s.Valid heapStart heapSize) (hs : s.Sound heapStart heapSize)
    (count : U64) :
    s.SafeRequest heapStart heapSize count ↔
      ∀ s', s.step count = some s' → s'.Sound heapStart heapSize := by
  rcases h.step_eq count with ⟨hrefuses, heq⟩ | ⟨hgrants, heq⟩
  · refine iff_of_true (.inl hrefuses) fun s' hs' => ?_
    rw [heq, Option.some.injEq] at hs'
    rwa [← hs']
  · have hcount : count.toNat ≠ 0 := fun hzero => hgrants (.inl hzero)
    rw [SafeRequest, or_iff_right hgrants, ← sound_granting_iff h hs hcount, heq]
    simp

/-- A range that is unsound stays so. -/
lemma sound_of_step {s' : Bump} (hstep : s.step count = some s')
    (hs : s'.Sound heapStart heapSize) : s.Sound heapStart heapSize := by
  obtain ⟨⟨answer, p⟩, -, rfl⟩ := Option.map_eq_some_iff.mp hstep
  cases answer with
  | none => exact ⟨hs.apart, hs.inside⟩
  | some addr =>
    exact ⟨(List.pairwise_cons.mp hs.apart).2,
      fun e he => hs.inside e (List.mem_cons_of_mem _ he)⟩

end Bump

lemma PageAllocator.allocatePages_none {p p' : PageAllocator} {count : ℕ}
    (h : p.allocatePages count = some (none, p')) : p'.current = p.current := by
  rw [allocatePages, claimPages] at h
  split_ifs at h with hzero hlock hlimit
  · rw [Option.some.injEq, Prod.mk.injEq] at h
    rw [← h.2]
  · rw [Option.some.injEq, Prod.mk.injEq] at h
    rw [← h.2]
  · simp at h

/-- **When the ranges are disjoint and in bounds.**  For every heap and every sequence of requests
the calls return, and the ranges they return are pairwise disjoint and inside the heap exactly when
each request, in the state in which it gets the lock, is refused, or asks for no more than what is
left while no earlier range ends beyond the address space.  `None` always leaves `current` alone. -/
theorem bumpRanges_sound_iff (heapStart heapSize : U64) (counts : List U64) :
    ∃ s, run Bump.step (Bump.start heapStart heapSize) counts = some s ∧
      (s.Sound heapStart heapSize ↔
        Meets (Bump.SafeRequest heapStart heapSize) Bump.step (.start heapStart heapSize) counts) ∧
      ∀ (p p' : PageAllocator) (count : ℕ),
        p.allocatePages count = some (none, p') → p'.current = p.current := by
  have hstart := Bump.valid_start heapStart heapSize
  have hempty : (Bump.start heapStart heapSize).Sound heapStart heapSize :=
    ⟨List.Pairwise.nil, by simp [Bump.start]⟩
  obtain ⟨s, hrun, -⟩ : ∃ s, run Bump.step (Bump.start heapStart heapSize) counts = some s ∧
      s.Valid heapStart heapSize := by
    refine run_total_of_meets (fun s count h _ => ?_) hstart
      (meets_of_forall (fun _ _ => trivial) counts _)
    rcases h.step_eq count with ⟨-, heq⟩ | ⟨-, heq⟩
    · exact ⟨_, heq, h.step heq⟩
    · exact ⟨_, heq, h.step heq⟩
  refine ⟨s, hrun, ?_, fun p p' count => allocatePages_none⟩
  rw [← always_iff_last (fun _ _ _ => Bump.sound_of_step) hrun]
  exact always_iff_meets (fun _ _ _ h hstep => h.step hstep)
    (fun s count h hs => Bump.harmless_iff h hs count) hstart hempty

/-- A request for 2⁵² pages is granted as one for none, in a heap of one megabyte; and in a heap
at the end of the address space two requests are given ranges that overlap. -/
theorem huge_and_last_ranges :
    (∃ s, run Bump.step (Bump.start 0x400000#64 0x100000#64) [0x10000000000000#64] = some s ∧
      ¬ s.Sound 0x400000#64 0x100000#64) ∧
    ∃ s, run Bump.step (Bump.start 0xFFFFFFFFFFFFF000#64 0x1000#64) [1#64, 1#64] = some s ∧
      ¬ s.Sound 0xFFFFFFFFFFFFF000#64 0x1000#64 := by
  refine ⟨⟨_, rfl, fun h => ?_⟩, ⟨_, rfl, fun h => ?_⟩⟩
  · have hinside := (h.inside ⟨0x400000, 0x10000000000000000⟩ (by decide)).2
    exact absurd hinside (by decide)
  · have hdisjoint := (List.pairwise_cons.mp h.apart).1
      ⟨0xFFFFFFFFFFFFF000, 0x1000⟩ (by decide)
    rw [Extent.disjoint_frames_iff (by decide) (by decide)] at hdisjoint
    exact absurd hdisjoint (by decide)

end Masika
