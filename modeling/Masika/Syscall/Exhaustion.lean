import Mathlib.Data.Nat.Find
import Masika.Core.Loops
import Masika.Syscall.PhysicalPages

/-!
# When `allocate_page` gives up

The search of `allocate_page` makes as many iterations as there are pages and goes round once.  An
exchange that fails for no reason costs an iteration and does not move on, so the search can come to
its end before it has taken the free page in front of it, although the next exchange would succeed.

**The search.**  `search_eq_none_iff` says when it finds nothing: from the iteration that reaches
the first free page on, every exchange fails.

**The call.**  `allocatePage_exhausted_iff` says for which states and outcomes of the exchanges the
answer `None` means that every page is allocated.
-/

namespace Masika

namespace PhysicalPageAllocator

/-- The page the search begins with. -/
def firstPage (a : PhysicalPageAllocator) : ℕ :=
  if a.nextFreeHint ≥ a.totalPages then 0 else a.nextFreeHint

/-- The first free page is `d` places after `idx`, round the circle. -/
structure FirstFreePage (a : PhysicalPageAllocator) (idx d : ℕ) : Prop where
  free : getBit a.bitmap ((idx + d) % a.totalPages) = false
  before : ∀ k < d, getBit a.bitmap ((idx + k) % a.totalPages) = true

variable {a : PhysicalPageAllocator}

/-! ## The first free page -/

lemma FirstFreePage.unique {idx d e : ℕ} (hd : a.FirstFreePage idx d) (he : a.FirstFreePage idx e) :
    d = e := by
  rcases lt_trichotomy d e with hlt | heq | hgt
  · exact absurd ((he.before d hlt).symm.trans hd.free) (by simp)
  · exact heq
  · exact absurd ((hd.before e hgt).symm.trans he.free) (by simp)

lemma firstFree_zero {idx : ℕ} :
    a.FirstFreePage idx 0 ↔ getBit a.bitmap (idx % a.totalPages) = false := by
  constructor
  · intro h
    exact h.free
  · intro h
    exact ⟨h, fun k hk => absurd hk (Nat.not_lt_zero k)⟩

/-- After a page that is taken, the search goes on from the next one. -/
lemma firstFree_succ {idx d : ℕ} (htaken : getBit a.bitmap (idx % a.totalPages) = true) :
    a.FirstFreePage idx (d + 1) ↔ a.FirstFreePage (idx % a.totalPages + 1) d := by
  have hplace : ∀ k, (idx % a.totalPages + 1 + k) % a.totalPages
      = (idx + (k + 1)) % a.totalPages := by
    intro k
    rw [Nat.add_assoc, Nat.mod_add_mod, Nat.add_comm 1 k]
  constructor
  · rintro ⟨hfree, hbefore⟩
    refine ⟨by rwa [hplace], fun k hk => ?_⟩
    rw [hplace]
    exact hbefore (k + 1) (by omega)
  · rintro ⟨hfree, hbefore⟩
    refine ⟨by rwa [← hplace], fun k hk => ?_⟩
    cases k with
    | zero => exact htaken
    | succ k =>
      rw [← hplace]
      exact hbefore k (by omega)

/-- Going round once meets every page. -/
lemma exists_firstFree {p : ℕ} (hp : p < a.totalPages) (hfree : getBit a.bitmap p = false)
    (idx : ℕ) : ∃ d < a.totalPages, a.FirstFreePage idx d := by
  have hpos : 0 < a.totalPages := by omega
  have hreach : (idx + placesFrom idx (⟨p, hp⟩ : Fin a.totalPages)) % a.totalPages = p :=
    congrArg Fin.val (circle_placesFrom hpos idx ⟨p, hp⟩)
  have hex : ∃ d, getBit a.bitmap ((idx + d) % a.totalPages) = false :=
    ⟨_, by rw [hreach]; exact hfree⟩
  have hle : Nat.find hex ≤ placesFrom idx (⟨p, hp⟩ : Fin a.totalPages) :=
    Nat.find_min' hex (by rw [hreach]; exact hfree)
  refine ⟨Nat.find hex, lt_of_le_of_lt hle (placesFrom_lt _ _), Nat.find_spec hex, ?_⟩
  intro k hk
  rw [← Bool.not_eq_false]
  exact Nat.find_min hex hk

/-! ## The search -/

lemma normalised_eq_mod {idx : ℕ} (hidx : idx ≤ a.totalPages) :
    (if idx ≥ a.totalPages then 0 else idx) = idx % a.totalPages := by
  split_ifs with h
  · rw [Nat.le_antisymm hidx h, Nat.mod_self]
  · rw [Nat.mod_eq_of_lt (by omega)]

/-- **What the search misses.**  It finds nothing exactly when every exchange fails, from the
iteration that reaches the first free page to the last. -/
theorem search_eq_none_iff (hpos : 0 < a.totalPages) (cas : ℕ → Bool) (left : ℕ) :
    ∀ {i idx : ℕ}, idx ≤ a.totalPages →
      (a.search cas left i idx = none ↔
        ∀ d, a.FirstFreePage idx d → ∀ j, d ≤ j → j < left → cas (i + j) = false) := by
  induction left with
  | zero =>
    intro i idx hidx
    simp [search]
  | succ left ih =>
    intro i idx hidx
    have hq : idx % a.totalPages < a.totalPages := Nat.mod_lt _ hpos
    have hlen : ¬ idx % a.totalPages / 64 ≥ a.bitmapLen := by
      rw [a.len_eq]
      omega
    rw [search, normalised_eq_mod hidx]
    simp only [if_neg hlen, and_mask_eq_zero]
    cases hbit : getBit a.bitmap (idx % a.totalPages) with
    | false =>
      -- the search stays where it is until an exchange succeeds
      have hfirst : a.FirstFreePage idx 0 := firstFree_zero.mpr hbit
      have hstays : a.FirstFreePage (idx % a.totalPages) 0 := by
        rw [firstFree_zero, Nat.mod_mod]
        exact hbit
      rw [if_pos rfl]
      cases hcas : cas i with
      | true =>
        rw [if_pos rfl]
        refine ⟨fun h => absurd h (by simp), fun h => ?_⟩
        have hfails := h 0 hfirst 0 (Nat.le_refl 0) (Nat.succ_pos left)
        rw [Nat.add_zero, hcas] at hfails
        exact absurd hfails (by simp)
      | false =>
        rw [if_neg (by simp), ih (Nat.le_of_lt hq)]
        constructor
        · intro h d hd j hle hlt
          cases j with
          | zero => exact hcas
          | succ j =>
            have hfails := h 0 hstays j (Nat.zero_le j) (by omega)
            rwa [Nat.add_right_comm] at hfails
        · intro h d hd j hle hlt
          have hfails := h 0 hfirst (j + 1) (Nat.zero_le _) (by omega)
          rwa [Nat.add_right_comm]
    | true =>
      rw [if_neg (by simp), ih (Nat.succ_le_of_lt hq)]
      constructor
      · intro h d hd j hle hlt
        cases d with
        | zero => exact absurd (hbit.symm.trans (firstFree_zero.mp hd)) (by simp)
        | succ d =>
          cases j with
          | zero => omega
          | succ j =>
            have hfails := h d ((firstFree_succ hbit).mp hd) j (by omega) (by omega)
            rwa [Nat.add_right_comm] at hfails
      · intro h d hd j hle hlt
        have hfails := h (d + 1) ((firstFree_succ hbit).mpr hd) (j + 1) (by omega) (by omega)
        rwa [Nat.add_right_comm]

lemma search_firstPage (a : PhysicalPageAllocator) (cas : ℕ → Bool) (left i : ℕ) :
    a.search cas left i a.nextFreeHint = a.search cas left i a.firstPage := by
  cases left with
  | zero => rfl
  | succ left =>
    have hfirst : (if a.firstPage ≥ a.totalPages then 0 else a.firstPage) = a.firstPage := by
      rw [firstPage]
      split_ifs <;> rfl
    rw [search, search, hfirst, firstPage]

lemma takePage_eq_none {cas : ℕ → Bool} :
    (a.takePage cas).1 = none ↔ a.search cas a.totalPages 0 a.firstPage = none := by
  rw [takePage, search_firstPage]
  cases a.search cas a.totalPages 0 a.firstPage <;> simp

end PhysicalPageAllocator

/-- **When `None` means that memory is exhausted.**  In every state and for every outcome of the
exchanges: either the lock is held, and the call does not return; or the first free page, if there
is one, lies `d` places after the hint, and one of the exchanges from iteration `d` to the last
succeeds. -/
theorem allocatePage_exhausted_iff (a : PhysicalPageAllocator) (cas : ℕ → Bool) :
    ((∃ a', a.allocatePage cas = some (none, a')) →
        ∀ p < a.totalPages, a.pageAddr p ∈ a.allocated) ↔
      a.lock = true ∨ ∀ d < a.totalPages, a.FirstFreePage a.firstPage d →
        ∃ i, d ≤ i ∧ i < a.totalPages ∧ cas i = true := by
  cases hlock : a.lock with
  | true =>
    refine iff_of_true ?_ (.inl rfl)
    rintro ⟨a', h⟩
    rw [PhysicalPageAllocator.allocatePage, hlock, if_pos rfl] at h
    exact absurd h (by simp)
  | false =>
    have hreturns : (∃ a', a.allocatePage cas = some (none, a')) ↔
        a.search cas a.totalPages 0 a.firstPage = none := by
      rw [PhysicalPageAllocator.allocatePage, hlock, if_neg (by simp),
        ← PhysicalPageAllocator.takePage_eq_none]
      simp [Prod.ext_iff]
    rw [hreturns, or_iff_right (by simp)]
    rcases Nat.eq_zero_or_pos a.totalPages with hzero | hpos
    · rw [hzero]
      simp
    have hfirst : a.firstPage ≤ a.totalPages := by
      rw [PhysicalPageAllocator.firstPage]
      split_ifs <;> omega
    rw [PhysicalPageAllocator.search_eq_none_iff hpos cas _ hfirst]
    constructor
    · intro hsound d hd hfree
      by_contra hfails
      have hnone : ∀ e, a.FirstFreePage a.firstPage e → ∀ j, e ≤ j → j < a.totalPages →
          cas (0 + j) = false := by
        intro e he j hle hlt
        rw [he.unique hfree] at hle
        rw [Nat.zero_add, ← Bool.not_eq_true]
        exact fun hcas => hfails ⟨j, hle, hlt, hcas⟩
      have hp : (a.firstPage + d) % a.totalPages < a.totalPages := Nat.mod_lt _ hpos
      have hset := (PhysicalPageAllocator.pageAddr_mem_allocated hp).mp (hsound hnone _ hp)
      exact absurd (hset.symm.trans hfree.free) (by simp)
    · intro hsucceeds hnone p hp
      rw [PhysicalPageAllocator.pageAddr_mem_allocated hp]
      by_contra hclear
      obtain ⟨d, hd, hfree⟩ := PhysicalPageAllocator.exists_firstFree hp
        (Bool.not_eq_true _ ▸ hclear) a.firstPage
      obtain ⟨i, hle, hlt, hcas⟩ := hsucceeds d hd hfree
      have hfails := hnone d hfree i hle hlt
      rw [Nat.zero_add, hcas] at hfails
      exact absurd hfails (by simp)

/-- One page, and only the first exchange fails: the allocator is as `new` makes it, and the call
returns `None`. -/
theorem onePage_gives_up :
    ∃ a, PhysicalPageAllocator.new 0x1000000 0x1001000 (by decide) = .ok a ∧ a.totalPages = 1 ∧
      (a.allocatePage fun i => decide (i ≠ 0)).map Prod.fst = some none ∧
      a.pageAddr 0 ∉ a.allocated := by
  have hnew := show PhysicalPageAllocator.new 0x1000000 0x1001000 (by decide) = .ok _ from
    dif_neg (by decide)
  refine ⟨_, hnew, by decide, by decide, ?_⟩
  rintro ⟨p, -, -, hbit⟩
  rw [getBit_eq, BitVec.getLsbD_zero] at hbit
  exact absurd hbit (by simp)

end Masika
