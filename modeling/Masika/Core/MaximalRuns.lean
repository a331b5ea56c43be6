import Mathlib.Algebra.Order.BigOperators.Group.Finset
import Mathlib.Algebra.Order.Ring.Nat
import Mathlib.Order.Interval.Finset.Nat
import Masika.Core.Loops

/-!
# Maximal runs

A maximal run of a property of indices below `n` is a row of indices that have it and that cannot be
extended, to the left or to the right.  Every index with the property is in exactly one of them
(`exists_maximalRun`, `MaximalRun.unique`), so that the indices with the property are counted by
adding up the lengths of the runs.

Two loops are about these runs: `countRuns` counts them, with a flag that says whether the last
index was part of a run, and `longestRun` is the greatest length.
-/

namespace Masika

/-- The indices from `s` to `s + len - 1` have the property, and the ones before and after them do
not, if they are below `n`. -/
structure MaximalRun (p : ℕ → Bool) (n s len : ℕ) : Prop where
  pos : 0 < len
  fits : s + len ≤ n
  all : ∀ i, s ≤ i → i < s + len → p i = true
  left : ∀ i, i + 1 = s → p i = false
  right : s + len < n → p (s + len) = false

instance (p : ℕ → Bool) (n s len : ℕ) : Decidable (MaximalRun p n s len) :=
  decidable_of_iff (0 < len ∧ s + len ≤ n ∧ (∀ i < s + len, s ≤ i → p i = true) ∧
      (∀ i < s, i + 1 = s → p i = false) ∧ (s + len < n → p (s + len) = false))
    ⟨fun ⟨hpos, hfits, hall, hleft, hright⟩ => ⟨hpos, hfits, fun i hi hlt => hall i hlt hi,
      fun i hi => hleft i (by omega) hi, hright⟩,
    fun h => ⟨h.pos, h.fits, fun i hlt hi => h.all i hi hlt, fun i _ hi => h.left i hi, h.right⟩⟩

section Runs

variable {p : ℕ → Bool} {n s len s' len' i : ℕ}

/-! ## Every index is in one run -/

/-- The first index of the run that `i` is in. -/
lemma exists_run_start (hi : p i = true) :
    ∃ s ≤ i, (∀ j, s ≤ j → j ≤ i → p j = true) ∧ ∀ j, j + 1 = s → p j = false := by
  induction i with
  | zero =>
    refine ⟨0, Nat.le_refl 0, fun j _ hj => ?_, fun j hj => absurd hj (Nat.succ_ne_zero j)⟩
    rwa [Nat.le_zero.mp hj]
  | succ i ih =>
    cases hprev : p i with
    | false =>
      refine ⟨i + 1, Nat.le_refl _, fun j hj hj' => ?_, fun j hj => ?_⟩
      · rwa [Nat.le_antisymm hj' hj]
      · rwa [Nat.succ.inj hj]
    | true =>
      obtain ⟨s, hs, hall, hleft⟩ := ih hprev
      refine ⟨s, by omega, fun j hj hj' => ?_, hleft⟩
      rcases Nat.lt_or_eq_of_le hj' with hlt | rfl
      · exact hall j hj (by omega)
      · exact hi

/-- The end of the run that `i` is in: the first index after it that is not in it.  The induction is
on the number of indices that are left. -/
lemma exists_run_end (hi : i ≤ n) :
    ∃ e, i ≤ e ∧ e ≤ n ∧ (∀ j, i ≤ j → j < e → p j = true) ∧ (e < n → p e = false) := by
  induction hk : n - i generalizing i with
  | zero => exact ⟨i, Nat.le_refl i, hi, fun j hj hj' => absurd hj (by omega), by omega⟩
  | succ k ih =>
    cases hp : p i with
    | false => exact ⟨i, Nat.le_refl i, hi, fun j hj hj' => absurd hj (by omega), fun _ => hp⟩
    | true =>
      obtain ⟨e, hle, hen, hall, hend⟩ := ih (i := i + 1) (by omega) (by omega)
      refine ⟨e, by omega, hen, fun j hj hj' => ?_, hend⟩
      rcases Nat.lt_or_eq_of_le hj with hlt | rfl
      · exact hall j hlt hj'
      · exact hp

/-- **Every index with the property is in a maximal run.** -/
lemma exists_maximalRun (hn : i < n) (hi : p i = true) :
    ∃ s len, MaximalRun p n s len ∧ s ≤ i ∧ i < s + len := by
  obtain ⟨s, hs, hbefore, hleft⟩ := exists_run_start hi
  obtain ⟨e, hle, hen, hafter, hend⟩ := exists_run_end (p := p) (show i + 1 ≤ n from hn)
  have hlen : s + (e - s) = e := by omega
  refine ⟨s, e - s, ⟨by omega, by omega, fun j hj hj' => ?_, hleft, ?_⟩, hs, by omega⟩
  · rcases Nat.lt_or_ge i j with hlt | hge
    · exact hafter j hlt (by omega)
    · exact hbefore j hj hge
  · rwa [hlen]

/-- A run that shares an index with another row of such indices contains its beginning. -/
lemma MaximalRun.start_le (h : MaximalRun p n s len) (hi : s ≤ i)
    (hall : ∀ j, s' ≤ j → j ≤ i → p j = true) : s ≤ s' := by
  by_contra hlt
  have hfalse := h.left (s - 1) (by omega)
  rw [hall (s - 1) (by omega) (by omega)] at hfalse
  cases hfalse

/-- It also contains its end. -/
lemma MaximalRun.le_end (h : MaximalRun p n s len) (hi : i < s + len) {e : ℕ} (he : e ≤ n)
    (hall : ∀ j, i ≤ j → j < e → p j = true) : e ≤ s + len := by
  by_contra hlt
  have hfalse := h.right (by omega)
  rw [hall (s + len) (by omega) (by omega)] at hfalse
  cases hfalse

/-- **An index is in one run only.** -/
lemma MaximalRun.unique (h : MaximalRun p n s len) (h' : MaximalRun p n s' len') (hi : s ≤ i)
    (hi' : i < s + len) (hj : s' ≤ i) (hj' : i < s' + len') : s = s' ∧ len = len' := by
  have hstart := h.start_le hi fun j hle hle' => h'.all j hle (by omega)
  have hstart' := h'.start_le hj fun j hle hle' => h.all j hle (by omega)
  have hend := h.le_end hi' h'.fits fun j hle hlt => h'.all j (by omega) hlt
  have hend' := h'.le_end hj' h.fits fun j hle hlt => h.all j (by omega) hlt
  omega

/-! ## The set of runs -/

/-- The maximal runs, as pairs of their first index and their length. -/
def maximalRuns (p : ℕ → Bool) (n : ℕ) : Finset (ℕ × ℕ) :=
  (Finset.range n ×ˢ Finset.range (n + 1)).filter fun r => MaximalRun p n r.1 r.2

lemma mem_maximalRuns {r : ℕ × ℕ} : r ∈ maximalRuns p n ↔ MaximalRun p n r.1 r.2 := by
  rw [maximalRuns, Finset.mem_filter, Finset.mem_product, Finset.mem_range, Finset.mem_range]
  refine and_iff_right_of_imp fun h => ?_
  have := h.pos
  have := h.fits
  omega

/-- The indices below `n` with the property. -/
def holding (p : ℕ → Bool) (n : ℕ) : Finset ℕ := (Finset.range n).filter fun i => p i = true

lemma holding_eq_biUnion (p : ℕ → Bool) (n : ℕ) :
    holding p n = (maximalRuns p n).biUnion fun r => Finset.Ico r.1 (r.1 + r.2) := by
  ext i
  rw [holding, Finset.mem_filter, Finset.mem_range, Finset.mem_biUnion]
  simp only [Finset.mem_Ico, mem_maximalRuns]
  constructor
  · rintro ⟨hn, hi⟩
    obtain ⟨s, len, hrun, hs, hlt⟩ := exists_maximalRun hn hi
    exact ⟨(s, len), hrun, hs, hlt⟩
  · rintro ⟨r, hrun, hs, hlt⟩
    exact ⟨hlt.trans_le hrun.fits, hrun.all i hs hlt⟩

/-- **The lengths of the runs add up** to the number of indices with the property. -/
lemma card_holding (p : ℕ → Bool) (n : ℕ) : (holding p n).card = ∑ r ∈ maximalRuns p n, r.2 := by
  rw [holding_eq_biUnion, Finset.card_biUnion]
  · simp
  · intro r hr r' hr' hne
    rw [Function.onFun, Finset.disjoint_left]
    intro i hi hi'
    rw [Finset.mem_Ico] at hi hi'
    obtain ⟨hs, hlen⟩ := (mem_maximalRuns.mp hr).unique (mem_maximalRuns.mp hr') hi.1 hi.2 hi'.1
      hi'.2
    exact hne (Prod.ext hs hlen)

/-! ## The greatest length -/

lemma MaximalRun.le_longestRun (h : MaximalRun p n s len) : len ≤ longestRun p n :=
  (Masika.le_longestRun p n len).mpr ⟨s, h.fits, h.all⟩

/-- The longest run is maximal, too. -/
lemma exists_maximalRun_longest (hpos : 0 < longestRun p n) :
    ∃ s, MaximalRun p n s (longestRun p n) := by
  obtain ⟨s, hfits, hall⟩ := (Masika.le_longestRun p n _).mp (Nat.le_refl (longestRun p n))
  obtain ⟨s', len, hrun, hs, hlt⟩ :=
    exists_maximalRun (show s < n by omega) (hall s (Nat.le_refl s) (by omega))
  have hend := hrun.le_end hlt hfits hall
  have hle := hrun.le_longestRun
  obtain rfl : len = longestRun p n := by omega
  exact ⟨s', hrun⟩

lemma longestRun_pos_iff : 0 < longestRun p n ↔ (maximalRuns p n).Nonempty := by
  constructor
  · intro hpos
    obtain ⟨s, hrun⟩ := exists_maximalRun_longest hpos
    exact ⟨(s, longestRun p n), mem_maximalRuns.mpr hrun⟩
  · rintro ⟨r, hr⟩
    exact (mem_maximalRuns.mp hr).pos.trans_le (mem_maximalRuns.mp hr).le_longestRun

lemma card_holding_le (p : ℕ → Bool) (n : ℕ) :
    (holding p n).card ≤ (maximalRuns p n).card * longestRun p n := by
  rw [card_holding]
  exact Finset.sum_le_card_nsmul _ _ _ fun r hr => (mem_maximalRuns.mp hr).le_longestRun

/-- All runs but the longest have at least one index. -/
lemma le_card_holding (hruns : (maximalRuns p n).Nonempty) :
    (maximalRuns p n).card + longestRun p n ≤ (holding p n).card + 1 := by
  obtain ⟨s, hrun⟩ := exists_maximalRun_longest (longestRun_pos_iff.mpr hruns)
  have hmem : (s, longestRun p n) ∈ maximalRuns p n := mem_maximalRuns.mpr hrun
  have hothers : ((maximalRuns p n).erase (s, longestRun p n)).card ≤
      ∑ r ∈ (maximalRuns p n).erase (s, longestRun p n), r.2 := by
    rw [Finset.card_eq_sum_ones]
    exact Finset.sum_le_sum fun r hr => (mem_maximalRuns.mp (Finset.mem_of_mem_erase hr)).pos
  have hsum := Finset.add_sum_erase (maximalRuns p n) (fun r => r.2) hmem
  rw [Finset.card_erase_of_mem hmem] at hothers
  rw [card_holding]
  have := Finset.card_pos.mpr hruns
  omega

/-! ## Counting runs -/

/-- The body of a loop that counts runs.  It carries the number of runs that have begun, and whether
the last index is in one. -/
def countRun (p : ℕ → Bool) (state : ℕ × Bool) (i : ℕ) : ℕ × Bool :=
  if p i then if !state.2 then (state.1 + 1, true) else state else (state.1, false)

/-- The number of runs below `n`. -/
def countRuns (p : ℕ → Bool) (n : ℕ) : ℕ := ((List.range n).foldl (countRun p) (0, false)).1

/-- The first indices of the runs. -/
def runStarts (p : ℕ → Bool) (n : ℕ) : Finset ℕ :=
  (Finset.range n).filter fun i => p i = true ∧ ∀ j < i, j + 1 = i → p j = false

lemma image_maximalRuns (p : ℕ → Bool) (n : ℕ) :
    (maximalRuns p n).image Prod.fst = runStarts p n := by
  ext s
  simp only [Finset.mem_image, mem_maximalRuns, runStarts, Finset.mem_filter, Finset.mem_range]
  constructor
  · rintro ⟨r, hrun, rfl⟩
    have hpos := hrun.pos
    have hfits := hrun.fits
    exact ⟨by omega, hrun.all r.1 (Nat.le_refl _) (by omega), fun j _ hj => hrun.left j hj⟩
  · rintro ⟨hn, hs, hleft⟩
    obtain ⟨s', len, hrun, hs', hlt⟩ := exists_maximalRun hn hs
    -- a run that contains `s` cannot begin before it
    rcases Nat.lt_or_eq_of_le hs' with hbefore | rfl
    · have hfalse := hleft (s - 1) (by omega) (by omega)
      rw [hrun.all (s - 1) (by omega) (by omega)] at hfalse
      cases hfalse
    · exact ⟨(s', len), hrun, rfl⟩

lemma card_runStarts (p : ℕ → Bool) (n : ℕ) : (runStarts p n).card = (maximalRuns p n).card := by
  rw [← image_maximalRuns, Finset.card_image_of_injOn]
  intro r hr r' hr' hs
  have hrun := mem_maximalRuns.mp hr
  have hrun' := mem_maximalRuns.mp hr'
  have hpos := hrun.pos
  have hpos' := hrun'.pos
  have hfst : r.1 = r'.1 := hs
  obtain ⟨-, hlen⟩ := hrun.unique hrun' (Nat.le_refl r.1) (by omega) hfst.ge (by omega)
  exact Prod.ext hfst hlen

/-- One more index: it may be the first of a run. -/
lemma card_runStarts_succ (p : ℕ → Bool) (k : ℕ) :
    (runStarts p (k + 1)).card = (runStarts p k).card +
      if p k = true ∧ ∀ j < k, j + 1 = k → p j = false then 1 else 0 := by
  rw [runStarts, Finset.range_add_one, Finset.filter_insert]
  split_ifs with hfirst
  · rw [Finset.card_insert_of_notMem (by simp)]
    rfl
  · rfl

/-- What the loop has counted before index `k`. -/
structure StartsCounted (p : ℕ → Bool) (k : ℕ) (state : ℕ × Bool) : Prop where
  count : state.1 = (runStarts p k).card
  inside : state.2 = true ↔ ∃ j, j + 1 = k ∧ p j = true

/-- The flag tells whether a run begins here. -/
lemma StartsCounted.first_iff {k : ℕ} {state : ℕ × Bool} (h : StartsCounted p k state) :
    (∀ j < k, j + 1 = k → p j = false) ↔ state.2 = false := by
  rw [← Bool.not_eq_true, h.inside]
  constructor
  · rintro hleft ⟨j, hj, hp⟩
    rw [hleft j (by omega) hj] at hp
    cases hp
  · intro hno j _ hj
    rw [← Bool.not_eq_true]
    exact fun hp => hno ⟨j, hj, hp⟩

lemma StartsCounted.step {k : ℕ} {state : ℕ × Bool} (h : StartsCounted p k state) :
    StartsCounted p (k + 1) (countRun p state k) := by
  refine ⟨?_, ?_⟩
  · rw [card_runStarts_succ, ← h.count, countRun]
    simp only [h.first_iff]
    cases hp : p k <;> cases hs : state.2 <;> simp
  · have hinside : (∃ j, j + 1 = k + 1 ∧ p j = true) ↔ p k = true := by simp
    rw [hinside, countRun]
    cases hp : p k <;> cases hs : state.2 <;> simp [hs]

/-- **The loop counts the maximal runs.** -/
theorem countRuns_eq_card (p : ℕ → Bool) (n : ℕ) : countRuns p n = (maximalRuns p n).card := by
  have hcounted : StartsCounted p (0 + n) ((List.range n).foldl (countRun p) (0, false)) := by
    refine foldl_range_induction ⟨rfl, by simp⟩ fun i _ state h => ?_
    rw [Nat.zero_add] at h ⊢
    exact h.step
  rw [Nat.zero_add] at hcounted
  rw [countRuns, hcounted.count, card_runStarts]

end Runs

end Masika
