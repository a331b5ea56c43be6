import Mathlib.Data.Fin.Basic
import Mathlib.Data.List.Basic
import Mathlib.Tactic.Common

/-!
# Loops with an early exit

`for i in s..e { if .. { return .. } }` is `findSome?` over a range, and `find?` when the index
itself is what the loop is looking for.  The standard library says what `find?` finds in a range;
this file adds the same for `findSome?`, and for `find?` when the indices increase with a stride
(`mem_range'_stride`), or are those of an array, in order or round a circle from some start.  A
loop that keeps the best candidate so far is a `foldl`; it ends with the first of the least ones
(`foldl_keepLeast`).  So is a loop that measures the runs of indices with a property; it ends with
the length of the longest (`le_longestRun`).  A loop that counts is a `countP`; two counts over the
same list, one property stronger than the other, are equal only if the properties agree
(`countP_eq_countP_iff`).
-/

namespace Masika

/-- The loop leaves at the first index at which its body returns. -/
lemma exists_of_findSome?_range' {β : Type*} {body : ℕ → Option β} {b : β} {n : ℕ} :
    ∀ {s : ℕ}, (List.range' s n).findSome? body = some b →
      ∃ i, s ≤ i ∧ i < s + n ∧ body i = some b ∧ ∀ j, s ≤ j → j < i → body j = none := by
  induction n with
  | zero => intro s h; simp at h
  | succ n ih =>
    intro s h
    rw [List.range'_succ, List.findSome?_cons] at h
    cases hs : body s with
    | some c =>
      rw [hs] at h
      exact ⟨s, Nat.le_refl s, by omega, hs.trans h, fun j hj hlt => absurd hj (by omega)⟩
    | none =>
      rw [hs] at h
      obtain ⟨i, hle, hlt, hi, hbefore⟩ := ih h
      refine ⟨i, by omega, by omega, hi, fun j hj hji => ?_⟩
      rcases Nat.eq_or_lt_of_le hj with rfl | hj
      · exact hs
      · exact hbefore j hj hji

/-- The loop runs to its end when its body returns at no index. -/
lemma findSome?_range'_eq_none {β : Type*} {body : ℕ → Option β} {s n : ℕ} :
    (List.range' s n).findSome? body = none ↔ ∀ i, s ≤ i → i < s + n → body i = none := by
  simp only [List.findSome?_eq_none_iff, List.mem_range'_1, and_imp]

/-- The first index of an array with a property. -/
lemma find?_finRange_eq_some {n : ℕ} {p : Fin n → Bool} {i : Fin n} :
    (List.finRange n).find? p = some i ↔ p i = true ∧ ∀ j < i, p j = false := by
  rw [List.find?_eq_some_iff_getElem]
  simp only [List.getElem_finRange, List.length_finRange, Bool.not_eq_true']
  constructor
  · rintro ⟨hi, k, hk, rfl, hbefore⟩
    exact ⟨hi, fun j hj => hbefore j hj⟩
  · rintro ⟨hi, hbefore⟩
    exact ⟨hi, i, i.isLt, rfl, fun j hj => hbefore _ hj⟩

/-- A search through an increasing list finds the least element with the property. -/
lemma find?_eq_some_of_increasing {ι : Type*} [LinearOrder ι] {l : List ι} {p : ι → Bool} {i : ι}
    (hl : l.Pairwise (· < ·)) :
    l.find? p = some i ↔ i ∈ l ∧ p i = true ∧ ∀ j ∈ l, j < i → p j = false := by
  induction l with
  | nil => simp
  | cons a l ih =>
    obtain ⟨hfirst, hl⟩ := List.pairwise_cons.mp hl
    cases ha : p a with
    | true =>
      simp only [List.find?_cons, ha, Option.some.injEq]
      constructor
      · rintro rfl
        refine ⟨List.mem_cons_self, ha, fun j hj hlt => ?_⟩
        rcases List.mem_cons.mp hj with rfl | hj
        · exact absurd hlt (lt_irrefl j)
        · exact absurd hlt (hfirst j hj).asymm
      · rintro ⟨hmem, -, hbefore⟩
        rcases List.mem_cons.mp hmem with rfl | hmem
        · rfl
        · have hfalse := hbefore a List.mem_cons_self (hfirst i hmem)
          rw [ha] at hfalse
          exact absurd hfalse (by simp)
    | false =>
      simp only [List.find?_cons, ha, ih hl, List.mem_cons]
      constructor
      · rintro ⟨hmem, hi, hbefore⟩
        refine ⟨.inr hmem, hi, ?_⟩
        rintro j (rfl | hj) hlt
        · exact ha
        · exact hbefore j hj hlt
      · rintro ⟨rfl | hmem, hi, hbefore⟩
        · rw [ha] at hi
          exact absurd hi (by simp)
        · exact ⟨hmem, hi, fun j hj => hbefore j (.inr hj)⟩

/-- The indices of a loop over `0..bound` with a stride. -/
lemma mem_range'_stride {bound step j : ℕ} (hstep : 0 < step) :
    j ∈ List.range' 0 ((bound + step - 1) / step) step ↔ j < bound ∧ step ∣ j := by
  simp only [List.mem_range', Nat.zero_add]
  constructor
  · rintro ⟨i, hi, rfl⟩
    refine ⟨?_, Nat.dvd_mul_right step i⟩
    have := (Nat.le_div_iff_mul_le hstep).mp hi
    rw [Nat.succ_mul, Nat.mul_comm] at this
    omega
  · rintro ⟨hj, i, rfl⟩
    refine ⟨i, (Nat.le_div_iff_mul_le hstep).mpr ?_, rfl⟩
    rw [Nat.succ_mul, Nat.mul_comm]
    omega

/-- The index that is `i` places after `start`, round the circle. -/
def circle {n : ℕ} (hn : 0 < n) (start i : ℕ) : Fin n := ⟨(start + i) % n, Nat.mod_lt _ hn⟩

/-- How many places `j` is after `start`. -/
def placesFrom {n : ℕ} (start : ℕ) (j : Fin n) : ℕ := (j.val + n - start % n) % n

lemma placesFrom_lt {n : ℕ} (start : ℕ) (j : Fin n) : placesFrom start j < n :=
  Nat.mod_lt _ j.pos

lemma circle_placesFrom {n : ℕ} (hn : 0 < n) (start : ℕ) (j : Fin n) :
    circle hn start (placesFrom start j) = j := by
  apply Fin.ext
  have hstart := Nat.mod_lt start hn
  have hsum : start % n + (j.val + n - start % n) = j.val + n := by omega
  rw [circle, placesFrom]
  simp only
  rw [Nat.add_mod_mod, ← Nat.mod_add_mod, hsum, Nat.add_mod_right, Nat.mod_eq_of_lt j.isLt]

lemma placesFrom_circle {n : ℕ} (hn : 0 < n) (start : ℕ) {i : ℕ} (hi : i < n) :
    placesFrom start (circle hn start i) = i := by
  have hstart := Nat.mod_lt start hn
  rw [circle, placesFrom]
  simp only
  rw [← Nat.mod_add_mod]
  rcases lt_or_ge (start % n + i) n with hlt | hge
  · rw [Nat.mod_eq_of_lt hlt, show start % n + i + n - start % n = i + n by omega,
      Nat.add_mod_right, Nat.mod_eq_of_lt hi]
  · rw [Nat.mod_eq_sub_mod hge, Nat.mod_eq_of_lt (show start % n + i - n < n by omega),
      show start % n + i - n + n - start % n = i by omega, Nat.mod_eq_of_lt hi]

/-- The first index with a property, round the circle from `start`. -/
lemma find?_circle_eq_some {n : ℕ} (hn : 0 < n) {start : ℕ} {p : Fin n → Bool} {j : Fin n} :
    ((List.range n).map (circle hn start)).find? p = some j ↔
      p j = true ∧ ∀ k, placesFrom start k < placesFrom start j → p k = false := by
  rw [List.find?_eq_some_iff_getElem]
  simp only [List.getElem_map, List.getElem_range, List.length_map, List.length_range,
    Bool.not_eq_true']
  constructor
  · rintro ⟨hj, i, hi, rfl, hbefore⟩
    refine ⟨hj, fun k hk => ?_⟩
    rw [placesFrom_circle hn start hi] at hk
    rw [← circle_placesFrom hn start k]
    exact hbefore _ hk
  · rintro ⟨hj, hbefore⟩
    refine ⟨hj, placesFrom start j, placesFrom_lt start j, circle_placesFrom hn start j, ?_⟩
    intro i hi
    refine hbefore _ ?_
    rwa [placesFrom_circle hn start (hi.trans (placesFrom_lt start j))]

lemma find?_circle_eq_none {n : ℕ} (hn : 0 < n) {start : ℕ} {p : Fin n → Bool} :
    ((List.range n).map (circle hn start)).find? p = none ↔ ∀ j, p j = false := by
  simp only [List.find?_eq_none, List.mem_map, List.mem_range, Bool.not_eq_true]
  constructor
  · intro h j
    exact h j ⟨placesFrom start j, placesFrom_lt start j, circle_placesFrom hn start j⟩
  · intro h j _
    exact h j

/-- The body of a loop that keeps the best candidate so far. -/
def keepLeast {ι κ γ : Type*} [LinearOrder κ] (rank : γ → κ) (candidate : ι → Option γ) (best : γ)
    (i : ι) : γ :=
  (candidate i).elim best fun c => if rank c < rank best then c else best

/-- **The loop ends with the first of the least candidates**, if there is one that is less than
what it started with. -/
lemma foldl_keepLeast {ι κ γ : Type*} [LinearOrder ι] [LinearOrder κ] (rank : γ → κ)
    (candidate : ι → Option γ) {is : List ι} (his : is.Pairwise (· < ·)) (best : γ) :
    (is.foldl (keepLeast rank candidate) best = best ∧
        ∀ i ∈ is, ∀ c, candidate i = some c → rank best ≤ rank c) ∨
      ∃ i ∈ is, ∃ c, candidate i = some c ∧ rank c < rank best ∧
        is.foldl (keepLeast rank candidate) best = c ∧
        ∀ j ∈ is, ∀ d, candidate j = some d → rank c ≤ rank d ∧ (j < i → rank c < rank d) := by
  induction is generalizing best with
  | nil => exact .inl ⟨rfl, by simp⟩
  | cons i is ih =>
    obtain ⟨hfirst, his⟩ := List.pairwise_cons.mp his
    rw [List.foldl_cons]
    -- what the first index does to the best so far
    have hi :
        (keepLeast rank candidate best i = best ∧
          ∀ c, candidate i = some c → rank best ≤ rank c) ∨
        ∃ c, candidate i = some c ∧ rank c < rank best ∧ keepLeast rank candidate best i = c := by
      rw [keepLeast]
      cases hc : candidate i with
      | none => exact .inl ⟨rfl, by simp⟩
      | some c =>
        by_cases hlt : rank c < rank best
        · exact .inr ⟨c, rfl, hlt, if_pos hlt⟩
        · refine .inl ⟨if_neg hlt, ?_⟩
          rintro d ⟨⟩
          exact not_lt.mp hlt
    rcases ih his (keepLeast rank candidate best i) with
      ⟨hfold, hnone⟩ | ⟨j, hj, c, hcj, hlt, hfold, hleast⟩
    · rw [hfold]
      rcases hi with ⟨heq, hle⟩ | ⟨c, hci, hlt, heq⟩
      · rw [heq] at hnone ⊢
        refine .inl ⟨rfl, fun k hk => ?_⟩
        rcases List.mem_cons.mp hk with rfl | hk
        · exact hle
        · exact hnone k hk
      · rw [heq] at hnone ⊢
        refine .inr ⟨i, List.mem_cons_self, c, hci, hlt, rfl, fun k hk d hd => ?_⟩
        rcases List.mem_cons.mp hk with rfl | hk
        · rw [hci, Option.some.injEq] at hd
          exact ⟨hd ▸ le_refl _, fun h => absurd h (lt_irrefl _)⟩
        · exact ⟨hnone k hk d hd, fun h => absurd h (hfirst k hk).not_gt⟩
    · rw [hfold]
      -- the candidate of the first index is greater, if it has one
      have hless : rank c < rank best ∧ ∀ d, candidate i = some d → rank c < rank d := by
        rcases hi with ⟨heq, hle⟩ | ⟨d, hdi, hdlt, heq⟩
        · rw [heq] at hlt
          exact ⟨hlt, fun d hd => hlt.trans_le (hle d hd)⟩
        · rw [heq] at hlt
          refine ⟨hlt.trans hdlt, fun d' hd' => ?_⟩
          rw [hdi, Option.some.injEq] at hd'
          rwa [← hd']
      refine .inr ⟨j, List.mem_cons_of_mem i hj, c, hcj, hless.1, rfl, fun k hk d hd => ?_⟩
      rcases List.mem_cons.mp hk with rfl | hk
      · exact ⟨(hless.2 d hd).le, fun _ => hless.2 d hd⟩
      · exact hleast k hk d hd

/-- Two counts, of which one counts whatever the other does: they agree when nothing is counted by
one of them only. -/
lemma countP_eq_countP_iff {γ : Type*} {p q : γ → Bool} (hpq : ∀ x, p x = true → q x = true)
    {l : List γ} : l.countP p = l.countP q ↔ ∀ x ∈ l, q x = true → p x = true := by
  induction l with
  | nil => simp
  | cons x l ih =>
    have hle : l.countP p ≤ l.countP q := List.countP_mono_left fun x _ => hpq x
    rw [List.countP_cons, List.countP_cons, List.forall_mem_cons, ← ih]
    cases hp : p x with
    | true => simp [hpq x hp]
    | false =>
      cases hq : q x with
      | true =>
        have hlt : l.countP p ≠ l.countP q + 1 := by omega
        simp [hlt]
      | false => simp

/-- **The loop rule.**  What holds of the state before the first pass, and is kept by the `i`-th,
holds after the last one; `k` is how far earlier loops have come. -/
lemma foldl_range_induction {σ : Type*} {P : ℕ → σ → Prop} {body : σ → ℕ → σ} {k n : ℕ} {s : σ}
    (hstart : P k s) (hstep : ∀ i < n, ∀ s, P (k + i) s → P (k + i + 1) (body s i)) :
    P (k + n) ((List.range n).foldl body s) := by
  induction n with
  | zero => exact hstart
  | succ n ih =>
    rw [List.range_succ, List.foldl_append]
    exact hstep n (Nat.lt_succ_self n) _ (ih fun i hi => hstep i (hi.trans (Nat.lt_succ_self n)))

/-! ## Runs of indices -/

/-- Somewhere below `n` there are `count` indices in a row with the property. -/
def HasRun (p : ℕ → Bool) (n count : ℕ) : Prop :=
  ∃ s, s + count ≤ n ∧ ∀ i, s ≤ i → i < s + count → p i = true

/-- The last `count` indices below `n` have the property. -/
def EndsInRun (p : ℕ → Bool) (n count : ℕ) : Prop :=
  count ≤ n ∧ ∀ i, n ≤ i + count → i < n → p i = true

/-- The body of a loop that measures runs.  It carries the length of the longest run that has ended,
and of the one that has not. -/
def measureRun (p : ℕ → Bool) (lengths : ℕ × ℕ) (i : ℕ) : ℕ × ℕ :=
  if p i then (lengths.1, lengths.2 + 1)
  else (if lengths.2 > lengths.1 then lengths.2 else lengths.1, 0)

/-- The length of the longest run below `n`. -/
def longestRun (p : ℕ → Bool) (n : ℕ) : ℕ :=
  let lengths := (List.range n).foldl (measureRun p) (0, 0)
  if lengths.2 > lengths.1 then lengths.2 else lengths.1

/-- A run below `n + 1` lies below `n`, or it ends at `n`. -/
lemma hasRun_succ {p : ℕ → Bool} {n count : ℕ} :
    HasRun p (n + 1) count ↔ HasRun p n count ∨ EndsInRun p (n + 1) count := by
  constructor
  · rintro ⟨s, hfits, hrun⟩
    rcases Nat.lt_or_eq_of_le hfits with hlt | heq
    · exact .inl ⟨s, by omega, hrun⟩
    · exact .inr ⟨by omega, fun i hi hlt => hrun i (by omega) (by omega)⟩
  · rintro (⟨s, hfits, hrun⟩ | ⟨hfits, hrun⟩)
    · exact ⟨s, by omega, hrun⟩
    · exact ⟨n + 1 - count, by omega, fun i hi hlt => hrun i (by omega) (by omega)⟩

lemma endsInRun_succ {p : ℕ → Bool} {n count : ℕ} :
    EndsInRun p (n + 1) (count + 1) ↔ p n = true ∧ EndsInRun p n count := by
  constructor
  · rintro ⟨hfits, hrun⟩
    exact ⟨hrun n (by omega) (by omega), by omega, fun i hi hlt => hrun i (by omega) (by omega)⟩
  · rintro ⟨hn, hfits, hrun⟩
    refine ⟨by omega, fun i hi hlt => ?_⟩
    rcases Nat.lt_or_eq_of_le (Nat.lt_succ_iff.mp hlt) with hlt | rfl
    · exact hrun i (by omega) hlt
    · exact hn

/-- What the loop carries, after the indices below `n`. -/
structure Measured (p : ℕ → Bool) (n : ℕ) (lengths : ℕ × ℕ) : Prop where
  last : ∀ count, EndsInRun p n count ↔ count ≤ lengths.2
  all : ∀ count, HasRun p n count ↔ count ≤ max lengths.1 lengths.2

lemma measured_zero (p : ℕ → Bool) : Measured p 0 (0, 0) where
  last count := ⟨fun h => h.1, fun h => ⟨h, fun i _ hi => absurd hi (by omega)⟩⟩
  all count := by
    constructor
    · rintro ⟨s, hfits, -⟩
      simp only [Nat.max_self]
      omega
    · intro h
      rw [Nat.max_self] at h
      exact ⟨0, by omega, fun i _ hi => absurd hi (by omega)⟩

lemma Measured.step {p : ℕ → Bool} {n : ℕ} {lengths : ℕ × ℕ} (h : Measured p n lengths) :
    Measured p (n + 1) (measureRun p lengths n) := by
  -- how far back the run goes that ends at `n`
  have hlast : ∀ count, EndsInRun p (n + 1) count ↔ count ≤ (measureRun p lengths n).2 := by
    intro count
    cases count with
    | zero =>
      simp only [Nat.zero_le, iff_true]
      exact ⟨Nat.zero_le _, fun i hi hlt => absurd hi (by omega)⟩
    | succ count =>
      rw [endsInRun_succ, h.last, measureRun]
      cases hn : p n with
      | true => simp
      | false => simp
  refine ⟨hlast, fun count => ?_⟩
  rw [hasRun_succ, h.all, hlast, measureRun]
  split_ifs <;> simp only <;> omega

/-- **The loop finds the longest run**: there is a run of some length exactly when that length is at
most the result. -/
theorem le_longestRun (p : ℕ → Bool) (n count : ℕ) : count ≤ longestRun p n ↔ HasRun p n count := by
  have hmeasured := foldl_range_induction (P := Measured p) (k := 0) (n := n) (measured_zero p)
    fun i _ lengths h => by
      rw [Nat.zero_add] at h ⊢
      exact h.step
  rw [Nat.zero_add] at hmeasured
  rw [hmeasured.all, longestRun]
  split_ifs <;> omega

end Masika
