import Mathlib.Data.Finset.Card
import Mathlib.Logic.Function.Iterate
import Mathlib.Order.Interval.Finset.Nat
import Masika.Core.Loops

/-!
# Orbits that take turns

A deterministic step `f` is iterated from `c`.  When does it visit the elements of a finite set `Q`
in turns, each one exactly once in any `Q.card` consecutive steps?  When the elements can be listed
in a circle in which `f` leads from each one to the following one, and the first step leads into the
circle (`takesTurns_iff`).
-/

namespace Masika

variable {α : Type*} {f : α → α} {c : α} {Q : Finset α} {e : ℕ → α}

/-- Any `Q.card` consecutive iterates contain each element of `Q` exactly once. -/
def TakesTurns (f : α → α) (c : α) (Q : Finset α) : Prop :=
  ∀ m, ∀ r ∈ Q, ∃! k, (m < k ∧ k ≤ m + Q.card) ∧ f^[k] c = r

/-- `e 0`, `e 1`, .. are the elements of `Q`, each one once, and then comes `e 0` again. -/
structure Circular (Q : Finset α) (e : ℕ → α) : Prop where
  mem : ∀ k < Q.card, e k ∈ Q
  once : ∀ r ∈ Q, ∃! k, k < Q.card ∧ e k = r
  closed : e Q.card = e 0

lemma Circular.inj (h : Circular Q e) {k k' : ℕ} (hk : k < Q.card) (hk' : k' < Q.card)
    (heq : e k = e k') : k = k' :=
  (h.once (e k') (h.mem k' hk')).unique ⟨hk, heq⟩ ⟨hk', rfl⟩

/-- Only in a circle of one an element follows itself. -/
lemma Circular.card_eq_one (h : Circular Q e) {k : ℕ} (hk : k < Q.card) (heq : e (k + 1) = e k) :
    Q.card = 1 := by
  rcases lt_or_ge (k + 1) Q.card with hlt | hge
  · have hsame := h.inj hlt hk heq
    omega
  · obtain hlast : k + 1 = Q.card := by omega
    rw [hlast, h.closed] at heq
    have hsame := h.inj (by omega) hk heq
    omega

/-- The iterates run round the circle. -/
lemma Circular.iterate (h : Circular Q e) (hstep : ∀ k < Q.card, f (e k) = e (k + 1)) {j : ℕ}
    (hj : j < Q.card) (hc : f c = e j) (k : ℕ) : f^[k + 1] c = e ((j + k) % Q.card) := by
  induction k with
  | zero => rw [Function.iterate_one, hc, Nat.add_zero j, Nat.mod_eq_of_lt hj]
  | succ k ih =>
    have hpos : 0 < Q.card := by omega
    have hlt := Nat.mod_lt (j + k) hpos
    rw [Function.iterate_succ_apply', ih, hstep _ hlt, ← Nat.add_assoc,
      ← Nat.mod_add_mod (j + k)]
    rcases lt_or_ge ((j + k) % Q.card + 1) Q.card with hnext | hlast
    · rw [Nat.mod_eq_of_lt hnext]
    · have heq : (j + k) % Q.card + 1 = Q.card := by omega
      rw [heq, h.closed, Nat.mod_self]

lemma Circular.takesTurns (h : Circular Q e) (hstep : ∀ k < Q.card, f (e k) = e (k + 1))
    (hc : f c ∈ Q) : TakesTurns f c Q := by
  obtain ⟨j, ⟨hj, hcj⟩, -⟩ := h.once (f c) hc
  have hpos : 0 < Q.card := by omega
  have hiter := h.iterate hstep hj hcj.symm
  intro m r hr
  obtain ⟨i, ⟨hi, rfl⟩, -⟩ := h.once r hr
  -- the place of `e i`, counted from the one that the window starts with
  refine ⟨m + placesFrom (j + m) ⟨i, hi⟩ + 1, ⟨?_, ?_⟩, ?_⟩
  · have hlt := placesFrom_lt (j + m) ⟨i, hi⟩
    omega
  · rw [hiter, ← Nat.add_assoc]
    have hplace := congrArg Fin.val (circle_placesFrom hpos (j + m) ⟨i, hi⟩)
    rw [circle] at hplace
    exact congrArg e hplace
  · rintro k' ⟨⟨hgt, hle⟩, heq⟩
    obtain ⟨d, rfl⟩ : ∃ d, k' = m + d + 1 := ⟨k' - m - 1, by omega⟩
    rw [hiter, ← Nat.add_assoc] at heq
    have hsame := h.inj (Nat.mod_lt _ hpos) hi heq
    have hplace : circle hpos (j + m) d = ⟨i, hi⟩ := Fin.ext hsame
    rw [← hplace, placesFrom_circle hpos (j + m) (by omega)]

/-- The first window contains nothing but the elements of `Q`. -/
lemma TakesTurns.mem (h : TakesTurns f c Q) {k : ℕ} (hk : k < Q.card) : f^[k + 1] c ∈ Q := by
  classical
  have hsub : Q ⊆ (Finset.range Q.card).image fun k => f^[k + 1] c := by
    intro r hr
    obtain ⟨k, ⟨⟨hgt, hle⟩, hkr⟩, -⟩ := h 0 r hr
    refine Finset.mem_image.mpr ⟨k - 1, Finset.mem_range.mpr (by omega), ?_⟩
    rw [Nat.sub_add_cancel hgt, hkr]
  have hcard : ((Finset.range Q.card).image fun k => f^[k + 1] c).card ≤ Q.card := by
    simpa using Finset.card_image_le (s := Finset.range Q.card) (f := fun k => f^[k + 1] c)
  rw [Finset.eq_of_subset_of_card_le hsub hcard]
  exact Finset.mem_image_of_mem _ (Finset.mem_range.mpr hk)

lemma TakesTurns.circular (h : TakesTurns f c Q) (hpos : 0 < Q.card) :
    Circular Q fun k => f^[k + 1] c where
  mem _ hk := h.mem hk
  once r hr := by
    obtain ⟨k, ⟨⟨hgt, hle⟩, hkr⟩, huniq⟩ := h 0 r hr
    refine ⟨k - 1, ⟨by omega, ?_⟩, ?_⟩
    · rw [Nat.sub_add_cancel hgt, hkr]
    · rintro k' ⟨hlt, hk'⟩
      rw [← huniq (k' + 1) ⟨by omega, hk'⟩]
      rfl
  closed := by
    -- the first element is met once in the window that starts after it, and that at its end
    obtain ⟨k, ⟨⟨hgt, hle⟩, hk⟩, -⟩ := h 1 _ (h.mem hpos)
    rcases Nat.lt_or_ge k (Q.card + 1) with hlt | hge
    · have hone : k = 1 := (h 0 _ (h.mem hpos)).unique ⟨by omega, hk⟩ ⟨by omega, rfl⟩
      omega
    · obtain rfl : k = Q.card + 1 := by omega
      exact hk

/-- **Turns.** -/
theorem takesTurns_iff (hpos : 0 < Q.card) :
    TakesTurns f c Q ↔ f c ∈ Q ∧ ∃ e, Circular Q e ∧ ∀ k < Q.card, f (e k) = e (k + 1) := by
  constructor
  · intro h
    exact ⟨h.mem hpos, _, h.circular hpos, fun k _ => (Function.iterate_succ_apply' f _ c).symm⟩
  · rintro ⟨hc, e, he, hstep⟩
    exact he.takesTurns hstep hc

end Masika
