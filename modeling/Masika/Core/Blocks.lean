import Mathlib.Algebra.Ring.Nat
import Mathlib.Data.Set.Lattice
import Mathlib.Order.CompletePartialOrder
import Mathlib.Tactic.Common

/-!
# Blocks of memory

Addresses are words, and address arithmetic wraps around.  `span a n` are the `n` addresses from `a`
on, and `moved mem src dst n` is the memory after the values at the `n` addresses from `src` on have
been copied to those from `dst` on, all at once.

A loop copies one value after another.  `moved_succ` says what one more value changes, and
`moved_src` that the values still to be copied are the old ones, as long as the two blocks do not
overlap; together they carry the induction over such a loop.
-/

namespace Masika

variable {w : ℕ} {Val : Type*} {a src dst x : BitVec w} {mem : BitVec w → Val} {i n : ℕ}

/-- The `n` addresses from `a` on. -/
def span (a : BitVec w) (n : ℕ) : Set (BitVec w) := {x | (x - a).toNat < n}

lemma mem_span : x ∈ span a n ↔ (x - a).toNat < n := Iff.rfl

instance (a : BitVec w) (n : ℕ) (x : BitVec w) : Decidable (x ∈ span a n) :=
  inferInstanceAs (Decidable ((x - a).toNat < n))

lemma toNat_add_ofNat_sub (a : BitVec w) (i : ℕ) :
    (a + BitVec.ofNat w i - a).toNat = i % 2 ^ w := by
  rw [BitVec.add_comm, BitVec.add_sub_cancel, BitVec.toNat_ofNat]

lemma add_ofNat_sub_toNat (a x : BitVec w) : a + BitVec.ofNat w (x - a).toNat = x := by
  rw [BitVec.ofNat_toNat, BitVec.setWidth_eq, BitVec.add_comm, BitVec.sub_add_cancel]

lemma add_mem_span (a : BitVec w) (hi : i < n) : a + BitVec.ofNat w i ∈ span a n := by
  rw [mem_span, toNat_add_ofNat_sub]
  exact lt_of_le_of_lt (Nat.mod_le i _) hi

lemma span_mono (hin : i ≤ n) : span a i ⊆ span a n := fun _ hx => lt_of_lt_of_le hx hin

/-- A block that does not wrap around is an interval. -/
lemma mem_span_iff_toNat (hfits : a.toNat + n ≤ 2 ^ w) :
    x ∈ span a n ↔ a.toNat ≤ x.toNat ∧ x.toNat < a.toNat + n := by
  have hx := x.isLt
  rw [mem_span, BitVec.toNat_sub]
  rcases Nat.lt_or_ge x.toNat a.toNat with hlt | hge
  · rw [Nat.mod_eq_of_lt (by omega)]
    omega
  · rw [show 2 ^ w - a.toNat + x.toNat = x.toNat - a.toNat + 2 ^ w by omega, Nat.add_mod_right,
      Nat.mod_eq_of_lt (by omega)]
    omega

lemma mem_span_one : x ∈ span a 1 ↔ x = a := by
  rw [mem_span, Nat.lt_one_iff]
  constructor
  · intro h
    have hzero : x - a = 0#w := BitVec.eq_of_toNat_eq (by rw [h]; rfl)
    rw [← BitVec.sub_add_cancel x a, hzero, BitVec.zero_add]
  · rintro rfl
    rw [BitVec.sub_self]
    rfl

/-- The `n` values from `src` on, copied to the addresses from `dst` on. -/
def moved (mem : BitVec w → Val) (src dst : BitVec w) (n : ℕ) : BitVec w → Val := fun x =>
  if (x - dst).toNat < n then mem (src + (x - dst)) else mem x

@[simp] lemma moved_zero (mem : BitVec w → Val) (src dst : BitVec w) : moved mem src dst 0 = mem :=
  rfl

lemma moved_outside (hx : x ∉ span dst n) : moved mem src dst n x = mem x := if_neg hx

lemma moved_add (hi : i < n) (hn : n ≤ 2 ^ w) :
    moved mem src dst n (dst + BitVec.ofNat w i) = mem (src + BitVec.ofNat w i) := by
  rw [moved, toNat_add_ofNat_sub, Nat.mod_eq_of_lt (by omega), if_pos hi, BitVec.add_comm dst,
    BitVec.add_sub_cancel]

/-- One more value. -/
lemma moved_succ (hn : n < 2 ^ w) :
    Function.update (moved mem src dst n) (dst + BitVec.ofNat w n) (mem (src + BitVec.ofNat w n))
      = moved mem src dst (n + 1) := by
  funext x
  by_cases hx : x = dst + BitVec.ofNat w n
  · rw [hx, Function.update_self, moved_add (Nat.lt_succ_self n) hn]
  · have hne : (x - dst).toNat ≠ n := by
      rintro rfl
      exact hx (add_ofNat_sub_toNat dst x).symm
    rw [Function.update_of_ne hx, moved, moved]
    refine if_congr ⟨fun h => by omega, fun h => by omega⟩ rfl rfl

lemma moved_one (mem : BitVec w → Val) (src dst : BitVec w) :
    moved mem src dst 1 = Function.update mem dst (mem src) := by
  have hstep : Function.update (moved mem src dst 0) (dst + 0#w) (mem (src + 0#w)) = _ :=
    moved_succ (Nat.two_pow_pos w)
  rwa [moved_zero, BitVec.add_zero, BitVec.add_zero, eq_comm] at hstep

/-- The values still to be copied are the old ones. -/
lemma moved_src (hapart : Disjoint (span src n) (span dst n)) {k : ℕ} (hi : i < n) (hk : k ≤ n) :
    moved mem src dst k (src + BitVec.ofNat w i) = mem (src + BitVec.ofNat w i) :=
  moved_outside fun hmem =>
    Set.disjoint_left.mp hapart (add_mem_span src hi) (span_mono hk hmem)

end Masika
