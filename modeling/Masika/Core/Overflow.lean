import Mathlib.Algebra.Ring.Nat
import Mathlib.Data.Nat.Notation
import Mathlib.Tactic.Common

/-!
# Arithmetic that may overflow

The arithmetic of unsigned integers in a build with overflow checks, where a result that does not
fit stops the program, and in one without, where its low bits are kept.  The flag `checks` says
which of the two it is; `none` is the stop.

As long as the results fit, both builds compute the same (`addWith_of_fits` and its like).
-/

namespace Masika

variable {w : ℕ} {checks : Bool}

/-- A value that has been computed, or the stop after an overflow that is checked for. -/
def orStop {α : Type*} (checks overflow : Bool) (value : α) : Option α :=
  if checks && overflow then none else some value

@[simp] lemma orStop_false {α : Type*} (checks : Bool) (value : α) :
    orStop checks false value = some value := by
  simp [orStop]

@[simp] lemma orStop_unchecked {α : Type*} (overflow : Bool) (value : α) :
    orStop false overflow value = some value := by
  simp [orStop]

lemma orStop_eq_some {α : Type*} {overflow : Bool} {value v : α} :
    orStop checks overflow value = some v ↔ ¬ (checks = true ∧ overflow = true) ∧ value = v := by
  rw [orStop]
  split_ifs with h
  · simp [Bool.and_eq_true_iff.mp h]
  · rw [Bool.and_eq_true] at h
    simp [h]

/-- `a + b`. -/
def addWith (checks : Bool) (a b : BitVec w) : Option (BitVec w) :=
  orStop checks (a.uaddOverflow b) (a + b)

/-- `a - b`. -/
def subWith (checks : Bool) (a b : BitVec w) : Option (BitVec w) :=
  orStop checks (a.usubOverflow b) (a - b)

/-- `a * b`. -/
def mulWith (checks : Bool) (a b : BitVec w) : Option (BitVec w) :=
  orStop checks (a.umulOverflow b) (a * b)

/-- The number of places is an integer of its own; only as many bits of it count as are needed. -/
def shlWith {v : ℕ} (checks : Bool) (a : BitVec w) (n : BitVec v) : Option (BitVec w) :=
  orStop checks (decide (w ≤ n.toNat)) (a <<< (n.toNat % w))

lemma uaddOverflow_eq_false {a b : BitVec w} :
    a.uaddOverflow b = false ↔ a.toNat + b.toNat < 2 ^ w := by
  rw [BitVec.uaddOverflow, decide_eq_false_iff_not, ge_iff_le, not_le]

lemma umulOverflow_eq_false {a b : BitVec w} :
    a.umulOverflow b = false ↔ a.toNat * b.toNat < 2 ^ w := by
  rw [BitVec.umulOverflow, decide_eq_false_iff_not, ge_iff_le, not_le]

lemma usubOverflow_eq_false {a b : BitVec w} : a.usubOverflow b = false ↔ b.toNat ≤ a.toNat := by
  rw [BitVec.usubOverflow, decide_eq_false_iff_not, not_lt]

/-! ## Results that fit -/

lemma addWith_of_fits {a b : BitVec w} (h : a.toNat + b.toNat < 2 ^ w) :
    addWith checks a b = some (a + b) := by
  rw [addWith, uaddOverflow_eq_false.mpr h, orStop_false]

lemma mulWith_of_fits {a b : BitVec w} (h : a.toNat * b.toNat < 2 ^ w) :
    mulWith checks a b = some (a * b) := by
  rw [mulWith, umulOverflow_eq_false.mpr h, orStop_false]

lemma subWith_of_le {a b : BitVec w} (h : b.toNat ≤ a.toNat) :
    subWith checks a b = some (a - b) := by
  rw [subWith, usubOverflow_eq_false.mpr h, orStop_false]

end Masika
