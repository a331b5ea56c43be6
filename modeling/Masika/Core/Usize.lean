import Mathlib.Algebra.Ring.Nat
import Mathlib.Tactic.Common

/-!
# Machine words

The types of the source keep their names.

Indices and addresses are natural numbers here, and `usize` arithmetic is that of a release build:
it keeps the low 64 bits.  Where a result fits, `wrap` and `wrapSub` disappear (`wrap_of_lt`,
`wrapSub_of_le`); where it does not, they say what the machine computes.
-/

namespace Masika

/-- A byte. -/
abbrev U8 := BitVec 8

/-- A word of two bytes. -/
abbrev U16 := BitVec 16

/-- A word of four bytes. -/
abbrev U32 := BitVec 32

/-- The machine word. -/
abbrev U64 := BitVec 64

/-- The low 64 bits of a result. -/
def wrap (n : ℕ) : ℕ := n % 2 ^ 64

/-- Subtraction of machine words. -/
def wrapSub (a b : ℕ) : ℕ := wrap (a + (2 ^ 64 - wrap b))

lemma wrap_lt (n : ℕ) : wrap n < 2 ^ 64 := Nat.mod_lt _ (by decide)

lemma wrap_of_lt {n : ℕ} (h : n < 2 ^ 64) : wrap n = n := Nat.mod_eq_of_lt h

lemma wrapSub_of_le {a b : ℕ} (hle : b ≤ a) (ha : a < 2 ^ 64) : wrapSub a b = a - b := by
  rw [wrapSub, wrap_of_lt (lt_of_le_of_lt hle ha), wrap]
  omega

end Masika
