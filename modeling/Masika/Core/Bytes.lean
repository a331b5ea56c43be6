import Mathlib.Logic.Function.Basic
import Masika.Core.Usize

/-!
# Numbers in a memory of bytes

`loadBytes m n a` is the number whose `n` bytes lie from address `a` on, least significant first,
and `storeBytes m n a w` the memory in which `w` has been stored there.
-/

namespace Masika

/-- `n` bytes, the lowest first. -/
def loadBytes (m : ℕ → U8) : ℕ → ℕ → ℕ
  | 0, _ => 0
  | n + 1, a => (m a).toNat + 256 * loadBytes m n (a + 1)

/-- The same way back. -/
def storeBytes (m : ℕ → U8) : ℕ → ℕ → ℕ → ℕ → U8
  | 0, _, _ => m
  | n + 1, a, w => Function.update (storeBytes m n (a + 1) (w / 256)) a (BitVec.ofNat 8 w)

lemma loadBytes_lt (m : ℕ → U8) (n a : ℕ) : loadBytes m n a < 256 ^ n := by
  induction n generalizing a with
  | zero => exact Nat.one_pos
  | succ n ih =>
    have hbyte := (m a).isLt
    have hrest := ih (a + 1)
    rw [loadBytes, Nat.pow_succ]
    omega

/-- A store changes the bytes it stores to. -/
lemma storeBytes_other {m : ℕ → U8} {n a w x : ℕ} (hx : x < a ∨ a + n ≤ x) :
    storeBytes m n a w x = m x := by
  induction n generalizing a w with
  | zero => rfl
  | succ n ih => rw [storeBytes, Function.update_of_ne (by omega), ih (by omega)]

/-- A load depends on the bytes it loads. -/
lemma loadBytes_congr {m m' : ℕ → U8} {n a : ℕ}
    (h : ∀ x, a ≤ x → x < a + n → m' x = m x) : loadBytes m' n a = loadBytes m n a := by
  induction n generalizing a with
  | zero => rfl
  | succ n ih =>
    rw [loadBytes, loadBytes, h a (le_refl a) (by omega),
      ih fun x hx hlt => h x (by omega) (by omega)]

lemma loadBytes_shift (m : ℕ → U8) (k n a : ℕ) :
    loadBytes (fun i => m (k + i)) n a = loadBytes m n (k + a) := by
  induction n generalizing a with
  | zero => rfl
  | succ n ih => rw [loadBytes, loadBytes, ih, Nat.add_assoc]

/-- What has been stored is loaded again. -/
lemma loadBytes_storeBytes (m : ℕ → U8) (n a w : ℕ) :
    loadBytes (storeBytes m n a w) n a = w % 256 ^ n := by
  induction n generalizing a w with
  | zero => simp [loadBytes, Nat.mod_one]
  | succ n ih =>
    have hrest : loadBytes (storeBytes m (n + 1) a w) n (a + 1) = w / 256 % 256 ^ n := by
      rw [← ih (a + 1) (w / 256)]
      refine loadBytes_congr fun x hx _ => ?_
      rw [storeBytes, Function.update_of_ne (by omega)]
    rw [loadBytes, hrest, storeBytes, Function.update_self, BitVec.toNat_ofNat,
      Nat.pow_succ' (m := 256), Nat.mod_mul]

/-- A load after a store elsewhere. -/
lemma loadBytes_storeBytes_other {m : ℕ → U8} {n k a b w : ℕ}
    (h : b + k ≤ a ∨ a + n ≤ b) : loadBytes (storeBytes m n a w) k b = loadBytes m k b :=
  loadBytes_congr fun _ hx hlt => storeBytes_other (by omega)

end Masika
