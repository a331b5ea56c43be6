import Masika.Core.BitPacked
import Masika.Core.Bytes

/-!
# Byte memory with 64-bit addresses, and words on a stack

Memory is a function from 64-bit addresses to bytes, and address arithmetic wraps.  A range is given
by its first address and its length; `x` is `Within a n` when it is one of the `n` addresses from
`a` on, wherever the range wraps.

* `writeRange` replaces the bytes of a range, `writeU64` those of one word.  Both change nothing
  outside (`writeRange_other`).
* `FilledUpTo` follows a loop that replaces the bytes of a range one by one.
* `CString m a bs` says that the bytes `bs` and a terminator lie from `a` on.
* `Words m a ws` says that the words `ws` lie one after the other from `a` on, as on a stack that
  grows downwards: a push puts a word in front (`Words.push`), a pop takes the first one off
  (`words_cons`), and writes to other ranges change nothing (`Words.congr`).
-/

namespace Masika

/-- Bytes at 64-bit addresses. -/
abbrev Memory64 := U64 → U8

/-! ## Ranges -/

/-- `x` is one of the `n` addresses from `a` on. -/
def Within (a : U64) (n : ℕ) (x : U64) : Prop := (x - a).toNat < n

/-- The address `k` bytes after `a`. -/
def above (a : U64) (k : ℕ) : U64 := a + BitVec.ofNat 64 k

@[simp] lemma above_zero (a : U64) : above a 0 = a := BitVec.add_zero a

lemma above_above (a : U64) (j k : ℕ) : above (above a j) k = above a (j + k) := by
  rw [above, above, above, BitVec.ofNat_add, BitVec.add_assoc]

lemma above_sub (a : U64) (k : ℕ) : above (a - BitVec.ofNat 64 k) k = a := BitVec.sub_add_cancel a _

lemma eq_sub_of_above {a b : U64} {k : ℕ} (h : above a k = b) : a = b - BitVec.ofNat 64 k := by
  rw [← h, above, BitVec.add_sub_cancel]

lemma toNat_above_sub (a : U64) {k : ℕ} (hk : k < 2 ^ 64) : (above a k - a).toNat = k := by
  rw [above, BitVec.add_comm, BitVec.add_sub_cancel, BitVec.toNat_ofNat, Nat.mod_eq_of_lt hk]

lemma within_above {a : U64} {n k : ℕ} (hk : k < 2 ^ 64) : Within a n (above a k) ↔ k < n := by
  rw [Within, toNat_above_sub a hk]

/-- The addresses of a range are those at an offset below its length. -/
lemma Within.exists_above {a x : U64} {n : ℕ} (h : Within a n x) :
    ∃ k < n, k < 2 ^ 64 ∧ x = above a k := by
  refine ⟨(x - a).toNat, h, (x - a).isLt, ?_⟩
  rw [above, BitVec.ofNat_toNat, BitVec.setWidth_eq, BitVec.add_comm, BitVec.sub_add_cancel]

/-- A part of a range. -/
lemma Within.of_above {a x : U64} {j k n : ℕ} (h : Within (above a j) k x) (hn : j + k ≤ n)
    (hlt : n ≤ 2 ^ 64) : Within a n x := by
  obtain ⟨i, hi, -, rfl⟩ := h.exists_above
  rw [above_above, within_above (by omega)]
  omega

/-- Two parts of a range, one behind the other. -/
lemma Within.not_before {a x : U64} {i j k n : ℕ} (h : Within (above a j) k x) (hij : i + n ≤ j)
    (hlt : j + k ≤ 2 ^ 64) : ¬ Within (above a i) n x := by
  obtain ⟨l, hl, -, rfl⟩ := h.exists_above
  have hsplit : above (above a j) l = above (above a i) (j - i + l) := by
    rw [above_above, above_above]
    congr 1
    omega
  rw [hsplit, within_above (by omega)]
  omega

lemma Within.not_after {a x : U64} {i j k n : ℕ} (h : Within (above a i) n x) (hij : i + n ≤ j)
    (hlt : j + k ≤ 2 ^ 64) : ¬ Within (above a j) k x :=
  fun hj => hj.not_before hij hlt h

/-! ## Reading and writing -/

/-- The bytes of a range are replaced by those of `f`. -/
def writeRange (m : Memory64) (a : U64) (n : ℕ) (f : ℕ → U8) : Memory64 :=
  fun x => if (x - a).toNat < n then f (x - a).toNat else m x

lemma writeRange_other {m : Memory64} {a x : U64} {n : ℕ} {f : ℕ → U8}
    (h : ¬ Within a n x) : writeRange m a n f x = m x := if_neg h

lemma writeRange_above (m : Memory64) (a : U64) {n k : ℕ} (f : ℕ → U8) (hk : k < n)
    (hlt : k < 2 ^ 64) : writeRange m a n f (above a k) = f k := by
  rw [writeRange, toNat_above_sub a hlt, if_pos hk]

/-- The word whose bytes lie from `a` on. -/
def readU64 (m : Memory64) (a : U64) : U64 :=
  BitVec.ofNat 64 (loadBytes (fun i => m (above a i)) 8 0)

/-- The word whose bytes are those of `f` from `k` on. -/
def wordAt (f : ℕ → U8) (k : ℕ) : U64 := BitVec.ofNat 64 (loadBytes f 8 k)

/-- Store a word. -/
def writeU64 (m : Memory64) (a w : U64) : Memory64 :=
  writeRange m a 8 (storeBytes (fun _ => 0#8) 8 0 w.toNat)

lemma readU64_congr {m m' : Memory64} {a : U64} (h : ∀ x, Within a 8 x → m' x = m x) :
    readU64 m' a = readU64 m a := by
  rw [readU64, readU64]
  refine congrArg (BitVec.ofNat 64) (loadBytes_congr fun i _ hi => h _ ?_)
  exact (within_above (by omega)).mpr (by omega)

/-- Reading inside a range that has been written. -/
lemma readU64_writeRange (m : Memory64) (a : U64) {n k : ℕ} (f : ℕ → U8) (hk : k + 8 ≤ n)
    (hn : n ≤ 2 ^ 64) : readU64 (writeRange m a n f) (above a k) = wordAt f k := by
  rw [readU64, wordAt]
  have hshift := loadBytes_shift f k 8 0
  rw [Nat.add_zero] at hshift
  rw [← hshift]
  refine congrArg (BitVec.ofNat 64) (loadBytes_congr fun i _ hi => ?_)
  rw [above_above, writeRange_above m a f (by omega) (by omega)]

@[simp] lemma readU64_writeU64 (m : Memory64) (a w : U64) : readU64 (writeU64 m a w) a = w := by
  have h := readU64_writeRange m a (n := 8) (k := 0) (storeBytes (fun _ => 0#8) 8 0 w.toNat)
    (by omega) (by omega)
  rw [above_zero] at h
  rw [writeU64, h, wordAt, loadBytes_storeBytes]
  apply BitVec.eq_of_toNat_eq
  rw [BitVec.toNat_ofNat]
  have := w.isLt
  omega

/-! ## Filling a range byte by byte -/

/-- The first `i` bytes from `a` on are those of `f`; apart from them `m'` is `m`, where the bytes
of `scratch` may be anything. -/
structure FilledUpTo (m m' : Memory64) (a : U64) (f : ℕ → U8) (scratch : U64 → Prop)
    (i : ℕ) : Prop where
  filled : ∀ k < i, m' (above a k) = f k
  other : ∀ x, ¬ Within a i x → ¬ scratch x → m' x = m x

lemma filledUpTo_zero {m m' : Memory64} (a : U64) (f : ℕ → U8) {scratch : U64 → Prop}
    (h : ∀ x, ¬ scratch x → m' x = m x) : FilledUpTo m m' a f scratch 0 where
  filled _ hk := absurd hk (Nat.not_lt_zero _)
  other x _ hx := h x hx

lemma above_inj {a : U64} {j k : ℕ} (hj : j < 2 ^ 64) (hk : k < 2 ^ 64)
    (h : above a j = above a k) : j = k := by
  rw [← toNat_above_sub a hj, ← toNat_above_sub a hk, h]

/-- One byte more. -/
lemma FilledUpTo.next {m m' : Memory64} {a : U64} {f : ℕ → U8} {scratch : U64 → Prop} {i : ℕ}
    (h : FilledUpTo m m' a f scratch i) (hi : i < 2 ^ 64) :
    FilledUpTo m (Function.update m' (above a i) (f i)) a f scratch (i + 1) where
  filled k hk := by
    rcases Nat.lt_succ_iff_lt_or_eq.mp hk with hlt | rfl
    · rw [Function.update_of_ne, h.filled k hlt]
      exact fun heq => hlt.ne (above_inj (by omega) hi heq)
    · exact Function.update_self ..
  other x hx hx' := by
    rw [Function.update_of_ne, h.other x (fun hw => hx (Nat.lt_succ_of_lt hw)) hx']
    rintro rfl
    exact hx ((within_above hi).mpr (Nat.lt_succ_self i))

/-! ## Strings -/

/-- The bytes `bs`, none of which is zero, lie from `a` on, and a zero after them. -/
def CString (m : Memory64) : U64 → List U8 → Prop
  | a, [] => m a = 0#8
  | a, b :: bs => m a = b ∧ b ≠ 0#8 ∧ CString m (a + 1#64) bs

lemma Within.of_add_one {a x : U64} {n : ℕ} (h : Within (a + 1#64) n x) : Within a (n + 1) x := by
  rw [Within] at h ⊢
  bv_omega

lemma CString.ne_zero {m : Memory64} {a : U64} {bs : List U8} (h : CString m a bs) :
    ∀ b ∈ bs, b ≠ 0#8 := by
  induction bs generalizing a with
  | nil => simp
  | cons b bs ih => simpa [h.2.1] using ih h.2.2

lemma within_self (a : U64) (n : ℕ) : Within a (n + 1) a := by
  rw [Within, BitVec.sub_self]
  exact Nat.succ_pos n

/-- A string depends on its bytes and its terminator. -/
lemma CString.congr {m m' : Memory64} {a : U64} {bs : List U8} (h : CString m a bs)
    (heq : ∀ x, Within a (bs.length + 1) x → m' x = m x) : CString m' a bs := by
  induction bs generalizing a with
  | nil => exact (heq a (within_self a 0)).trans h
  | cons b bs ih =>
    refine ⟨(heq a (within_self a _)).trans h.1, h.2.1, ih h.2.2 fun x hx => ?_⟩
    exact heq x hx.of_add_one

/-! ## Words on a stack -/

/-- The words `ws` lie from `a` on. -/
def Words (m : Memory64) (a : U64) (ws : List U64) : Prop :=
  ∀ i w, ws[i]? = some w → readU64 m (above a (8 * i)) = w

lemma words_nil (m : Memory64) (a : U64) : Words m a [] := by
  intro i w h
  cases h

lemma words_cons {m : Memory64} {a w : U64} {ws : List U64} :
    Words m a (w :: ws) ↔ readU64 m a = w ∧ Words m (above a 8) ws := by
  have hnext : ∀ i, above a (8 * (i + 1)) = above (above a 8) (8 * i) := by
    intro i
    rw [above_above]
    congr 1
    omega
  constructor
  · intro h
    refine ⟨?_, fun i v hv => ?_⟩
    · have h0 := h 0 w rfl
      rwa [Nat.mul_zero, above_zero] at h0
    · rw [← hnext]
      exact h (i + 1) v hv
  · rintro ⟨hfirst, hrest⟩ i v hv
    cases i with
    | zero =>
      rw [List.getElem?_cons_zero, Option.some.injEq] at hv
      rw [Nat.mul_zero, above_zero, hfirst, hv]
    | succ i =>
      rw [hnext]
      exact hrest i v hv

lemma words_append {m : Memory64} {a : U64} {vs ws : List U64} :
    Words m a (vs ++ ws) ↔ Words m a vs ∧ Words m (above a (8 * vs.length)) ws := by
  induction vs generalizing a with
  | nil => simp [words_nil]
  | cons v vs ih =>
    rw [List.cons_append, words_cons, words_cons, ih, above_above, and_assoc, List.length_cons,
      Nat.mul_succ, Nat.add_comm 8]

/-- Words depend on the bytes they lie in. -/
lemma Words.congr {m m' : Memory64} {a : U64} {ws : List U64} (h : Words m a ws)
    (hlen : 8 * ws.length ≤ 2 ^ 64) (heq : ∀ x, Within a (8 * ws.length) x → m' x = m x) :
    Words m' a ws := by
  intro i w hw
  obtain ⟨hlt, -⟩ := List.getElem?_eq_some_iff.mp hw
  rw [← h i w hw]
  exact readU64_congr fun x hx => heq x (hx.of_above (by omega) hlen)

/-- A push. -/
lemma Words.push {m : Memory64} {a : U64} {ws : List U64} (h : Words m (above a 8) ws) (w : U64)
    (hlen : 8 * ws.length + 8 ≤ 2 ^ 64) : Words (writeU64 m a w) a (w :: ws) := by
  refine words_cons.mpr ⟨readU64_writeU64 m a w, h.congr (by omega) fun x hx => ?_⟩
  refine writeRange_other ?_
  have := hx.not_before (i := 0) (n := 8) (by omega) (by omega)
  rwa [above_zero] at this

/-- The words in a range of bytes that has been written. -/
lemma words_writeRange (m : Memory64) (a : U64) {n k : ℕ} (count : ℕ) (f : ℕ → U8)
    (hk : k + 8 * count ≤ n) (hn : n ≤ 2 ^ 64) :
    Words (writeRange m a n f) (above a k)
      ((List.range count).map fun i => wordAt f (k + 8 * i)) := by
  intro i w hw
  obtain ⟨j, hj, rfl⟩ := Option.map_eq_some_iff.mp (List.getElem?_map ▸ hw)
  obtain ⟨hlt, hget⟩ := List.getElem?_eq_some_iff.mp hj
  rw [List.length_range] at hlt
  rw [List.getElem_range] at hget
  subst hget
  rw [above_above, readU64_writeRange m a f (by omega) hn]

/-- The `n` words from `a` on. -/
def readWords (m : Memory64) (a : U64) (n : ℕ) : List U64 :=
  (List.range n).map fun i => readU64 m (above a (8 * i))

@[simp] lemma length_readWords (m : Memory64) (a : U64) (n : ℕ) : (readWords m a n).length = n := by
  rw [readWords, List.length_map, List.length_range]

lemma getElem?_readWords (m : Memory64) (a : U64) {n i : ℕ} (hi : i < n) :
    (readWords m a n)[i]? = some (readU64 m (above a (8 * i))) := by
  rw [readWords, List.getElem?_map, List.getElem?_range hi]
  rfl

/-- Reading as many words as there are gives these words. -/
lemma words_iff {m : Memory64} {a : U64} {ws : List U64} :
    Words m a ws ↔ readWords m a ws.length = ws := by
  constructor
  · intro h
    refine List.ext_getElem? fun i => ?_
    rcases Nat.lt_or_ge i ws.length with hi | hi
    · have hw := List.getElem?_eq_getElem hi
      rw [getElem?_readWords m a hi, h i _ hw, hw]
    · rw [List.getElem?_eq_none hi, List.getElem?_eq_none (by rwa [length_readWords])]
  · intro h i w hw
    obtain ⟨hi, -⟩ := List.getElem?_eq_some_iff.mp hw
    rw [← h, getElem?_readWords m a hi, Option.some.injEq] at hw
    exact hw

lemma words_readWords (m : Memory64) (a : U64) (n : ℕ) : Words m a (readWords m a n) := by
  rw [words_iff, length_readWords]

lemma readWords_add (m : Memory64) (a : U64) (j k : ℕ) :
    readWords m a (j + k) = readWords m a j ++ readWords m (above a (8 * j)) k := by
  have hnext : ∀ i, above (above a (8 * j)) (8 * i) = above a (8 * (j + i)) := by
    intro i
    rw [above_above, Nat.mul_add]
  simp only [readWords, hnext, List.range_add, List.map_append, List.map_map, Function.comp_def]

lemma readWords_congr {m m' : Memory64} {a : U64} {n : ℕ} (hn : 8 * n ≤ 2 ^ 64)
    (h : ∀ x, Within a (8 * n) x → m' x = m x) : readWords m' a n = readWords m a n := by
  rw [readWords, readWords]
  refine List.map_congr_left fun i hi => ?_
  have hlt := List.mem_range.mp hi
  exact readU64_congr fun x hx => h x (hx.of_above (by omega) hn)

end Masika
