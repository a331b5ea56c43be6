import Masika.Core.Blocks
import Masika.Syscall.UserCopy

/-!
# Typed copies

`copy_from_user_array`, `get_user_u64` and the others first check the two ends of the range with
`validate_user_ptr`, and then call the byte loops, which check every address again.  A loop that
fails half-way would leave a part of the range copied.

It does not: the range does not wrap around, and user addresses are one interval, so what the loop
checks follows from what has been checked before.  Either nothing happens at all, or the whole block
is moved (`MovesAll`).  `typedCopies` says so for all six functions, and that a word which has been
put is the one that is got.

A slice, or a local variable, of the kernel is not reached through another pointer while it is in
use.  So it is taken not to overlap with the bytes that the pointer of the user addresses.
-/

namespace Masika

open Accessing

/-! ## Words -/

/-- The `n` bytes from `a` on, as a number with the least significant byte first. -/
def wordLoaded (mem : U64 → U8) (a : U64) : ℕ → U64
  | 0 => 0#64
  | n + 1 => wordLoaded mem (a + 1#64) n <<< 8 ||| (mem a).setWidth 64

/-- Byte `i` of a word. -/
def byteOf (word : U64) (i : ℕ) : U8 := (word >>> (8 * i)).setWidth 8

/-- The lowest `n` bytes of a word, stored from `a` on. -/
def wordStored (mem : U64 → U8) (a word : U64) (n : ℕ) : U64 → U8 := fun x =>
  if (x - a).toNat < n then byteOf word (x - a).toNat else mem x

lemma add_ofNat_succ (a : U64) (i : ℕ) :
    a + BitVec.ofNat 64 (i + 1) = a + 1#64 + BitVec.ofNat 64 i := by
  rw [Nat.add_comm, BitVec.ofNat_add]
  ac_rfl

/-- A word depends on its bytes. -/
lemma wordLoaded_congr {mem mem' : U64 → U8} {n : ℕ} : ∀ {a b : U64},
    (∀ i < n, mem (a + BitVec.ofNat 64 i) = mem' (b + BitVec.ofNat 64 i)) →
    wordLoaded mem a n = wordLoaded mem' b n := by
  induction n with
  | zero => exact fun _ => rfl
  | succ n ih =>
    intro a b h
    have hfirst := h 0 (Nat.succ_pos n)
    simp only [BitVec.add_zero] at hfirst
    rw [wordLoaded, wordLoaded, hfirst, ih fun i hi => ?_]
    have hnext := h (i + 1) (by omega)
    rwa [add_ofNat_succ a i, add_ofNat_succ b i] at hnext

/-- The bits of a word are those of its bytes. -/
lemma getLsbD_wordLoaded (mem : U64 → U8) {n : ℕ} : ∀ {a : U64} {j : ℕ}, j < 8 * n → j < 64 →
    (wordLoaded mem a n).getLsbD j = (mem (a + BitVec.ofNat 64 (j / 8))).getLsbD (j % 8) := by
  induction n with
  | zero => exact fun hj _ => absurd hj (by omega)
  | succ n ih =>
    intro a j hj hlt
    rw [wordLoaded, BitVec.getLsbD_or, BitVec.getLsbD_shiftLeft, BitVec.getLsbD_setWidth]
    by_cases hlow : j < 8
    · rw [Nat.div_eq_of_lt hlow, Nat.mod_eq_of_lt hlow]
      simp [hlow, hlt]
    · have hdiv : j / 8 = (j - 8) / 8 + 1 := by omega
      have hmod : j % 8 = (j - 8) % 8 := by omega
      have hhigh : (mem a).getLsbD j = false := BitVec.getLsbD_of_ge _ _ (by omega)
      rw [ih (by omega) (by omega), hdiv, hmod, add_ofNat_succ a ((j - 8) / 8), hhigh]
      simp [hlow, hlt]

/-- What has been stored is read again. -/
lemma wordLoaded_wordStored (mem : U64 → U8) (a word : U64) :
    wordLoaded (wordStored mem a word 8) a 8 = word := by
  apply BitVec.eq_of_getLsbD_eq
  intro j hj
  rw [getLsbD_wordLoaded _ (by omega) hj, wordStored, toNat_add_ofNat_sub,
    Nat.mod_eq_of_lt (by omega), if_pos (by omega), byteOf, BitVec.getLsbD_setWidth,
    BitVec.getLsbD_ushiftRight, Nat.div_add_mod]
  simp [Nat.mod_lt]

lemma loadWord_eq (via : Pointer) (n : ℕ) : ∀ (a : U64) (mem : U64 → U8),
    (loadWord via a n mem).result = .ok (wordLoaded mem a n) ∧
      (loadWord via a n mem).mem = mem := by
  induction n with
  | zero => exact fun a mem => ⟨rfl, rfl⟩
  | succ n ih =>
    intro a mem
    have hbyte : ((load via a : SysCall U8) mem).result = .ok (mem a) := rfl
    obtain ⟨hrest, hmem⟩ := ih (a + 1#64) mem
    refine ⟨(bind_of_ok hbyte).1.trans (bind_of_ok hrest).1, ?_⟩
    exact ((bind_of_ok hbyte).2.trans (bind_of_ok hrest).2).trans hmem

lemma storeWord_eq (via : Pointer) (n : ℕ) : ∀ (a word : U64) (mem : U64 → U8), n ≤ 2 ^ 64 →
    (storeWord via a word n mem).result = .ok () ∧
      (storeWord via a word n mem).mem = wordStored mem a word n := by
  induction n with
  | zero => exact fun a word mem _ => ⟨rfl, rfl⟩
  | succ n ih =>
    intro a word mem hn
    have hbyte : ((store via a (word.setWidth 8) : SysCall Unit) mem).result = .ok () := rfl
    obtain ⟨hrest, hmem⟩ := ih (a + 1#64) (word >>> 8)
      (Function.update mem a (word.setWidth 8)) (by omega)
    refine ⟨(bind_of_ok hbyte).1.trans hrest, ((bind_of_ok hbyte).2.trans hmem).trans ?_⟩
    funext x
    by_cases hx : x = a
    · have hfar : ¬ (x - (a + 1#64)).toNat < n := by
        rw [hx, BitVec.toNat_sub, BitVec.toNat_add, show (1#64).toNat = 1 from rfl]
        have := a.isLt
        omega
      rw [wordStored, if_neg hfar, hx, Function.update_self, wordStored, BitVec.sub_self,
        show (0#64).toNat = 0 from rfl, if_pos (Nat.succ_pos n)]
      simp [byteOf]
    · -- one place further from `a` than from `a + 1`
      have hdist : (x - a).toNat = (x - (a + 1#64)).toNat + 1 := by
        have hne : x.toNat ≠ a.toNat := fun h => hx (BitVec.eq_of_toNat_eq h)
        have hxlt := x.isLt
        have halt := a.isLt
        rw [BitVec.toNat_sub, BitVec.toNat_sub, BitVec.toNat_add,
          show (1#64).toNat = 1 from rfl]
        omega
      simp only [wordStored, hdist, Nat.add_lt_add_iff_right]
      refine if_congr Iff.rfl ?_ (Function.update_of_ne hx _ _)
      rw [byteOf, byteOf, ← BitVec.shiftRight_add, Nat.mul_add, Nat.mul_one, Nat.add_comm]

/-! ## The byte loops -/

/-- The round of both loops: an address is checked, and one byte is copied. -/
def copyRound (via via' : Pointer) (ok : ℕ → Bool) (src dst : U64) (i : ℕ) :
    SysCall (Option Unit) :=
  if ¬ ok i then exit (-1)
  else do
    let byte ← load via (src + BitVec.ofNat 64 i)
    store via' (dst + BitVec.ofNat 64 i) byte
    pure none

lemma copyRound_eq {via via' : Pointer} {ok : ℕ → Bool} {src dst : U64} {i : ℕ}
    (hok : ok i = true) (mem : U64 → U8) :
    (copyRound via via' ok src dst i mem).result = .ok none ∧
      (copyRound via via' ok src dst i mem).mem
        = Function.update mem (dst + BitVec.ofNat 64 i) (mem (src + BitVec.ofNat 64 i)) := by
  rw [copyRound, if_neg (not_not.mpr hok)]
  exact ⟨rfl, rfl⟩

/-- **A loop whose checks all pass moves the block.** -/
lemma scan_copyRound (via via' : Pointer) {ok : ℕ → Bool} {src dst : U64} {n : ℕ}
    (hok : ∀ i < n, ok i = true) (hn : n ≤ 2 ^ 64)
    (hapart : Disjoint (span src n) (span dst n)) (mem : U64 → U8) :
    (scan (copyRound via via' ok src dst) n 0 mem).result = .ok none ∧
      (scan (copyRound via via' ok src dst) n 0 mem).mem = moved mem src dst n := by
  have hround : ∀ k mem', 0 ≤ k → k < 0 + n → mem' = moved mem src dst k →
      (copyRound via via' ok src dst k mem').result = .ok none →
      (copyRound via via' ok src dst k mem').mem = moved mem src dst (k + 1) := by
    rintro k mem' - hk rfl -
    rw [Nat.zero_add] at hk
    rw [(copyRound_eq (hok k hk) _).2, moved_src hapart hk hk.le, moved_succ (by omega)]
  rcases scan_cases n 0 (moved_zero mem src dst).symm hround with
    ⟨hresult, hmem⟩ | ⟨k, mem', -, hk, -, hstop, -⟩
  · rw [Nat.zero_add] at hmem
    exact ⟨hresult, hmem⟩
  · exact absurd (copyRound_eq (hok k (by omega)) mem').1 hstop

namespace UserAddrs

variable {U : UserAddrs} {ptr size dst src len tmp : U64}

/-- What has been checked of a range that is not empty. -/
lemma validateUserPtr_ends (h : U.validateUserPtr ptr size = true) (hsize : size ≠ 0#64) :
    U.isUserAddr ptr = true ∧ U.isUserAddr (ptr + size) = true := by
  simp only [validateUserPtr, if_neg hsize] at h
  split_ifs at h with hnull hwrap
  exact Bool.and_eq_true_iff.mp h

lemma copyFromUser_refused (h : ¬ U.isUserAddr src ∨ ¬ U.isUserAddr (src + len)) (dst : U64)
    (mem : U64 → U8) : U.copyFromUser dst src len mem = ⟨.error (-1), mem, []⟩ := by
  rw [copyFromUser, if_pos h]
  rfl

lemma copyToUser_refused (h : ¬ U.isUserAddr dst ∨ ¬ U.isUserAddr (dst + len)) (src : U64)
    (mem : U64 → U8) : U.copyToUser dst src len mem = ⟨.error (-1), mem, []⟩ := by
  rw [copyToUser, if_pos h]
  rfl

/-- **`copy_from_user`** moves a block of user memory. -/
lemma copyFromUser_moves (hends : U.isUserAddr src = true ∧ U.isUserAddr (src + len) = true)
    (hinside : ∀ k < len.toNat, U.isUserAddr (src + BitVec.ofNat 64 k) = true)
    (hapart : Disjoint (span src len.toNat) (span dst len.toNat)) (mem : U64 → U8) :
    (U.copyFromUser dst src len mem).result = .ok () ∧
      (U.copyFromUser dst src len mem).mem = moved mem src dst len.toNat := by
  rw [copyFromUser, if_neg (by simp [hends])]
  obtain ⟨hresult, hmem⟩ := scan_copyRound .user .kernel hinside len.isLt.le
    hapart mem
  exact ⟨(bind_of_ok hresult).1, (bind_of_ok hresult).2.trans hmem⟩

/-- **`copy_to_user`** moves a block to user memory. -/
lemma copyToUser_moves (hends : U.isUserAddr dst = true ∧ U.isUserAddr (dst + len) = true)
    (hinside : ∀ k < len.toNat, U.isUserAddr (dst + BitVec.ofNat 64 k) = true)
    (hapart : Disjoint (span src len.toNat) (span dst len.toNat)) (mem : U64 → U8) :
    (U.copyToUser dst src len mem).result = .ok () ∧
      (U.copyToUser dst src len mem).mem = moved mem src dst len.toNat := by
  rw [copyToUser, if_neg (by simp [hends])]
  obtain ⟨hresult, hmem⟩ := scan_copyRound .kernel .user hinside len.isLt.le
    hapart mem
  exact ⟨(bind_of_ok hresult).1, (bind_of_ok hresult).2.trans hmem⟩

end UserAddrs

/-! ## All or nothing -/

/-- The call is refused and changes nothing, or it moves all `n` bytes. -/
def MovesAll (call : SysCall Unit) (src dst : U64) (n : ℕ) : Prop :=
  ∀ mem, ((call mem).result = .error (-1) ∧ (call mem).mem = mem) ∨
    ((call mem).result = .ok () ∧ (call mem).mem = moved mem src dst n)

namespace UserAddrs

variable {U : UserAddrs} {size dst src len tmp ptr : U64}

lemma copyFromUser_movesAll (hvalid : U.validateUserPtr src len = true)
    (hapart : Disjoint (span src len.toNat) (span dst len.toNat)) :
    MovesAll (U.copyFromUser dst src len) src dst len.toNat := by
  intro mem
  by_cases hends : U.isUserAddr src = true ∧ U.isUserAddr (src + len) = true
  · exact .inr (copyFromUser_moves hends (fun k hk => validateUserPtr_inside hvalid hk) hapart mem)
  · rw [not_and_or] at hends
    rw [copyFromUser_refused hends]
    exact .inl ⟨rfl, rfl⟩

lemma copyToUser_movesAll (hvalid : U.validateUserPtr dst len = true)
    (hapart : Disjoint (span src len.toNat) (span dst len.toNat)) :
    MovesAll (U.copyToUser dst src len) src dst len.toNat := by
  intro mem
  by_cases hends : U.isUserAddr dst = true ∧ U.isUserAddr (dst + len) = true
  · exact .inr (copyToUser_moves hends (fun k hk => validateUserPtr_inside hvalid hk) hapart mem)
  · rw [not_and_or] at hends
    rw [copyToUser_refused hends]
    exact .inl ⟨rfl, rfl⟩

/-- The two checks that the copies of arrays make first. -/
lemma movesAll_of_checked {count p : U64} {copy : SysCall Unit}
    (hsize : count.toNat * size.toNat < 2 ^ 64) (hcopy : U.validateUserPtr p (count * size) = true →
      MovesAll copy src dst (count * size).toNat) :
    MovesAll (if count = 0#64 then pure ()
      else if ¬ U.validateUserPtr p (count * size) then exit (-1) else copy) src dst
      (count.toNat * size.toNat) := by
  intro mem
  by_cases hempty : count = 0#64
  · rw [if_pos hempty, hempty, show (0#64).toNat = 0 from rfl, Nat.zero_mul, moved_zero]
    exact .inr ⟨rfl, rfl⟩
  · rw [if_neg hempty]
    by_cases hvalid : U.validateUserPtr p (count * size) = true
    · rw [if_neg (not_not.mpr hvalid)]
      have hall := hcopy hvalid mem
      rwa [BitVec.toNat_mul, Nat.mod_eq_of_lt hsize] at hall
    · rw [if_pos hvalid]
      exact .inl ⟨rfl, rfl⟩

lemma copyFromUserArray_movesAll (slice : KernelSlice)
    (hsize : slice.len.toNat * size.toNat < 2 ^ 64)
    (hapart : Disjoint (span src (slice.len.toNat * size.toNat))
      (span slice.ptr (slice.len.toNat * size.toNat))) :
    MovesAll (U.copyFromUserArray size slice src) src slice.ptr
      (slice.len.toNat * size.toNat) := by
  refine movesAll_of_checked hsize fun hvalid => copyFromUser_movesAll hvalid ?_
  rwa [BitVec.toNat_mul, Nat.mod_eq_of_lt hsize]

lemma copyToUserArray_movesAll (slice : KernelSlice) (hsize : slice.len.toNat * size.toNat < 2 ^ 64)
    (hapart : Disjoint (span slice.ptr (slice.len.toNat * size.toNat))
      (span dst (slice.len.toNat * size.toNat))) :
    MovesAll (U.copyToUserArray size dst slice) slice.ptr dst
      (slice.len.toNat * size.toNat) := by
  refine movesAll_of_checked hsize fun hvalid => copyToUser_movesAll hvalid ?_
  rwa [BitVec.toNat_mul, Nat.mod_eq_of_lt hsize]

/-! ## Words of the user -/

/-- A store to the local variable is not seen through the pointer. -/
lemma wordStored_apart (hapart : Disjoint (span tmp 8) (span ptr 8)) (mem : U64 → U8) (word : U64)
    {i : ℕ} (hi : i < 8) :
    wordStored mem tmp word 8 (ptr + BitVec.ofNat 64 i) = mem (ptr + BitVec.ofNat 64 i) :=
  if_neg fun hmem => Set.disjoint_left.mp hapart hmem (add_mem_span ptr hi)

lemma getUserU64_of_valid (hapart : Disjoint (span tmp 8) (span ptr 8))
    (hvalid : U.validateUserPtr ptr 8#64 = true) (mem : U64 → U8) :
    (U.getUserU64 tmp ptr mem).result = .ok (wordLoaded mem ptr 8) ∧
      ∀ x ∉ span tmp 8, (U.getUserU64 tmp ptr mem).mem x = mem x := by
  rw [getUserU64, if_neg (not_not.mpr hvalid)]
  obtain ⟨hzero, hzeroed⟩ := storeWord_eq .kernel 8 tmp 0#64 mem (by decide)
  obtain ⟨hcopy, hcopied⟩ := copyFromUser_moves (validateUserPtr_ends hvalid (by decide))
    (fun k hk => validateUserPtr_inside hvalid hk) hapart.symm
    (storeWord .kernel tmp 0#64 8 mem).mem
  obtain ⟨hload, hloaded⟩ := loadWord_eq .kernel 8 tmp
    (U.copyFromUser tmp ptr 8#64 (storeWord .kernel tmp 0#64 8 mem).mem).mem
  rw [show (8#64).toNat = 8 from rfl] at hcopied
  constructor
  · refine (bind_of_ok hzero).1.trans ((bind_of_ok hcopy).1.trans (hload.trans ?_))
    rw [hcopied, hzeroed]
    refine congrArg Except.ok (wordLoaded_congr fun i hi => ?_)
    rw [moved_add hi (by decide), wordStored_apart hapart mem _ hi]
  · intro x hx
    refine (congrFun ((bind_of_ok hzero).2.trans ((bind_of_ok hcopy).2.trans hloaded)) x).trans ?_
    rw [hcopied, hzeroed, moved_outside hx]
    exact if_neg hx

lemma putUserU64_of_valid (hapart : Disjoint (span tmp 8) (span ptr 8))
    (hvalid : U.validateUserPtr ptr 8#64 = true) (val : U64) (mem : U64 → U8) :
    (U.putUserU64 tmp ptr val mem).result = .ok () ∧
      ∀ x ∉ span tmp 8, (U.putUserU64 tmp ptr val mem).mem x = wordStored mem ptr val 8 x := by
  rw [putUserU64, if_neg (not_not.mpr hvalid)]
  obtain ⟨hstore, hstored⟩ := storeWord_eq .kernel 8 tmp val mem (by decide)
  obtain ⟨hcopy, hcopied⟩ := copyToUser_moves (validateUserPtr_ends hvalid (by decide))
    (fun k hk => validateUserPtr_inside hvalid hk) hapart (storeWord .kernel tmp val 8 mem).mem
  rw [show (8#64).toNat = 8 from rfl] at hcopied
  refine ⟨(bind_of_ok hstore).1.trans hcopy, fun x hx => ?_⟩
  rw [(bind_of_ok hstore).2, hcopied, hstored]
  by_cases hin : (x - ptr).toNat < 8
  · have hbyte : tmp + (x - ptr) - tmp = x - ptr := by
      rw [BitVec.add_comm, BitVec.add_sub_cancel]
    simp only [moved, wordStored, hbyte, if_pos hin]
  · rw [moved_outside hin, wordStored, wordStored, if_neg hin]
    exact if_neg hx

end UserAddrs

/-- **What the typed copies promise**: each is refused without any effect, or it is complete. -/
structure TypedCopies (U : UserAddrs) : Prop where
  fromArray : ∀ (size : U64) (dst : KernelSlice) (src : U64),
    dst.len.toNat * size.toNat < 2 ^ 64 →
    Disjoint (span src (dst.len.toNat * size.toNat)) (span dst.ptr (dst.len.toNat * size.toNat)) →
    MovesAll (U.copyFromUserArray size dst src) src dst.ptr (dst.len.toNat * size.toNat)
  toArray : ∀ (size dst : U64) (src : KernelSlice),
    src.len.toNat * size.toNat < 2 ^ 64 →
    Disjoint (span src.ptr (src.len.toNat * size.toNat)) (span dst (src.len.toNat * size.toNat)) →
    MovesAll (U.copyToUserArray size dst src) src.ptr dst (src.len.toNat * size.toNat)
  fromIovec : ∀ (dst : KernelSlice) (src : U64), dst.len.toNat * 16 < 2 ^ 64 →
    Disjoint (span src (dst.len.toNat * 16)) (span dst.ptr (dst.len.toNat * 16)) →
    MovesAll (U.copyIovecFromUser dst src) src dst.ptr (dst.len.toNat * 16)
  toIovec : ∀ (dst : U64) (src : KernelSlice), src.len.toNat * 16 < 2 ^ 64 →
    Disjoint (span src.ptr (src.len.toNat * 16)) (span dst (src.len.toNat * 16)) →
    MovesAll (U.copyIovecToUser dst src) src.ptr dst (src.len.toNat * 16)
  getWord : ∀ (tmp ptr : U64), Disjoint (span tmp 8) (span ptr 8) → ∀ mem,
    ((U.getUserU64 tmp ptr mem).result = .error (-1) ∧ (U.getUserU64 tmp ptr mem).mem = mem) ∨
      ((U.getUserU64 tmp ptr mem).result = .ok (wordLoaded mem ptr 8) ∧
        ∀ x ∉ span tmp 8, (U.getUserU64 tmp ptr mem).mem x = mem x)
  putWord : ∀ (tmp ptr val : U64), Disjoint (span tmp 8) (span ptr 8) → ∀ mem,
    ((U.putUserU64 tmp ptr val mem).result = .error (-1) ∧
        (U.putUserU64 tmp ptr val mem).mem = mem) ∨
      ((U.putUserU64 tmp ptr val mem).result = .ok () ∧
        ∀ x ∉ span tmp 8, (U.putUserU64 tmp ptr val mem).mem x = wordStored mem ptr val 8 x)
  roundTrip : ∀ (tmp tmp' ptr val : U64), Disjoint (span tmp 8) (span ptr 8) →
    Disjoint (span tmp' 8) (span ptr 8) → ∀ mem,
    (U.putUserU64 tmp ptr val mem).result = .ok () →
    (U.getUserU64 tmp' ptr (U.putUserU64 tmp ptr val mem).mem).result = .ok val

/-- **Typed copies are all or nothing, and words survive a round trip**, for every interval of user
addresses, every pointer and every slice whose size in bytes fits into a word. -/
theorem typedCopies (U : UserAddrs) : TypedCopies U where
  fromArray _ dst _ hsize hapart := UserAddrs.copyFromUserArray_movesAll dst hsize hapart
  toArray _ _ src hsize hapart := UserAddrs.copyToUserArray_movesAll src hsize hapart
  fromIovec dst _ hsize hapart := UserAddrs.copyFromUserArray_movesAll dst hsize hapart
  toIovec _ src hsize hapart := UserAddrs.copyToUserArray_movesAll src hsize hapart
  getWord tmp ptr hapart mem := by
    by_cases hvalid : U.validateUserPtr ptr 8#64 = true
    · exact .inr (UserAddrs.getUserU64_of_valid hapart hvalid mem)
    · rw [UserAddrs.getUserU64, if_pos hvalid]
      exact .inl ⟨rfl, rfl⟩
  putWord tmp ptr val hapart mem := by
    by_cases hvalid : U.validateUserPtr ptr 8#64 = true
    · exact .inr (UserAddrs.putUserU64_of_valid hapart hvalid val mem)
    · rw [UserAddrs.putUserU64, if_pos hvalid]
      exact .inl ⟨rfl, rfl⟩
  roundTrip tmp tmp' ptr val hapart hapart' mem hput := by
    have hvalid : U.validateUserPtr ptr 8#64 = true := by
      by_contra hinvalid
      rw [UserAddrs.putUserU64, if_pos hinvalid] at hput
      cases hput
    rw [(UserAddrs.getUserU64_of_valid hapart' hvalid _).1]
    refine congrArg Except.ok
      (Eq.trans (wordLoaded_congr fun i hi => ?_) (wordLoaded_wordStored mem ptr val))
    have hout : ptr + BitVec.ofNat 64 i ∉ span tmp 8 := fun hmem =>
      Set.disjoint_left.mp hapart hmem (add_mem_span ptr hi)
    exact (UserAddrs.putUserU64_of_valid hapart hvalid val mem).2 _ hout

end Masika
