import Masika.Arch.Paging.Entry
import Masika.Syscall.TypedCopy

/-!
# Page-aligned copies

`copy_page_aligned_from_user` and `copy_page_aligned_to_user` round the range outwards to page
boundaries, and ask for both boundaries whether they are user addresses, before they check the range
itself as the other copies do.

* The upper boundary is computed with two additions that are not checked, so a pointer near the end
  of the address space makes them overflow.
* The upper boundary lies behind the range.  A range that ends in the last page of user memory has
  the end of user memory as its upper boundary, which is not a user address, and it is refused.

Otherwise the copies do what they should (`pageCopies_iff`).
-/

namespace Masika

open Accessing PageTableEntry

/-- What a copy between the user's `ptr` and a slice should do: its bounds do not overflow, it
succeeds exactly if all bytes are user memory, and then it is complete. -/
structure AlignedCopy (U : UserAddrs) (ptr len src dst : U64) (call : SysCall Unit) : Prop where
  no_overflow : len ≠ 0#64 → ptr.toNat + len.toNat + 0xFFF < 2 ^ 64
  succeeds : ∀ mem, (call mem).result = .ok () ↔
    ∀ k < len.toNat, U.isUserAddr (ptr + BitVec.ofNat 64 k) = true
  complete : ∀ mem, (call mem).result = .ok () → (call mem).mem = moved mem src dst len.toNat

/-- The range is user memory, and it ends in the last page of it. -/
def EndsInLastPage (U : UserAddrs) (ptr len : U64) : Prop :=
  U.lo ≤ ptr.toNat ∧ U.hi < ptr.toNat + len.toNat + 4096 ∧ ptr.toNat + len.toNat ≤ U.hi

section Checks

variable {U : UserAddrs} {ptr len : U64}

/-- All bytes of a range that does not wrap around. -/
lemma allUser_iff (hlen : len ≠ 0#64) (hfits : ptr.toNat + len.toNat < 2 ^ 64) :
    (∀ k < len.toNat, U.isUserAddr (ptr + BitVec.ofNat 64 k) = true) ↔
      U.lo ≤ ptr.toNat ∧ ptr.toNat + len.toNat ≤ U.hi := by
  have hpos : 0 < len.toNat := Nat.pos_of_ne_zero fun h => hlen (BitVec.eq_of_toNat_eq h)
  have hsum : ∀ k < len.toNat, (ptr + BitVec.ofNat 64 k).toNat = ptr.toNat + k := by
    intro k hk
    rw [BitVec.toNat_add, BitVec.toNat_ofNat]
    omega
  constructor
  · intro h
    have hfirst := (U.isUserAddr_iff _).mp (h 0 hpos)
    have hlast := (U.isUserAddr_iff _).mp (h (len.toNat - 1) (by omega))
    rw [hsum 0 hpos] at hfirst
    rw [hsum (len.toNat - 1) (by omega)] at hlast
    omega
  · rintro ⟨hlo, hhi⟩ k hk
    rw [U.isUserAddr_iff, hsum k hk]
    omega

/-- **The checks refuse one kind of user range only**, that which ends in the last page. -/
lemma checks_iff (hlo : 4096 ∣ U.lo) (hhi : 4096 ∣ U.hi) (hlen : len ≠ 0#64)
    (hfits : ptr.toNat + len.toNat + 0xFFF < 2 ^ 64) :
    (U.alignedEndsInside ptr len = true ∧ U.validateUserPtr ptr len = true) ↔
      (U.lo ≤ ptr.toNat ∧ ptr.toNat + len.toNat ≤ U.hi) ∧ ¬ EndsInLastPage U ptr len := by
  have hpos : 0 < len.toNat := Nat.pos_of_ne_zero fun h => hlen (BitVec.eq_of_toNat_eq h)
  have hend : (ptr + len).toNat = ptr.toNat + len.toNat := by
    rw [BitVec.toNat_add]
    omega
  have haligned : (ptr + len + 0xFFF#64).toNat = ptr.toNat + len.toNat + 0xFFF := by
    rw [BitVec.toNat_add, hend, show (0xFFF#64).toNat = 0xFFF from rfl]
    omega
  have hnull : U.lo ≤ 0 → U.hi ≤ 0 := by
    intro h
    by_contra hpos
    have hzero := (U.isUserAddr_iff 0#64).mpr ⟨h, Nat.lt_of_not_le hpos⟩
    rw [U.null_outside] at hzero
    exact Bool.false_ne_true hzero
  have hvalid : U.validateUserPtr ptr len = true ↔
      ptr ≠ 0#64 ∧ U.isUserAddr ptr = true ∧ U.isUserAddr (ptr + len) = true := by
    rw [UserAddrs.validateUserPtr]
    simp only [if_neg hlen, BitVec.lt_def, hend,
      if_neg (show ¬ ptr.toNat + len.toNat < ptr.toNat by omega)]
    split_ifs with hzero <;> simp [hzero]
  obtain ⟨a, ha⟩ := hlo
  obtain ⟨b, hb⟩ := hhi
  rw [hvalid, ← BitVec.toNat_ne_iff_ne]
  simp only [UserAddrs.alignedEndsInside, Bool.and_eq_true, U.isUserAddr_iff,
    toNat_and_not_flagMask, haligned, hend, EndsInLastPage, show (0#64).toNat = 0 from rfl]
  omega

/-- The checks that come before both copies. -/
def alignedGuard (U : UserAddrs) (ptr len : U64) (copy : SysCall Unit) : SysCall Unit :=
  if len = 0#64 then pure ()
  else if ¬ U.alignedEndsInside ptr len then exit (-1)
  else if ¬ U.validateUserPtr ptr len then exit (-1)
  else copy

lemma alignedGuard_cases (hlen : len ≠ 0#64) (copy : SysCall Unit) :
    ((U.alignedEndsInside ptr len = true ∧ U.validateUserPtr ptr len = true) ∧
        alignedGuard U ptr len copy = copy) ∨
      (¬ (U.alignedEndsInside ptr len = true ∧ U.validateUserPtr ptr len = true) ∧
        alignedGuard U ptr len copy = exit (-1)) := by
  rw [alignedGuard, if_neg hlen]
  by_cases hends : U.alignedEndsInside ptr len = true
  · rw [if_neg (not_not.mpr hends)]
    by_cases hvalid : U.validateUserPtr ptr len = true
    · exact .inl ⟨⟨hends, hvalid⟩, if_neg (not_not.mpr hvalid)⟩
    · exact .inr ⟨fun h => hvalid h.2, if_pos hvalid⟩
  · exact .inr ⟨fun h => hends h.1, if_pos hends⟩

/-- **Both copies at once**: a copy that moves every range which passes `validate_user_ptr`. -/
lemma alignedCopy_iff {src dst : U64} {copy : SysCall Unit} (hlo : 4096 ∣ U.lo)
    (hhi : 4096 ∣ U.hi) (hcopy : U.validateUserPtr ptr len = true → len ≠ 0#64 → ∀ mem,
      (copy mem).result = .ok () ∧ (copy mem).mem = moved mem src dst len.toNat) :
    AlignedCopy U ptr len src dst (alignedGuard U ptr len copy) ↔
      len = 0#64 ∨
        (ptr.toNat + len.toNat + 0xFFF < 2 ^ 64 ∧ ¬ EndsInLastPage U ptr len) := by
  by_cases hlen : len = 0#64
  · refine iff_of_true ⟨fun h => absurd hlen h, fun mem => ?_, fun mem _ => ?_⟩ (.inl hlen)
    · rw [alignedGuard, if_pos hlen, hlen]
      exact iff_of_true rfl fun k hk => absurd hk (Nat.not_lt_zero k)
    · rw [alignedGuard, if_pos hlen, hlen]
      rfl
  rw [or_iff_right hlen]
  have hcases : (_ ∧ alignedGuard U ptr len copy = copy) ∨
      (_ ∧ alignedGuard U ptr len copy = exit (-1)) := alignedGuard_cases hlen copy
  constructor
  · intro h
    have hfits := h.no_overflow hlen
    refine ⟨hfits, fun hlast => ?_⟩
    have hsucceeds := (h.succeeds fun _ => 0#8).mpr
      ((allUser_iff hlen (by omega)).mpr ⟨hlast.1, hlast.2.2⟩)
    rcases hcases with ⟨hchecks, -⟩ | ⟨-, hguard⟩
    · exact ((checks_iff hlo hhi hlen hfits).mp hchecks).2 hlast
    · rw [hguard] at hsucceeds
      exact result_exit_ne_ok _ _ hsucceeds
  · rintro ⟨hfits, hlast⟩
    have hall := allUser_iff (U := U) hlen (show ptr.toNat + len.toNat < 2 ^ 64 by omega)
    have hiff := checks_iff hlo hhi hlen hfits
    rcases hcases with ⟨hchecks, hguard⟩ | ⟨hfail, hguard⟩
    · refine ⟨fun _ => hfits, fun mem => ?_, fun mem _ => ?_⟩
      · rw [hguard, hall]
        exact iff_of_true (hcopy hchecks.2 hlen mem).1 (hiff.mp hchecks).1
      · rw [hguard]
        exact (hcopy hchecks.2 hlen mem).2
    · refine ⟨fun _ => hfits, fun mem => ?_, fun mem hok => ?_⟩
      · rw [hguard, hall]
        exact iff_of_false (result_exit_ne_ok _ _) fun hin => hfail (hiff.mpr ⟨hin, hlast⟩)
      · rw [hguard] at hok
        exact absurd hok (result_exit_ne_ok _ _)

end Checks

/-- **When the page-aligned copies are right.**  Nothing is to be copied; or the bounds do not
overflow, and the range does not end in the last page of user memory. -/
theorem pageCopies_iff (U : UserAddrs) (hlo : 4096 ∣ U.lo) (hhi : 4096 ∣ U.hi) (ptr : U64)
    (slice : KernelSlice)
    (hapart : Disjoint (span ptr slice.len.toNat) (span slice.ptr slice.len.toNat)) :
    (AlignedCopy U ptr slice.len ptr slice.ptr (U.copyPageAlignedFromUser slice ptr) ∧
        AlignedCopy U ptr slice.len slice.ptr ptr (U.copyPageAlignedToUser ptr slice)) ↔
      slice.len = 0#64 ∨ (ptr.toNat + slice.len.toNat + 0xFFF < 2 ^ 64 ∧
        ¬ EndsInLastPage U ptr slice.len) := by
  have hfrom :
      AlignedCopy U ptr slice.len ptr slice.ptr (U.copyPageAlignedFromUser slice ptr) ↔ _ :=
    alignedCopy_iff hlo hhi fun hvalid hlen => UserAddrs.copyFromUser_moves
      (UserAddrs.validateUserPtr_ends hvalid hlen)
      (fun k hk => UserAddrs.validateUserPtr_inside hvalid hk) hapart
  have hto : AlignedCopy U ptr slice.len slice.ptr ptr (U.copyPageAlignedToUser ptr slice) ↔ _ :=
    alignedCopy_iff hlo hhi fun hvalid hlen => UserAddrs.copyToUser_moves
      (UserAddrs.validateUserPtr_ends hvalid hlen)
      (fun k hk => UserAddrs.validateUserPtr_inside hvalid hk) hapart.symm
  rw [hfrom, hto, and_self_iff]

/-- A buffer of the kernel, above user memory. -/
def kernelBuffer (len : U64) : KernelSlice := ⟨0xFFFF800000000000#64, len⟩

/-- The last byte of a page and the first one of the next. -/
theorem pageCopies_over_boundary :
    AlignedCopy lowerHalf 0x40000FFF#64 2#64 0x40000FFF#64 0xFFFF800000000000#64
      (lowerHalf.copyPageAlignedFromUser (kernelBuffer 2#64) 0x40000FFF#64) := by
  have hapart : Disjoint (span 0x40000FFF#64 2) (span 0xFFFF800000000000#64 2) := by
    rw [Set.disjoint_left]
    intro x hx hx'
    rw [mem_span] at hx hx'
    bv_omega
  refine ((pageCopies_iff lowerHalf (by decide) (by decide) 0x40000FFF#64 (kernelBuffer 2#64)
    hapart).mpr (.inr ⟨by decide, fun h => ?_⟩)).1
  exact absurd h.2.1 (by decide)

/-- **The last byte of user memory is refused, and a pointer to the end of the address space makes
the bounds overflow.** -/
theorem pageCopies_fail :
    ((∀ k < (1#64).toNat, lowerHalf.isUserAddr (0x7FFFFFFFFFFF#64 + BitVec.ofNat 64 k) = true) ∧
        (lowerHalf.copyPageAlignedFromUser (kernelBuffer 1#64) 0x7FFFFFFFFFFF#64
          fun _ => 0#8).result = .error (-1)) ∧
      ¬ AlignedCopy lowerHalf 0x7FFFFFFFFFFF#64 1#64 0x7FFFFFFFFFFF#64 0xFFFF800000000000#64
        (lowerHalf.copyPageAlignedFromUser (kernelBuffer 1#64) 0x7FFFFFFFFFFF#64) ∧
      ¬ AlignedCopy lowerHalf 0xFFFFFFFFFFFFFFFF#64 1#64 0xFFFF800000000000#64
        0xFFFFFFFFFFFFFFFF#64
        (lowerHalf.copyPageAlignedToUser 0xFFFFFFFFFFFFFFFF#64 (kernelBuffer 1#64)) := by
  have hall : ∀ k < (1#64).toNat,
      lowerHalf.isUserAddr (0x7FFFFFFFFFFF#64 + BitVec.ofNat 64 k) = true := by decide
  have hresult : (lowerHalf.copyPageAlignedFromUser (kernelBuffer 1#64) 0x7FFFFFFFFFFF#64
      fun _ => 0#8).result = .error (-1) := rfl
  refine ⟨⟨hall, hresult⟩, fun h => ?_, fun h => ?_⟩
  · have hok := (h.succeeds fun _ => 0#8).mpr hall
    rw [hresult] at hok
    cases hok
  · exact absurd (h.no_overflow (by decide)) (by decide)

end Masika
