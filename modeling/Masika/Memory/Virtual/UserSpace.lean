import Masika.Memory.Virtual.Operations
import Masika.Syscall.UserCopy

/-!
# What counts as user memory

Two parts of the kernel decide which addresses belong to a process, and each has its own bounds and
its own check: `validate_user_range` of `memory/virtual.rs` and `validate_user_pointer` of
`syscall/core.rs`.

* The former adds start and length without looking for an overflow, and it compares the sum with
  `>=`.  So it refuses a range that ends where user space ends, and it accepts a range that goes
  around the end of the address space (`validateUserRange_decides_iff`).  It is the only check
  before the raw copies `copy_to_user` and `copy_from_user`.
* The latter does both correctly, but its upper bound has one digit more than that of the former.
  What it accepts is user memory in the sense of `memory/virtual.rs` unless it goes beyond 2 ^ 47
  (`validateUserPointer_in_userHalf_iff`).
-/

namespace Masika

open Accessing

namespace VirtualMemoryManager

/-! ## The copies -/

/-- One byte of a copy; the pointers come from `via` and `via'`. -/
def copyByte (via via' : Pointer) (src dst : U64) (i : ℕ) :
    Accessing Pointer U64 U8 VmmError (Option Unit) := do
  let byte ← load via (src + BitVec.ofNat 64 i)
  store via' (dst + BitVec.ofNat 64 i) byte
  pure none

/-- `ptr::copy_nonoverlapping(src, dst, len)`. -/
def copyNonoverlapping (via via' : Pointer) (src dst len : U64) :
    Accessing Pointer U64 U8 VmmError Unit := do
  let _ ← scan (copyByte via via' src dst) len.toNat 0
  pure ()

/-- The range is checked, not the pages. -/
def copyToUser (dest : U64) (src : KernelSlice) : Accessing Pointer U64 U8 VmmError Unit :=
  if ¬ validateUserRange dest src.len then exit .accessDenied
  else copyNonoverlapping .kernel .user src.ptr dest src.len

/-- The other way. -/
def copyFromUser (dest : KernelSlice) (src : U64) : Accessing Pointer U64 U8 VmmError Unit :=
  if ¬ validateUserRange src dest.len then exit .accessDenied
  else copyNonoverlapping .user .kernel src dest.ptr dest.len

/-- A copy is made completely, byte by byte. -/
lemma copyNonoverlapping_spec (via via' : Pointer) (src dst len : U64) (mem : U64 → U8) :
    (copyNonoverlapping via via' src dst len mem).result = .ok () ∧
      (copyNonoverlapping via via' src dst len mem).trace
        = (List.range' 0 len.toNat).flatMap fun i =>
          [⟨via, .read, src + BitVec.ofNat 64 i⟩, ⟨via', .write, dst + BitVec.ofNat 64 i⟩] := by
  have hround : ∀ k mem, (copyByte via via' src dst k mem).result = .ok none ∧
      (copyByte via via' src dst k mem).trace
        = [⟨via, .read, src + BitVec.ofNat 64 k⟩, ⟨via', .write, dst + BitVec.ofNat 64 k⟩] :=
    fun _ _ => ⟨rfl, rfl⟩
  obtain ⟨hresult, htrace⟩ := scan_of_unanswered hround len.toNat 0 mem
  rw [copyNonoverlapping, trace_bind_of_silent (fun _ _ => rfl) mem]
  exact ⟨result_map_eq_ok.mpr ⟨none, hresult, rfl⟩, htrace⟩

/-- The addresses that a program accesses through pointers of the user. -/
def userAccesses (program : Accessing Pointer U64 U8 VmmError Unit) (mem : U64 → U8) : Set U64 :=
  {a | ∃ x ∈ (program mem).trace, x.via = .user ∧ x.addr = a}

/-- The user's side of a copy is its source, its target, or both. -/
lemma mem_userAccesses_copy {via via' : Pointer} {src dst len : U64} {mem : U64 → U8} {a : U64} :
    a ∈ userAccesses (copyNonoverlapping via via' src dst len) mem ↔
      ∃ i < len.toNat, via = .user ∧ a = src + BitVec.ofNat 64 i ∨
        via' = .user ∧ a = dst + BitVec.ofNat 64 i := by
  simp only [userAccesses, (copyNonoverlapping_spec ..).2, Set.mem_ofPred_eq, List.mem_flatMap,
    List.mem_range'_1, List.mem_cons, List.not_mem_nil, or_false]
  constructor
  · rintro ⟨x, ⟨i, hi, rfl | rfl⟩, hvia, rfl⟩
    · exact ⟨i, by omega, .inl ⟨hvia, rfl⟩⟩
    · exact ⟨i, by omega, .inr ⟨hvia, rfl⟩⟩
  · rintro ⟨i, hi, ⟨hvia, rfl⟩ | ⟨hvia, rfl⟩⟩
    · exact ⟨_, ⟨i, by omega, .inl rfl⟩, hvia, rfl⟩
    · exact ⟨_, ⟨i, by omega, .inr rfl⟩, hvia, rfl⟩

lemma userAccesses_copy_to (src dst len : U64) (mem : U64 → U8) :
    userAccesses (copyNonoverlapping .kernel .user src dst len) mem
      = {a | ∃ i < len.toNat, a = dst + BitVec.ofNat 64 i} := by
  ext a
  simp [mem_userAccesses_copy]

lemma userAccesses_copy_from (src dst len : U64) (mem : U64 → U8) :
    userAccesses (copyNonoverlapping .user .kernel src dst len) mem
      = {a | ∃ i < len.toNat, a = src + BitVec.ofNat 64 i} := by
  ext a
  simp [mem_userAccesses_copy]

/-! ## `validate_user_range` -/

/-- The `len` bytes from `start` on are user memory.  The sum is one of natural numbers. -/
def InUserHalf (start len : ℕ) : Prop :=
  USER_SPACE_BASE.toNat ≤ start ∧ start < USER_SPACE_END.toNat ∧ start + len ≤ USER_SPACE_END.toNat

instance (start len : ℕ) : Decidable (InUserHalf start len) := instDecidableAnd

/-- A copy between the kernel and the `len` bytes from `start` on: it accesses exactly these bytes
when they are user memory, and otherwise it is refused without an access. -/
def CopiesUserMemory (start len : U64) (copy : Accessing Pointer U64 U8 VmmError Unit) : Prop :=
  ∀ mem,
    if InUserHalf start.toNat len.toNat then
      (copy mem).result = .ok () ∧
        userAccesses copy mem = {a | start.toNat ≤ a.toNat ∧ a.toNat < start.toNat + len.toNat}
    else copy mem = ⟨.error .accessDenied, mem, []⟩

/-- What the check is for: its sum does not overflow, it decides whether the range is user memory,
and so it protects the copies. -/
structure DecidesContainment (start len : U64) : Prop where
  no_overflow : start.toNat + len.toNat < 2 ^ 64
  decides : validateUserRange start len = true ↔ InUserHalf start.toNat len.toNat
  copyToUser : ∀ ptr, CopiesUserMemory start len (copyToUser start ⟨ptr, len⟩)
  copyFromUser : ∀ ptr, CopiesUserMemory start len (copyFromUser ⟨ptr, len⟩ start)

/-- What the check computes. -/
lemma validateUserRange_iff (start len : U64) :
    validateUserRange start len = true ↔ USER_SPACE_BASE.toNat ≤ start.toNat ∧
      start.toNat < USER_SPACE_END.toNat ∧
      (start.toNat + len.toNat) % 2 ^ 64 < USER_SPACE_END.toNat := by
  simp only [validateUserRange, BitVec.toNat_add]
  split_ifs with hend hbase
  · simp only [false_iff]
    omega
  · simp only [false_iff]
    omega
  · simp only [true_iff]
    omega

/-- The bytes of a range that does not wrap around. -/
lemma setOf_bytes {start len : U64} (h : start.toNat + len.toNat ≤ 2 ^ 64) :
    {a : U64 | ∃ i < len.toNat, a = start + BitVec.ofNat 64 i}
      = {a | start.toNat ≤ a.toNat ∧ a.toNat < start.toNat + len.toNat} := by
  ext a
  simp only [Set.mem_ofPred_eq, ← BitVec.toNat_inj, BitVec.toNat_add, BitVec.toNat_ofNat]
  constructor
  · rintro ⟨i, hi, ha⟩
    omega
  · rintro ⟨hle, hlt⟩
    exact ⟨a.toNat - start.toNat, by omega, by omega⟩

/-- **A guarded copy is as good as its check.** -/
lemma copiesUserMemory_of_check {start len : U64}
    (hcheck : validateUserRange start len = true ↔ InUserHalf start.toNat len.toNat)
    {copy : Accessing Pointer U64 U8 VmmError Unit} (hok : ∀ mem, (copy mem).result = .ok ())
    (hbytes : ∀ mem, userAccesses copy mem = {a | ∃ i < len.toNat, a = start + BitVec.ofNat 64 i}) :
    CopiesUserMemory start len
      (if ¬ validateUserRange start len then exit .accessDenied else copy) := by
  intro mem
  by_cases hin : InUserHalf start.toNat len.toNat
  · have hvalid := hcheck.mpr hin
    have hsum : start.toNat + len.toNat ≤ 2 ^ 64 := hin.2.2.trans (by decide)
    rw [if_pos hin, if_neg (by simp [hvalid]), ← setOf_bytes hsum]
    exact ⟨hok mem, hbytes mem⟩
  · have hrefused : ¬ validateUserRange start len = true := fun h => hin (hcheck.mp h)
    rw [if_neg hin, if_pos hrefused]
    rfl

/-- **When `validate_user_range` decides containment.**  The sum must not overflow, and the range
must not end exactly where user space ends. -/
theorem validateUserRange_decides_iff (start len : U64) :
    DecidesContainment start len ↔ start.toNat + len.toNat < 2 ^ 64 ∧
      ¬ (InUserHalf start.toNat len.toNat ∧
        start.toNat + len.toNat = USER_SPACE_END.toNat) := by
  have hend : USER_SPACE_END.toNat = 2 ^ 47 := rfl
  constructor
  · intro h
    refine ⟨h.no_overflow, fun ⟨hin, hlast⟩ => ?_⟩
    have haccepted := (validateUserRange_iff start len).mp (h.decides.mpr hin)
    omega
  · rintro ⟨hsum, hlast⟩
    have hcheck : validateUserRange start len = true ↔ InUserHalf start.toNat len.toNat := by
      rw [validateUserRange_iff, Nat.mod_eq_of_lt hsum]
      simp only [InUserHalf] at hlast ⊢
      omega
    refine ⟨hsum, hcheck, fun ptr => ?_, fun ptr => ?_⟩
    · exact copiesUserMemory_of_check hcheck (fun mem => (copyNonoverlapping_spec ..).1)
        fun mem => userAccesses_copy_to ..
    · exact copiesUserMemory_of_check hcheck (fun mem => (copyNonoverlapping_spec ..).1)
        fun mem => userAccesses_copy_from ..

/-- **The last page of user space is refused, and a range around the end of the address space is
accepted.** -/
theorem validateUserRange_fails_at_the_ends :
    (InUserHalf 0x7FFFFFFFF000 0x1000 ∧
        validateUserRange 0x7FFFFFFFF000#64 0x1000#64 = false) ∧
      (¬ InUserHalf 0x100000 0xFFFFFFFFFFFFF000 ∧
        validateUserRange 0x100000#64 0xFFFFFFFFFFFFF000#64 = true) ∧
      ¬ ∀ start len, DecidesContainment start len := by
  refine ⟨by decide +kernel, by decide +kernel, fun hall => ?_⟩
  have haccepted := (hall 0x7FFFFFFFF000#64 0x1000#64).decides.mpr (by decide +kernel)
  exact absurd haccepted (by decide +kernel)

/-! ## `validate_user_pointer` -/

/-- All of the `len` bytes from `addr` on lie in the user half. -/
def BytesInUserHalf (addr len : U64) : Prop :=
  ∀ i < len.toNat, USER_SPACE_BASE.toNat ≤ addr.toNat + i ∧ addr.toNat + i < USER_SPACE_END.toNat

/-- What the check of `syscall/core.rs` computes for a range that is not empty. -/
lemma validateUserPointer_iff {addr len : U64} (hlen : 1 ≤ len.toNat) :
    validateUserPointer addr len = true ↔
      Masika.USER_SPACE_START ≤ addr.toNat ∧ addr.toNat + len.toNat ≤ Masika.USER_SPACE_END := by
  constructor
  · intro h
    simp only [validateUserPointer] at h
    split_ifs at h with hnull hrange hwrap hend
    omega
  · rintro ⟨hstart, hend⟩
    have hnull : addr ≠ 0#64 := by
      rintro rfl
      exact absurd hstart (by decide)
    have hlimit : Masika.USER_SPACE_END < 2 ^ 64 := by decide
    simp only [validateUserPointer]
    rw [if_neg hnull, if_neg (by omega), if_neg (by omega), if_neg (by omega)]

/-- **When what `validate_user_pointer` accepts is user memory for `memory/virtual.rs`**: unless the
range goes beyond 2 ^ 47 and still ends below the larger bound of `syscall/core.rs`. -/
theorem validateUserPointer_in_userHalf_iff (addr len : U64) (hlen : 1 ≤ len.toNat) :
    (validateUserPointer addr len = true → BytesInUserHalf addr len) ↔
      ¬ (Masika.USER_SPACE_START ≤ addr.toNat ∧
        USER_SPACE_END.toNat < addr.toNat + len.toNat ∧
        addr.toNat + len.toNat ≤ Masika.USER_SPACE_END) := by
  have hbase : USER_SPACE_BASE.toNat ≤ Masika.USER_SPACE_START := by decide
  rw [validateUserPointer_iff hlen]
  constructor
  · rintro h ⟨hstart, hbeyond, hend⟩
    have hlast := (h ⟨hstart, hend⟩ (len.toNat - 1) (by omega)).2
    omega
  · rintro h ⟨hstart, hend⟩ i hi
    omega

/-- The first byte of user space. -/
theorem first_byte_in_userHalf : 1 ≤ (1#64).toNat ∧ BytesInUserHalf 0x40000000#64 1#64 :=
  ⟨by decide, (validateUserPointer_in_userHalf_iff 0x40000000#64 1#64 (by decide)).mpr
    (by decide) (by decide)⟩

/-- The first byte beyond the user half is accepted. -/
theorem validateUserPointer_accepts_beyond :
    validateUserPointer 0x800000000000#64 1#64 = true ∧
      ¬ BytesInUserHalf 0x800000000000#64 1#64 := by
  refine ⟨by decide, fun h => ?_⟩
  exact absurd (h 0 (by decide)).2 (by decide)

end VirtualMemoryManager

end Masika
