import Masika.Syscall.Core

/-!
# Copying from and to user memory

The functions of `syscall/dispatch.rs` that follow pointers of the caller.  They ask `is_user_addr`,
which is not part of the repository; it is taken to hold on one interval of addresses that does not
contain null (`UserAddrs`).

Two kinds of checks are used.  `copy_from_user` and `copy_to_user` ask for every byte again, which
protects them whatever their callers have checked.  `validate_user_ptr` asks only for the two ends
of a range; since it refuses ranges that wrap around, an interval that contains both ends contains
the range (`validateUserPtr_inside`), and this is all that `validate_iovec` and
`validate_and_get_user_slice` rely on.

The latter computes the number of bytes of the slice first, and this product may wrap.  Everything
else stays inside, whatever the arguments are (`userCopy_confined_iff`).

User memory and kernel memory are one memory here, and accesses are labelled with the pointer they
go through.  A slice of the kernel is its address and length; a local variable whose address is
taken has an address `tmp`.  Arithmetic is that of a release build.
-/

namespace Masika

open Accessing

/-- `is_user_addr`. -/
structure UserAddrs where
  isUserAddr : U64 → Bool
  lo : ℕ
  hi : ℕ
  isUserAddr_iff : ∀ a, isUserAddr a = true ↔ lo ≤ a.toNat ∧ a.toNat < hi
  null_outside : isUserAddr 0#64 = false

/-- A call with a `SysResult`. -/
abbrev SysCall := Accessing Pointer U64 U8 ℤ

/-- A slice: its address and its length. -/
structure KernelSlice where
  ptr : U64
  len : U64

/-- A slice of `count` elements of `size` bytes each. -/
structure UserSlice where
  ptr : U64
  count : U64
  size : U64

/-! ## Words in memory -/

/-- Reads `n` bytes as a number, least significant byte first. -/
def loadWord (via : Pointer) (a : U64) : ℕ → SysCall U64
  | 0 => pure 0#64
  | n + 1 => do
    let byte ← load via a
    let rest ← loadWord via (a + 1#64) n
    pure (rest <<< 8 ||| byte.setWidth 64)

/-- Store the low bytes of a word. -/
def storeWord (via : Pointer) (a word : U64) : ℕ → SysCall Unit
  | 0 => pure ()
  | n + 1 => do
    store via a (word.setWidth 8)
    storeWord via (a + 1#64) (word >>> 8) n

namespace UserAddrs

variable (U : UserAddrs)

/-! ## Copies and checks -/

/-- Byte by byte, each one checked. -/
def copyFromUser (dst src len : U64) : SysCall Unit :=
  if ¬ U.isUserAddr src ∨ ¬ U.isUserAddr (src + len) then exit (-1)
  else do
    let _ ← scan (fun i =>
      let srcPtr := src + BitVec.ofNat 64 i
      if ¬ U.isUserAddr srcPtr then exit (-1)
      else do
        let byte ← load .user srcPtr
        store .kernel (dst + BitVec.ofNat 64 i) byte
        pure (none : Option Unit)) len.toNat 0
    pure ()

/-- The other way. -/
def copyToUser (dst src len : U64) : SysCall Unit :=
  if ¬ U.isUserAddr dst ∨ ¬ U.isUserAddr (dst + len) then exit (-1)
  else do
    let _ ← scan (fun i =>
      let dstPtr := dst + BitVec.ofNat 64 i
      if ¬ U.isUserAddr dstPtr then exit (-1)
      else do
        let byte ← load .kernel (src + BitVec.ofNat 64 i)
        store .user dstPtr byte
        pure (none : Option Unit)) len.toNat 0
    pure ()

/-- Both ends are in user space. -/
def validateUserPtr (ptr size : U64) : Bool :=
  if ptr = 0#64 then false
  else if size = 0#64 then true
  else
    let stop := ptr + size
    if stop < ptr then false else U.isUserAddr ptr && U.isUserAddr stop

/-! ## Arrays and words -/

/-- `copy_from_user_array::<T>`, where `size` is the size of `T`. -/
def copyFromUserArray (size : U64) (dst : KernelSlice) (src : U64) : SysCall Unit :=
  let byteSize := dst.len * size
  if dst.len = 0#64 then pure ()
  else if ¬ U.validateUserPtr src byteSize then exit (-1)
  else U.copyFromUser dst.ptr src byteSize

/-- The elements of a slice. -/
def copyToUserArray (size dst : U64) (src : KernelSlice) : SysCall Unit :=
  let byteSize := src.len * size
  if src.len = 0#64 then pure ()
  else if ¬ U.validateUserPtr dst byteSize then exit (-1)
  else U.copyToUser dst src.ptr byteSize

/-- Fetch a word. -/
def getUserU64 (tmp ptr : U64) : SysCall U64 :=
  if ¬ U.validateUserPtr ptr 8#64 then exit (-1)
  else do
    storeWord .kernel tmp 0#64 8
    U.copyFromUser tmp ptr 8#64
    loadWord .kernel tmp 8

/-- Store a word. -/
def putUserU64 (tmp ptr val : U64) : SysCall Unit :=
  if ¬ U.validateUserPtr ptr 8#64 then exit (-1)
  else do
    storeWord .kernel tmp val 8
    U.copyToUser ptr tmp 8#64

/-! ## Strings -/

/-- The steps with which all three string functions fetch a byte. -/
def fetchByte (tmp ptr : U64) : SysCall U8 :=
  if ¬ U.validateUserPtr ptr 1#64 then exit (-1)
  else do
    store .kernel tmp 0#8
    U.copyFromUser tmp ptr 1#64
    load .kernel tmp

/-- The last round is that with `len = 4096`; after it the string is too long. -/
def validateStringPtr (tmp ptr : U64) : SysCall U64 := do
  let found ← scan (fun len => do
    let byte ← U.fetchByte tmp (ptr + BitVec.ofNat 64 len)
    pure (if byte = 0#8 then some len else none)) 4097 0
  match found with
  | some len => pure (BitVec.ofNat 64 len)
  | none => exit (-1)

/-- Up to a zero, or until the buffer is full. -/
def copyStringFromUser (tmp : U64) (dst : KernelSlice) (src : U64) : SysCall U64 := do
  let maxLen := min dst.len.toNat 4096
  let found ← scan (fun i => do
    let byte ← U.fetchByte tmp (src + BitVec.ofNat 64 i)
    if byte = 0#8 then pure (some i)
    else do
      store .kernel (dst.ptr + BitVec.ofNat 64 i) byte
      pure none) maxLen 0
  pure (BitVec.ofNat 64 (found.getD maxLen))

/-- The bytes of a string, without a zero. -/
def copyStringToUser (dst : U64) (src : KernelSlice) : SysCall Unit :=
  if ¬ U.validateUserPtr dst src.len then exit (-1)
  else if src.len = 0#64 then pure ()
  else U.copyToUser dst src.ptr src.len

/-- `Vec::with_capacity` gives the address `vec`. -/
def copyFromUserWithLimit (tmp vec src limit : U64) : SysCall KernelSlice := do
  let found ← scan (fun len => do
    let byte ← U.fetchByte tmp (src + BitVec.ofNat 64 len)
    pure (if byte = 0#8 then some len else none)) limit.toNat 0
  let len := BitVec.ofNat 64 (found.getD limit.toNat)
  if len = limit then exit (-1)
  else do
    U.copyFromUser vec src len
    pure ⟨vec, len⟩

/-! ## Vectors of buffers -/

/-- The size of `IoVec`, a pointer and a length. -/
def IOVEC_SIZE : U64 := 16#64

/-- The vector, and then each of its buffers. -/
def validateIovec (vec count : U64) : SysCall Unit :=
  if count = 0#64 then pure ()
  else if count.toNat > 1024 then exit (-1)
  else if ¬ U.validateUserPtr vec (count * IOVEC_SIZE) then exit (-1)
  else do
    let _ ← scan (fun i => do
      let iov := vec + BitVec.ofNat 64 i * IOVEC_SIZE
      let base ← loadWord .user iov 8
      let len ← loadWord .user (iov + 8#64) 8
      if ¬ U.validateUserPtr base len then exit (-1) else pure (none : Option Unit)) count.toNat 0
    pure ()

/-- Fetch an array of `IoVec`. -/
def copyIovecFromUser (dst : KernelSlice) (src : U64) : SysCall Unit :=
  U.copyFromUserArray IOVEC_SIZE dst src

/-- Store an array of `IoVec`. -/
def copyIovecToUser (dst : U64) (src : KernelSlice) : SysCall Unit :=
  U.copyToUserArray IOVEC_SIZE dst src

/-! ## Pages -/

/-- The two page boundaries around a range are user addresses. -/
def alignedEndsInside (start size : U64) : Bool :=
  let alignedStart := start &&& ~~~0xFFF#64
  let alignedEnd := (start + size + 0xFFF#64) &&& ~~~0xFFF#64
  U.isUserAddr alignedStart && U.isUserAddr alignedEnd

/-- All pages of the range have to be in user space. -/
def copyPageAlignedFromUser (dst : KernelSlice) (src : U64) : SysCall Unit :=
  if dst.len = 0#64 then pure ()
  else if ¬ U.alignedEndsInside src dst.len then exit (-1)
  else if ¬ U.validateUserPtr src dst.len then exit (-1)
  else U.copyFromUser dst.ptr src dst.len

/-- The other way. -/
def copyPageAlignedToUser (dst : U64) (src : KernelSlice) : SysCall Unit :=
  if src.len = 0#64 then pure ()
  else if ¬ U.alignedEndsInside dst src.len then exit (-1)
  else if ¬ U.validateUserPtr dst src.len then exit (-1)
  else U.copyToUser dst src.ptr src.len

/-! ## Slices of user memory -/

/-- `validate_and_get_user_slice::<T>`.  The empty slice is not at any address of the caller. -/
def validateAndGetUserSlice (size ptr count : U64) : SysCall UserSlice :=
  let byteSize := count * size
  if count = 0#64 then pure ⟨0#64, 0#64, size⟩
  else if count.toNat > 1024 then exit (-1)
  else if ¬ U.validateUserPtr ptr byteSize then exit (-1)
  else pure ⟨ptr, count, size⟩

end UserAddrs

/-! ## All calls together -/

/-- The calls of this layer, with all that their behaviour depends on. -/
inductive UserCall
  | copyFromUser (dst src len : U64)
  | copyToUser (dst src len : U64)
  | copyFromUserArray (size : U64) (dst : KernelSlice) (src : U64)
  | copyToUserArray (size dst : U64) (src : KernelSlice)
  | getUserU64 (tmp ptr : U64)
  | putUserU64 (tmp ptr val : U64)
  | validateStringPtr (tmp ptr : U64)
  | copyStringFromUser (tmp : U64) (dst : KernelSlice) (src : U64)
  | copyStringToUser (dst : U64) (src : KernelSlice)
  | validateIovec (vec count : U64)
  | copyIovecFromUser (dst : KernelSlice) (src : U64)
  | copyIovecToUser (dst : U64) (src : KernelSlice)
  | copyPageAlignedFromUser (dst : KernelSlice) (src : U64)
  | copyPageAlignedToUser (dst : U64) (src : KernelSlice)
  | copyFromUserWithLimit (tmp vec src limit : U64)
  | validateAndGetUserSlice (size ptr count : U64)

/-- The call, with the slice of user memory that it hands out. -/
def UserCall.exec (U : UserAddrs) : UserCall → SysCall (Option UserSlice)
  | copyFromUser dst src len => (fun _ => none) <$> U.copyFromUser dst src len
  | copyToUser dst src len => (fun _ => none) <$> U.copyToUser dst src len
  | copyFromUserArray size dst src => (fun _ => none) <$> U.copyFromUserArray size dst src
  | copyToUserArray size dst src => (fun _ => none) <$> U.copyToUserArray size dst src
  | getUserU64 tmp ptr => (fun _ => none) <$> U.getUserU64 tmp ptr
  | putUserU64 tmp ptr val => (fun _ => none) <$> U.putUserU64 tmp ptr val
  | validateStringPtr tmp ptr => (fun _ => none) <$> U.validateStringPtr tmp ptr
  | copyStringFromUser tmp dst src => (fun _ => none) <$> U.copyStringFromUser tmp dst src
  | copyStringToUser dst src => (fun _ => none) <$> U.copyStringToUser dst src
  | validateIovec vec count => (fun _ => none) <$> U.validateIovec vec count
  | copyIovecFromUser dst src => (fun _ => none) <$> U.copyIovecFromUser dst src
  | copyIovecToUser dst src => (fun _ => none) <$> U.copyIovecToUser dst src
  | copyPageAlignedFromUser dst src => (fun _ => none) <$> U.copyPageAlignedFromUser dst src
  | copyPageAlignedToUser dst src => (fun _ => none) <$> U.copyPageAlignedToUser dst src
  | copyFromUserWithLimit tmp vec src limit =>
    (fun _ => none) <$> U.copyFromUserWithLimit tmp vec src limit
  | validateAndGetUserSlice size ptr count =>
    some <$> U.validateAndGetUserSlice size ptr count

/-- Every byte of the slice is at a user address. -/
def UserSlice.InsideOf (U : UserAddrs) (slice : UserSlice) : Prop :=
  ∀ k < slice.count.toNat * slice.size.toNat,
    U.isUserAddr (slice.ptr + BitVec.ofNat 64 k) = true

/-- The call follows pointers of the user only to user addresses, and hands out nothing else. -/
structure StaysInside (U : UserAddrs) (call : UserCall) (mem : U64 → U8) : Prop where
  accesses : ∀ x ∈ (call.exec U mem).trace, x.via = .user → U.isUserAddr x.addr = true
  slices : ∀ slice, (call.exec U mem).result = .ok (some slice) → slice.InsideOf U

/-- The size of a slice that is asked for fits into a machine word, or the request is refused for
other reasons. -/
def UserCall.SizeFits (U : UserAddrs) : UserCall → Prop
  | validateAndGetUserSlice size ptr count =>
    count = 0#64 ∨ count.toNat > 1024 ∨ count.toNat * size.toNat < 2 ^ 64 ∨
      U.validateUserPtr ptr (count * size) = false
  | _ => True

/-! ## Confinement -/

namespace UserAddrs

variable (U : UserAddrs)

/-- Pointers of the user lead to user addresses. -/
def Permits : Pointer → U64 → Prop
  | .user, a => U.isUserAddr a = true
  | .kernel, _ => True

variable {U}

/-- **Checking the two ends is enough.**  The range does not wrap, so it lies between them. -/
lemma validateUserPtr_inside {ptr size : U64} (h : U.validateUserPtr ptr size = true) {k : ℕ}
    (hk : k < size.toNat) : U.isUserAddr (ptr + BitVec.ofNat 64 k) = true := by
  have hsize := size.isLt
  have hptr := ptr.isLt
  simp only [validateUserPtr] at h
  split_ifs at h with hnull hzero hwrap
  · simp [hzero] at hk
  · rw [Bool.and_eq_true, U.isUserAddr_iff, U.isUserAddr_iff] at h
    rw [BitVec.lt_def, BitVec.toNat_add] at hwrap
    rw [U.isUserAddr_iff]
    rw [BitVec.toNat_add] at h ⊢
    rw [BitVec.toNat_ofNat]
    omega

lemma loadWord_confined (via : Pointer) (n : ℕ) : ∀ (a : U64),
    (∀ i < n, U.Permits via (a + BitVec.ofNat 64 i)) → Confined U.Permits (loadWord via a n) := by
  induction n with
  | zero =>
    intro a _
    exact .pure _
  | succ n ih =>
    intro a h
    refine .bind (.load (by simpa using h 0 (by omega))) fun byte => ?_
    refine .bind (ih _ fun i hi => ?_) fun rest => .pure _
    have hnext := h (i + 1) (by omega)
    rwa [show a + BitVec.ofNat 64 (i + 1) = a + 1#64 + BitVec.ofNat 64 i by
      rw [Nat.add_comm, BitVec.ofNat_add]; ac_rfl] at hnext

lemma storeWord_confined (a word : U64) (n : ℕ) :
    Confined U.Permits (storeWord .kernel a word n) := by
  induction n generalizing a word with
  | zero => exact .pure ()
  | succ n ih => exact .bind (.store _ trivial) fun _ => ih _ _

lemma copyFromUser_confined (dst src len : U64) :
    Confined U.Permits (U.copyFromUser dst src len) := by
  refine .ite (fun _ => .exit _) fun _ => .bind (.scan _ 0 fun i _ _ => ?_) fun _ => .pure ()
  refine .guard fun huser => ?_
  exact .bind (.load huser) fun byte => .bind (.store byte trivial) fun _ => .pure none

lemma copyToUser_confined (dst src len : U64) : Confined U.Permits (U.copyToUser dst src len) := by
  refine .ite (fun _ => .exit _) fun _ => .bind (.scan _ 0 fun i _ _ => ?_) fun _ => .pure ()
  refine .guard fun huser => ?_
  exact .bind (.load trivial) fun byte => .bind (.store byte huser) fun _ => .pure none

lemma copyFromUserArray_confined (size : U64) (dst : KernelSlice) (src : U64) :
    Confined U.Permits (U.copyFromUserArray size dst src) :=
  .ite (fun _ => .pure ()) fun _ => .guard fun _ => copyFromUser_confined _ _ _

lemma copyToUserArray_confined (size dst : U64) (src : KernelSlice) :
    Confined U.Permits (U.copyToUserArray size dst src) :=
  .ite (fun _ => .pure ()) fun _ => .guard fun _ => copyToUser_confined _ _ _

lemma fetchByte_confined (tmp ptr : U64) : Confined U.Permits (U.fetchByte tmp ptr) := by
  refine .guard fun _ => .bind (.store _ trivial) fun _ => ?_
  exact .bind (copyFromUser_confined _ _ _) fun _ => .load trivial

/-- Looking for the end of a string. -/
lemma scanString_confined (tmp ptr : U64) (n : ℕ) :
    Confined U.Permits (scan (fun len => do
      let byte ← U.fetchByte tmp (ptr + BitVec.ofNat 64 len)
      pure (if byte = 0#8 then some len else none)) n 0) :=
  .scan n 0 fun _ _ _ => .bind (fetchByte_confined _ _) fun _ => .pure _

lemma copyStringFromUser_confined (tmp : U64) (dst : KernelSlice) (src : U64) :
    Confined U.Permits (U.copyStringFromUser tmp dst src) := by
  refine .bind (.scan _ 0 fun i _ _ => .bind (fetchByte_confined _ _) fun byte => ?_)
    fun _ => .pure _
  exact .ite (fun _ => .pure _) fun _ => .bind (.store byte trivial) fun _ => .pure none

lemma validateIovec_confined (vec count : U64) :
    Confined U.Permits (U.validateIovec vec count) := by
  refine .ite (fun _ => .pure ()) fun _ => ?_
  refine .ite (fun _ => .exit _) fun hcount => .guard fun hvec => ?_
  have hsize : (count * IOVEC_SIZE).toNat = count.toNat * 16 := by
    rw [IOVEC_SIZE, BitVec.toNat_mul, BitVec.toNat_ofNat]
    omega
  -- byte `j` of entry `i` is byte `16 * i + j` of the vector
  have hinside : ∀ i < count.toNat, ∀ j < 16,
      U.isUserAddr (vec + BitVec.ofNat 64 i * IOVEC_SIZE + BitVec.ofNat 64 j) = true := by
    intro i hi j hj
    have h := validateUserPtr_inside hvec (show i * 16 + j < _ by omega)
    rwa [BitVec.ofNat_add, BitVec.ofNat_mul, ← BitVec.add_assoc] at h
  refine .bind (.scan _ 0 fun i _ hi => ?_) fun _ => .pure ()
  rw [Nat.zero_add] at hi
  refine .bind (loadWord_confined _ _ _ fun j hj => hinside i hi j (by omega)) fun base => ?_
  refine .bind (loadWord_confined _ _ _ fun j hj => ?_) fun len => .guard fun _ => .pure none
  have h := hinside i hi (8 + j) (by omega)
  rwa [BitVec.ofNat_add, ← BitVec.add_assoc] at h

/-- A slice that is handed out has passed the check of its two ends. -/
lemma validateAndGetUserSlice_result {size ptr count : U64} {mem : U64 → U8} {slice : UserSlice} :
    (U.validateAndGetUserSlice size ptr count mem).result = .ok slice ↔
      (count = 0#64 ∧ slice = ⟨0#64, 0#64, size⟩) ∨
        (count ≠ 0#64 ∧ count.toNat ≤ 1024 ∧ U.validateUserPtr ptr (count * size) = true ∧
          slice = ⟨ptr, count, size⟩) := by
  rw [validateAndGetUserSlice]
  split_ifs with hzero hmany hptr
  · simp [hzero, @eq_comm _ slice]
  · simp [hzero, hmany]
  · simp [hzero, hptr, not_lt.mp hmany, @eq_comm _ slice]
  · simp [hzero, hptr]

end UserAddrs

/-- Whatever its arguments, no call follows a pointer of the user out of user memory. -/
lemma UserCall.exec_confined (U : UserAddrs) (call : UserCall) :
    Confined U.Permits (call.exec U) := by
  cases call with
  | copyFromUser dst src len => exact .map _ (U.copyFromUser_confined _ _ _)
  | copyToUser dst src len => exact .map _ (U.copyToUser_confined _ _ _)
  | copyFromUserArray size dst src => exact .map _ (U.copyFromUserArray_confined _ _ _)
  | copyToUserArray size dst src => exact .map _ (U.copyToUserArray_confined _ _ _)
  | getUserU64 tmp ptr =>
    refine .map _ (.guard fun _ => .bind (U.storeWord_confined _ _ _) fun _ => ?_)
    exact .bind (U.copyFromUser_confined _ _ _) fun _ =>
      U.loadWord_confined _ _ _ fun _ _ => trivial
  | putUserU64 tmp ptr val =>
    refine .map _ (.guard fun _ => .bind (U.storeWord_confined _ _ _) fun _ => ?_)
    exact U.copyToUser_confined _ _ _
  | validateStringPtr tmp ptr =>
    refine .map _ (.bind (U.scanString_confined _ _ _) fun found => ?_)
    cases found with
    | none => exact .exit _
    | some len => exact .pure _
  | copyStringFromUser tmp dst src => exact .map _ (U.copyStringFromUser_confined _ _ _)
  | copyStringToUser dst src =>
    exact .map _ (.guard fun _ => .ite (fun _ => .pure ()) fun _ => U.copyToUser_confined _ _ _)
  | validateIovec vec count => exact .map _ (U.validateIovec_confined _ _)
  | copyIovecFromUser dst src => exact .map _ (U.copyFromUserArray_confined _ _ _)
  | copyIovecToUser dst src => exact .map _ (U.copyToUserArray_confined _ _ _)
  | copyPageAlignedFromUser dst src =>
    refine .map _ (.ite (fun _ => .pure ()) fun _ => .guard fun _ => .guard fun _ => ?_)
    exact U.copyFromUser_confined _ _ _
  | copyPageAlignedToUser dst src =>
    refine .map _ (.ite (fun _ => .pure ()) fun _ => .guard fun _ => .guard fun _ => ?_)
    exact U.copyToUser_confined _ _ _
  | copyFromUserWithLimit tmp vec src limit =>
    refine .map _ (.bind (U.scanString_confined _ _ _) fun found => ?_)
    exact .ite (fun _ => .exit _) fun _ => .bind (U.copyFromUser_confined _ _ _) fun _ => .pure _
  | validateAndGetUserSlice size ptr count =>
    refine .map _ (.ite (fun _ => .pure _) fun _ => .ite (fun _ => .exit _) fun _ => ?_)
    exact .guard fun _ => .pure _

/-- A slice as long as the address space contains null. -/
lemma UserSlice.not_insideOf_of_wraps {U : UserAddrs} {slice : UserSlice}
    (h : 2 ^ 64 ≤ slice.count.toNat * slice.size.toNat) : ¬ slice.InsideOf U := by
  intro hinside
  have hnull := hinside (-slice.ptr).toNat (lt_of_lt_of_le (-slice.ptr).isLt h)
  rw [BitVec.ofNat_toNat, BitVec.setWidth_eq, ← BitVec.sub_eq_add_neg, BitVec.sub_self,
    U.null_outside] at hnull
  exact absurd hnull (by decide)

/-- **The copy layer stays in user memory, except for oversized slices.**  For every call, every
argument and every content of the memory: user pointers are followed only to user addresses and
slices that are handed out consist of user addresses, if and only if the call is not a request for
a slice whose size in bytes wraps around. -/
theorem userCopy_confined_iff (U : UserAddrs) (call : UserCall) (mem : U64 → U8) :
    StaysInside U call mem ↔ call.SizeFits U := by
  have haccesses : ∀ x ∈ (call.exec U mem).trace, x.via = .user → U.isUserAddr x.addr = true := by
    intro x hx hvia
    have hpermits := call.exec_confined U mem x hx
    rwa [hvia] at hpermits
  cases call with
  | validateAndGetUserSlice size ptr count =>
    refine ⟨fun h => ?_, fun hfits => ⟨haccesses, fun slice hslice => ?_⟩⟩
    · by_contra hsize
      simp only [UserCall.SizeFits, not_or, Bool.not_eq_false, not_lt] at hsize
      obtain ⟨hcount, hmany, hwraps, hptr⟩ := hsize
      have hslice : (U.validateAndGetUserSlice size ptr count mem).result =
          .ok ⟨ptr, count, size⟩ :=
        UserAddrs.validateAndGetUserSlice_result.mpr (.inr ⟨hcount, hmany, hptr, rfl⟩)
      exact UserSlice.not_insideOf_of_wraps hwraps
        (h.slices _ (result_map_eq_ok.mpr ⟨_, hslice, rfl⟩))
    · obtain ⟨_, hresult, hsome⟩ := result_map_eq_ok.mp hslice
      cases hsome
      rcases UserAddrs.validateAndGetUserSlice_result.mp hresult with
        ⟨-, rfl⟩ | ⟨hcount, hmany, hptr, rfl⟩
      · intro k hk
        simp at hk
      · intro k hk
        have hsize : count.toNat * size.toNat < 2 ^ 64 := by
          rcases hfits with h | h | h | h
          · exact absurd h hcount
          · omega
          · exact h
          · simp [hptr] at h
        refine UserAddrs.validateUserPtr_inside hptr ?_
        rwa [BitVec.toNat_mul, Nat.mod_eq_of_lt hsize]
  | _ =>
    refine iff_of_true ⟨haccesses, fun slice hslice => ?_⟩ trivial
    obtain ⟨_, -, hnone⟩ := result_map_eq_ok.mp hslice
    cases hnone

/-- The addresses from 0x40000000 up to 2^47. -/
def lowerHalf : UserAddrs where
  isUserAddr a := decide (0x40000000 ≤ a.toNat) && decide (a.toNat < 0x800000000000)
  lo := 0x40000000
  hi := 0x800000000000
  isUserAddr_iff a := by simp
  null_outside := rfl

/-- For 1024 elements of 2^54 bytes the size wraps around to zero, and a slice at 0x1000 is handed
out that starts below user memory. -/
theorem oversized_slice_leaves_user_memory :
    ¬ StaysInside lowerHalf
      (.validateAndGetUserSlice (BitVec.ofNat 64 (2 ^ 54)) 0x1000#64 1024#64) fun _ => 0#8 := by
  intro h
  have hinside := h.slices ⟨0x1000#64, 1024#64, BitVec.ofNat 64 (2 ^ 54)⟩ (by rfl)
  exact absurd (hinside 0 (by decide)) (by decide)

end Masika
