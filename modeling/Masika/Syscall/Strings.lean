import Masika.Syscall.TypedCopy

/-!
# The length of a string and its copy

`validate_string_ptr` measures a string of the user and `copy_string_from_user` copies it.  Both
fetch one byte after another and stop at the first zero, and both leave with an error at an address
that is not user memory.  What one of them finds is what the other one finds, apart from their
limits.

* `validate_string_ptr` makes 4097 rounds, so that the zero may stand behind 4096 bytes, and reports
  a longer string as an error.
* `copy_string_from_user` makes no more than 4096 rounds, and reports a string that has not ended by
  then as one of 4096 bytes.

So the two disagree about strings which go on, and what has been copied of them is a part that
nobody can tell from the whole (`stringsAgree_iff`).

The kernel's own memory, here the byte of the loop and the destination, is not user memory.
-/

namespace Masika

open Accessing

/-! ## Strings in user memory -/

section Strings

variable (U : UserAddrs) (mem : U64 → U8) (src : U64)

/-- The first `n` bytes can be read, and none of them is zero. -/
def Unended (n : ℕ) : Prop :=
  ∀ k < n, U.validateUserPtr (src + BitVec.ofNat 64 k) 1#64 = true ∧
    mem (src + BitVec.ofNat 64 k) ≠ 0#8

/-- The string has `n` bytes, and the zero after them can be read too. -/
def EndsAt (n : ℕ) : Prop :=
  Unended U mem src n ∧ U.validateUserPtr (src + BitVec.ofNat 64 n) 1#64 = true ∧
    mem (src + BitVec.ofNat 64 n) = 0#8

variable {U mem src} {n n' : ℕ}

lemma unended_zero (U : UserAddrs) (mem : U64 → U8) (src : U64) : Unended U mem src 0 :=
  fun k hk => absurd hk (Nat.not_lt_zero k)

lemma Unended.le_of_endsAt (h : Unended U mem src n) (hend : EndsAt U mem src n') : n ≤ n' := by
  by_contra hlt
  exact (h n' (Nat.lt_of_not_le hlt)).2 hend.2.2

lemma EndsAt.unique (h : EndsAt U mem src n) (h' : EndsAt U mem src n') : n = n' :=
  Nat.le_antisymm (h.1.le_of_endsAt h') (h'.1.le_of_endsAt h)

lemma unended_succ : Unended U mem src (n + 1) ↔ Unended U mem src n ∧
    U.validateUserPtr (src + BitVec.ofNat 64 n) 1#64 = true ∧
    mem (src + BitVec.ofNat 64 n) ≠ 0#8 := by
  constructor
  · intro h
    exact ⟨fun k hk => h k (Nat.lt_succ_of_lt hk), h n (Nat.lt_succ_self n)⟩
  · rintro ⟨h, hn⟩ k hk
    rcases Nat.lt_succ_iff_lt_or_eq.mp hk with hlt | rfl
    · exact h k hlt
    · exact hn

lemma isUserAddr_of_valid {ptr : U64} (h : U.validateUserPtr ptr 1#64 = true) :
    U.isUserAddr ptr = true :=
  (UserAddrs.validateUserPtr_ends h (by decide)).1

/-- Everything up to the end of the string is user memory. -/
lemma EndsAt.inside (h : EndsAt U mem src n) {k : ℕ} (hk : k ≤ n) :
    U.isUserAddr (src + BitVec.ofNat 64 k) = true := by
  rcases Nat.eq_or_lt_of_le hk with rfl | hlt
  · exact isUserAddr_of_valid h.2.1
  · exact isUserAddr_of_valid (h.1 k hlt).1

lemma EndsAt.ends {len : U64} (h : EndsAt U mem src len.toNat) :
    U.isUserAddr src = true ∧ U.isUserAddr (src + len) = true := by
  have hfirst := h.inside (Nat.zero_le _)
  have hlast := h.inside (Nat.le_refl _)
  rw [BitVec.add_zero] at hfirst
  rw [BitVec.ofNat_toNat, BitVec.setWidth_eq] at hlast
  exact ⟨hfirst, hlast⟩

end Strings

/-! ## Fetching a byte -/

/-- The two memories have the same user memory. -/
def SameUser (U : UserAddrs) (mem mem' : U64 → U8) : Prop :=
  ∀ a, U.isUserAddr a = true → mem' a = mem a

section Fetching

variable {U : UserAddrs} {mem mem' : U64 → U8} {tmp ptr src a : U64}

lemma SameUser.update (h : SameUser U mem mem') (ha : U.isUserAddr a = false) (byte : U8) :
    SameUser U mem (Function.update mem' a byte) := by
  intro b hb
  rw [Function.update_of_ne fun heq => by rw [heq, ha] at hb; cases hb]
  exact h b hb

lemma fetchByte_refused (h : U.validateUserPtr ptr 1#64 = false) (tmp : U64) (mem : U64 → U8) :
    (U.fetchByte tmp ptr mem).result = .error (-1) := by
  rw [UserAddrs.fetchByte, if_pos (by simp [h])]
  rfl

/-- **A byte is fetched** into the local variable. -/
lemma fetchByte_of_valid (h : U.validateUserPtr ptr 1#64 = true) (htmp : U.isUserAddr tmp = false)
    (mem : U64 → U8) :
    (U.fetchByte tmp ptr mem).result = .ok (mem ptr) ∧
      SameUser U mem (U.fetchByte tmp ptr mem).mem := by
  have hne : ptr ≠ tmp := by
    rintro rfl
    rw [isUserAddr_of_valid h] at htmp
    cases htmp
  have hapart : Disjoint (span ptr 1) (span tmp 1) := by
    rw [Set.disjoint_left]
    intro x hx hx'
    exact hne ((mem_span_one.mp hx).symm.trans (mem_span_one.mp hx'))
  obtain ⟨hresult, hmem⟩ := UserAddrs.copyFromUser_moves
    (UserAddrs.validateUserPtr_ends h (by decide))
    (fun k hk => UserAddrs.validateUserPtr_inside h hk) hapart (Function.update mem tmp 0#8)
  have hfetched : (U.copyFromUser tmp ptr 1#64 (Function.update mem tmp 0#8)).mem
      = Function.update mem tmp (mem ptr) := by
    rw [hmem]
    change moved _ ptr tmp 1 = _
    rw [moved_one, Function.update_of_ne hne, Function.update_idem]
  have hloaded := bind_of_ok (f := fun _ => (load .kernel tmp : SysCall U8)) hresult
  rw [hfetched] at hloaded
  rw [UserAddrs.fetchByte, if_neg (by simp [h])]
  refine ⟨hloaded.1.trans ?_, ?_⟩
  · change Except.ok _ = _
    rw [Function.update_self]
  · refine (congrArg (SameUser U mem) (hloaded.2.trans rfl)).mpr ?_
    exact SameUser.update (fun _ _ => rfl) htmp _

end Fetching

/-! ## The loops -/

section Loops

variable {U : UserAddrs} {mem : U64 → U8} {tmp src : U64}

/-- A round that looks at byte `k`: it leaves, or it answers if the byte is zero, and user memory
stays as it is. -/
def LooksAt (U : UserAddrs) (mem : U64 → U8) (src : U64) (k : ℕ)
    (round : SysCall (Option ℕ)) : Prop :=
  ∀ mem', SameUser U mem mem' →
    (U.validateUserPtr (src + BitVec.ofNat 64 k) 1#64 = false ∧
        (round mem').result = .error (-1)) ∨
      (U.validateUserPtr (src + BitVec.ofNat 64 k) 1#64 = true ∧
        (round mem').result
          = .ok (if mem (src + BitVec.ofNat 64 k) = 0#8 then some k else none) ∧
        SameUser U mem (round mem').mem)

/-- **`n` rounds** end with the length of a string of less than `n` bytes, with nothing if there are
`n` bytes of it, and with an error otherwise. -/
lemma scan_string {body : ℕ → SysCall (Option ℕ)} {n : ℕ}
    (hbody : ∀ k < n, LooksAt U mem src k (body k)) :
    (∃ k < n, EndsAt U mem src k ∧ (scan body n 0 mem).result = .ok (some k) ∧
        SameUser U mem (scan body n 0 mem).mem) ∨
      (Unended U mem src n ∧ (scan body n 0 mem).result = .ok none) ∨
      (¬ Unended U mem src n ∧ (∀ k < n, ¬ EndsAt U mem src k) ∧
        (scan body n 0 mem).result = .error (-1)) := by
  have hround : ∀ k mem', 0 ≤ k → k < 0 + n → SameUser U mem mem' ∧ Unended U mem src k →
      (body k mem').result = .ok none →
      SameUser U mem (body k mem').mem ∧ Unended U mem src (k + 1) := by
    rintro k mem' - hk ⟨hsame, hunended⟩ hnone
    rcases hbody k (by omega) mem' hsame with ⟨-, herror⟩ | ⟨hvalid, hok, hsame'⟩
    · rw [herror] at hnone
      cases hnone
    · refine ⟨hsame', unended_succ.mpr ⟨hunended, hvalid, fun hzero => ?_⟩⟩
      rw [if_pos hzero, hnone] at hok
      cases hok
  have hstart : SameUser U mem mem ∧ Unended U mem src 0 :=
    ⟨fun _ _ => rfl, unended_zero U mem src⟩
  rcases scan_cases n 0 hstart hround with
    ⟨hresult, -, hunended⟩ | ⟨k, mem', -, hk, ⟨hsame, hunended⟩, hstop, hresult, hmem⟩
  · rw [Nat.zero_add] at hunended
    exact .inr (.inl ⟨hunended, hresult⟩)
  rw [Nat.zero_add] at hk
  rw [hresult, hmem]
  rcases hbody k hk mem' hsame with ⟨hinvalid, herror⟩ | ⟨hvalid, hok, hsame'⟩
  · -- a string can neither end behind this byte nor go on there
    refine .inr (.inr ⟨fun h => ?_, fun j _ hend => ?_, herror⟩)
    · rw [(h k hk).1] at hinvalid
      cases hinvalid
    · rcases Nat.eq_or_lt_of_le (hunended.le_of_endsAt hend) with rfl | hlt
      · rw [hend.2.1] at hinvalid
        cases hinvalid
      · rw [(hend.1 k hlt).1] at hinvalid
        cases hinvalid
  · have hzero : mem (src + BitVec.ofNat 64 k) = 0#8 := by
      by_contra hne
      rw [if_neg hne] at hok
      exact hstop hok
    rw [if_pos hzero] at hok
    exact .inl ⟨k, hk, ⟨hunended, hvalid, hzero⟩, hok, hsame'⟩

/-- A byte is fetched, and then something is done that leaves user memory alone. -/
lemma looksAt_fetch {k : ℕ} {f : U8 → SysCall (Option ℕ)} (htmp : U.isUserAddr tmp = false)
    (hf : ∀ byte mem', (f byte mem').result = .ok (if byte = 0#8 then some k else none) ∧
      (SameUser U mem mem' → SameUser U mem (f byte mem').mem)) :
    LooksAt U mem src k (U.fetchByte tmp (src + BitVec.ofNat 64 k) >>= f) := by
  intro mem' hsame
  cases hvalid : U.validateUserPtr (src + BitVec.ofNat 64 k) 1#64 with
  | false => exact .inl ⟨rfl, (bind_of_error (fetchByte_refused hvalid tmp mem')).1⟩
  | true =>
    obtain ⟨hok, hkept⟩ := fetchByte_of_valid hvalid htmp mem'
    rw [hsame _ (isUserAddr_of_valid hvalid)] at hok
    refine .inr ⟨rfl, (bind_of_ok hok).1.trans (hf _ _).1, ?_⟩
    rw [(bind_of_ok hok).2]
    exact (hf _ _).2 fun a ha => (hkept a ha).trans (hsame a ha)

lemma looksAt_measure (htmp : U.isUserAddr tmp = false) (mem : U64 → U8) (src : U64) (k : ℕ) :
    LooksAt U mem src k (do
      let byte ← U.fetchByte tmp (src + BitVec.ofNat 64 k)
      pure (if byte = 0#8 then some k else none)) :=
  looksAt_fetch htmp fun _ _ => ⟨rfl, id⟩

lemma looksAt_copy (htmp : U.isUserAddr tmp = false) (mem : U64 → U8) (src : U64) (k : ℕ)
    {a : U64} (ha : U.isUserAddr a = false) :
    LooksAt U mem src k (do
      let byte ← U.fetchByte tmp (src + BitVec.ofNat 64 k)
      if byte = 0#8 then pure (some k)
      else do
        store .kernel a byte
        pure none) := by
  refine looksAt_fetch htmp fun byte mem' => ?_
  by_cases hzero : byte = 0#8
  · rw [if_pos hzero, if_pos hzero]
    exact ⟨rfl, id⟩
  · rw [if_neg hzero, if_neg hzero]
    exact ⟨rfl, fun h => h.update ha byte⟩

end Loops

/-! ## The two functions -/

section Functions

variable {U : UserAddrs} {mem : U64 → U8} {tmp src n : U64} {dst : KernelSlice}

/-- **`validate_string_ptr` measures strings of up to 4096 bytes.** -/
lemma validateStringPtr_ok_iff (htmp : U.isUserAddr tmp = false) :
    (U.validateStringPtr tmp src mem).result = .ok n ↔
      ∃ k ≤ 4096, EndsAt U mem src k ∧ n = BitVec.ofNat 64 k := by
  rcases scan_string (n := 4097) fun k _ => looksAt_measure htmp mem src k with
    ⟨k, hk, hend, hok, -⟩ | ⟨hunended, hok⟩ | ⟨-, hno, herror⟩
  · have hresult : (U.validateStringPtr tmp src mem).result = .ok (BitVec.ofNat 64 k) :=
      (bind_of_ok hok).1
    rw [hresult, Except.ok.injEq]
    constructor
    · rintro rfl
      exact ⟨k, by omega, hend, rfl⟩
    · rintro ⟨k', -, hend', rfl⟩
      rw [hend.unique hend']
  · have hresult : (U.validateStringPtr tmp src mem).result = .error (-1) := (bind_of_ok hok).1
    rw [hresult]
    refine iff_of_false (by simp) ?_
    rintro ⟨k, hk, hend, -⟩
    have := hunended.le_of_endsAt hend
    omega
  · have hresult : (U.validateStringPtr tmp src mem).result = .error (-1) :=
      (bind_of_error herror).1
    rw [hresult]
    refine iff_of_false (by simp) ?_
    rintro ⟨k, hk, hend, -⟩
    exact hno k (by omega) hend

/-- **`copy_string_from_user` stops at the end of the string or after all rounds.** -/
lemma copyStringFromUser_ok_iff (htmp : U.isUserAddr tmp = false)
    (hdst : ∀ a ∈ span dst.ptr dst.len.toNat, U.isUserAddr a = false) :
    (U.copyStringFromUser tmp dst src mem).result = .ok n ↔
      (∃ k < min dst.len.toNat 4096, EndsAt U mem src k ∧ n = BitVec.ofNat 64 k) ∨
        (Unended U mem src (min dst.len.toNat 4096) ∧
          n = BitVec.ofNat 64 (min dst.len.toNat 4096)) := by
  have hplace : ∀ k < min dst.len.toNat 4096, U.isUserAddr (dst.ptr + BitVec.ofNat 64 k) = false :=
    fun k hk => hdst _ (add_mem_span _ (by omega))
  rcases scan_string fun k hk => looksAt_copy htmp mem src k (hplace k hk) with
    ⟨k, hk, hend, hok, -⟩ | ⟨hunended, hok⟩ | ⟨hgoes, hno, herror⟩
  · have hresult : (U.copyStringFromUser tmp dst src mem).result = .ok (BitVec.ofNat 64 k) :=
      (bind_of_ok hok).1
    rw [hresult, Except.ok.injEq]
    constructor
    · rintro rfl
      exact .inl ⟨k, hk, hend, rfl⟩
    · rintro (⟨k', -, hend', rfl⟩ | ⟨hunended, -⟩)
      · rw [hend.unique hend']
      · have := hunended.le_of_endsAt hend
        omega
  · have hresult : (U.copyStringFromUser tmp dst src mem).result
        = .ok (BitVec.ofNat 64 (min dst.len.toNat 4096)) := (bind_of_ok hok).1
    rw [hresult, Except.ok.injEq]
    constructor
    · rintro rfl
      exact .inr ⟨hunended, rfl⟩
    · rintro (⟨k, hk, hend, -⟩ | ⟨-, rfl⟩)
      · have := hunended.le_of_endsAt hend
        omega
      · rfl
  · have hresult : (U.copyStringFromUser tmp dst src mem).result = .error (-1) :=
      (bind_of_error herror).1
    rw [hresult]
    refine iff_of_false (by simp) ?_
    rintro (⟨k, hk, hend, -⟩ | ⟨hunended, -⟩)
    · exact absurd hend (hno k hk)
    · exact absurd hunended hgoes

end Functions

/-- What the two functions report about one string is the same, and it is the length of the
string. -/
structure StringsAgree (U : UserAddrs) (tmp tmp' : U64) (dst : KernelSlice) (src : U64)
    (mem : U64 → U8) : Prop where
  agree : ∀ n, (U.copyStringFromUser tmp dst src mem).result = .ok n ↔
    (U.validateStringPtr tmp' src mem).result = .ok n
  whole : ∀ n, (U.copyStringFromUser tmp dst src mem).result = .ok n → EndsAt U mem src n.toNat

/-- **When measuring and copying agree.**  They do, unless there are 4096 bytes of the string and
the zero does not stand right behind them. -/
theorem stringsAgree_iff (U : UserAddrs) {tmp tmp' : U64} {dst : KernelSlice}
    (htmp : U.isUserAddr tmp = false) (htmp' : U.isUserAddr tmp' = false)
    (hdst : ∀ a ∈ span dst.ptr dst.len.toNat, U.isUserAddr a = false)
    (hlen : 4097 ≤ dst.len.toNat) (src : U64) (mem : U64 → U8) :
    StringsAgree U tmp tmp' dst src mem ↔
      ¬ (Unended U mem src 4096 ∧ ¬ EndsAt U mem src 4096) := by
  have hmin : min dst.len.toNat 4096 = 4096 := by omega
  have hcopy : ∀ n, (U.copyStringFromUser tmp dst src mem).result = .ok n ↔ _ :=
    fun n => copyStringFromUser_ok_iff htmp hdst
  have hmeasure : ∀ n, (U.validateStringPtr tmp' src mem).result = .ok n ↔ _ :=
    fun n => validateStringPtr_ok_iff htmp'
  rw [hmin] at hcopy
  have htoNat : ∀ k ≤ 4096, (BitVec.ofNat 64 k).toNat = k := by
    intro k hk
    rw [BitVec.toNat_ofNat]
    omega
  constructor
  · rintro h ⟨hunended, hgoes⟩
    exact hgoes (h.whole (BitVec.ofNat 64 4096) ((hcopy _).mpr (.inr ⟨hunended, rfl⟩)))
  · intro h
    have hends : Unended U mem src 4096 → EndsAt U mem src 4096 := by
      intro hunended
      by_contra hgoes
      exact h ⟨hunended, hgoes⟩
    refine ⟨fun n => ?_, fun n hn => ?_⟩
    · rw [hcopy, hmeasure]
      constructor
      · rintro (⟨k, hk, hend, rfl⟩ | ⟨hunended, rfl⟩)
        · exact ⟨k, hk.le, hend, rfl⟩
        · exact ⟨4096, le_refl _, hends hunended, rfl⟩
      · rintro ⟨k, hk, hend, rfl⟩
        rcases Nat.eq_or_lt_of_le hk with rfl | hlt
        · exact .inr ⟨hend.1, rfl⟩
        · exact .inl ⟨k, hlt, hend, rfl⟩
    · rcases (hcopy n).mp hn with ⟨k, hk, hend, rfl⟩ | ⟨hunended, rfl⟩
      · rw [htoNat k hk.le]
        exact hend
      · exact hends hunended

/-- A buffer below user memory. -/
def lowBuffer : KernelSlice := ⟨0x10000#64, 4097#64⟩

lemma lowBuffer_outside :
    ∀ a ∈ span lowBuffer.ptr lowBuffer.len.toNat, lowerHalf.isUserAddr a = false := by
  intro a ha
  have hbelow := ((mem_span_iff_toNat (by decide)).mp ha).2
  rw [Bool.eq_false_iff, ne_eq, lowerHalf.isUserAddr_iff, not_and_or]
  exact .inl (not_le.mpr (lt_trans hbelow (by decide)))

lemma lowerHalf_valid {k : ℕ} (hk : k ≤ 4096) :
    lowerHalf.validateUserPtr (0x40000000#64 + BitVec.ofNat 64 k) 1#64 = true := by
  have hsum : (0x40000000#64 + BitVec.ofNat 64 k).toNat = 0x40000000 + k := by
    rw [BitVec.toNat_add, BitVec.toNat_ofNat, BitVec.toNat_ofNat]
    omega
  have hend : (0x40000000#64 + BitVec.ofNat 64 k + 1#64).toNat = 0x40000000 + k + 1 := by
    rw [BitVec.toNat_add, hsum, show (1#64).toNat = 1 from rfl]
    omega
  have hnull : 0x40000000#64 + BitVec.ofNat 64 k ≠ 0#64 := by
    rw [← BitVec.toNat_ne_iff_ne, hsum]
    simp
  rw [UserAddrs.validateUserPtr, if_neg hnull, if_neg (by decide), if_neg, Bool.and_eq_true,
    lowerHalf.isUserAddr_iff, lowerHalf.isUserAddr_iff, hsum, hend, lowerHalf]
  · simp only
    omega
  · rw [BitVec.lt_def, hsum, hend]
    omega

/-- A string of two bytes at the beginning of user memory. -/
def twoBytes (a : U64) : U8 := if a = 0x40000002#64 then 0#8 else 1#8

/-- Two bytes. -/
theorem stringsAgree_two_bytes :
    StringsAgree lowerHalf 0x1000#64 0x1000#64 lowBuffer 0x40000000#64 twoBytes := by
  refine (stringsAgree_iff lowerHalf (by decide) (by decide) lowBuffer_outside (by decide)
    0x40000000#64 twoBytes).mpr ?_
  rintro ⟨hunended, -⟩
  exact (hunended 2 (by omega)).2 rfl

/-- **A string without an end is copied as one of 4096 bytes**, although measuring it is refused.
No byte of this memory is zero. -/
theorem long_string_truncated :
    (lowerHalf.copyStringFromUser 0x1000#64 lowBuffer 0x40000000#64 fun _ => 1#8).result
        = .ok 4096#64 ∧
      (lowerHalf.validateStringPtr 0x1000#64 0x40000000#64 fun _ => 1#8).result ≠ .ok 4096#64 ∧
      ¬ StringsAgree lowerHalf 0x1000#64 0x1000#64 lowBuffer 0x40000000#64 fun _ => 1#8 := by
  have hunended : Unended lowerHalf (fun _ => 1#8) 0x40000000#64 4096 := by
    intro k hk
    exact ⟨lowerHalf_valid hk.le, show 1#8 ≠ 0#8 by decide⟩
  have hcopy : (lowerHalf.copyStringFromUser 0x1000#64 lowBuffer 0x40000000#64
      fun _ => 1#8).result = .ok 4096#64 :=
    (copyStringFromUser_ok_iff (by decide) lowBuffer_outside).mpr (.inr ⟨hunended, rfl⟩)
  have hmeasure : (lowerHalf.validateStringPtr 0x1000#64 0x40000000#64
      fun _ => 1#8).result ≠ .ok 4096#64 := by
    intro h
    obtain ⟨k, -, ⟨-, -, hzero⟩, -⟩ := (validateStringPtr_ok_iff (by decide)).mp h
    exact absurd hzero (show 1#8 ≠ 0#8 by decide)
  exact ⟨hcopy, hmeasure, fun h => hmeasure ((h.agree 4096#64).mp hcopy)⟩

end Masika
