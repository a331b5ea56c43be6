import Masika.Memory.Virtual.Operations
import Masika.Syscall.Core

/-!
# Copying a string out of user memory

`VirtualMemoryManager::copy_string_from_user` copies a string that ends with a zero byte into a
buffer, and shortens it when it does not fit.  Its loop has three exits: the end of the string, the
end of the buffer and an address that is not user memory.

The loop runs up to `buf.len() - 1`, which is computed for an empty buffer too.  With overflow
checks the program stops there; without them the bound is the largest number, and the program stops
at `buf[0]`.  For all other buffers the copy is what it should be (`boundedCopy_iff`).

The buffer is memory of the kernel that nobody else refers to, so it is kept apart from user memory:
a place is an address of the user or an index of the buffer.
-/

namespace Masika

open Accessing

namespace VirtualMemoryManager

/-! ## The code -/

/-- How the copy can end early: with an error or with a panic. -/
inductive CopyStop where
  | err (e : VmmError)
  | underflow
  | outOfBounds
deriving DecidableEq, Repr

/-- A call on user memory (left) and the buffer (right). -/
abbrev StringCopy := Accessing Pointer (U64 ⊕ ℕ) U8 CopyStop

/-- `buf[i] = byte`, when `buf.len()` is `len`. -/
def storeBuf (len i : ℕ) (byte : U8) : StringCopy Unit :=
  if ¬ i < len then exit .outOfBounds else store .kernel (.inr i) byte

/-- `buf.len() - 1`, with overflow checks or without. -/
def lastIndex (checks : Bool) (len : ℕ) : StringCopy ℕ :=
  if len = 0 then if checks then exit .underflow else pure (2 ^ 64 - 1)
  else pure (len - 1)

/-- The body of the loop, which answers when the string is over. -/
def copyStringByte (len : ℕ) (src : U64) (copied : ℕ) : StringCopy (Option ℕ) :=
  if ¬ validateUserRange (src + BitVec.ofNat 64 copied) 1#64 then exit (.err .accessDenied)
  else do
    let byte ← load .user (.inl (src + BitVec.ofNat 64 copied))
    storeBuf len copied byte
    pure (if byte = 0#8 then some copied else none)

/-- `copy_string_from_user` into a buffer of `len` bytes. -/
def copyStringFromUser (checks : Bool) (len : ℕ) (src : U64) : StringCopy ℕ :=
  if ¬ validateUserRange src 1#64 then exit (.err .accessDenied)
  else do
    let last ← lastIndex checks len
    let found ← scan (copyStringByte len src) last 0
    let copied := found.getD last
    storeBuf len copied 0#8
    pure copied

/-! ## The property -/

/-- User memory that has been checked, or a part of the buffer. -/
def Accessible (len : ℕ) : U64 ⊕ ℕ → Prop
  | .inl a => validateUserRange a 1#64 = true
  | .inr i => i < len

/-- The first `n` bytes of the string are not zero, and they are in the buffer. -/
def CopiedUpTo (src : U64) (mem mem' : U64 ⊕ ℕ → U8) (n : ℕ) : Prop :=
  ∀ i < n, mem' (.inr i) = mem (.inl (src + BitVec.ofNat 64 i)) ∧
    mem (.inl (src + BitVec.ofNat 64 i)) ≠ 0#8

/-- A copy that ended with `n`: `n` bytes and a zero are in the buffer, and it stopped at the end of
the string or at that of the buffer. -/
structure StringCopied (len : ℕ) (src : U64) (mem mem' : U64 ⊕ ℕ → U8) (n : ℕ) : Prop where
  fits : n < len
  bytes : CopiedUpTo src mem mem' n
  terminated : mem' (.inr n) = 0#8
  stopped : mem (.inl (src + BitVec.ofNat 64 n)) = 0#8 ∨ n = len - 1

/-- **A bounded copy**: no panic, only checked user memory and the buffer are accessed, and what is
reported as copied has been copied. -/
structure BoundedCopy (checks : Bool) (len : ℕ) (src : U64) (mem : U64 ⊕ ℕ → U8) : Prop where
  no_panic : (copyStringFromUser checks len src mem).result ≠ .error .underflow ∧
    (copyStringFromUser checks len src mem).result ≠ .error .outOfBounds
  copied : ∀ n, (copyStringFromUser checks len src mem).result = .ok n →
    StringCopied len src mem (copyStringFromUser checks len src mem).mem n
  accesses : ∀ x ∈ (copyStringFromUser checks len src mem).trace, Accessible len x.addr

/-! ## The loop -/

section Loop

variable {len : ℕ} {src : U64} {mem : U64 ⊕ ℕ → U8}

lemma storeBuf_confined (len i : ℕ) (byte : U8) :
    Confined (fun _ => Accessible len) (storeBuf len i byte) :=
  .guard fun hi => .store byte hi

/-- Whatever the buffer, only places that have been checked are accessed. -/
lemma copyStringFromUser_confined (checks : Bool) (len : ℕ) (src : U64) :
    Confined (fun _ => Accessible len) (copyStringFromUser checks len src) := by
  refine .guard fun _ => .bind ?_ fun last => .bind (.scan _ 0 fun k _ _ => ?_) fun found =>
    .bind (storeBuf_confined _ _ _) fun _ => .pure _
  · exact .ite (fun _ => .ite (fun _ => .exit _) fun _ => .pure _) fun _ => .pure _
  · exact .guard fun hvalid => .bind (.load hvalid) fun byte =>
      .bind (storeBuf_confined _ _ _) fun _ => .pure _

lemma storeBuf_of_lt (mem : U64 ⊕ ℕ → U8) {i : ℕ} (hi : i < len) (byte : U8) :
    (storeBuf len i byte mem).result = .ok () ∧
      (storeBuf len i byte mem).mem = Function.update mem (.inr i) byte := by
  rw [storeBuf, if_neg (not_not.mpr hi)]
  exact ⟨rfl, rfl⟩

/-- **One byte**: the address is refused, or the byte goes into the buffer. -/
lemma copyStringByte_cases (src : U64) (mem : U64 ⊕ ℕ → U8) {k : ℕ} (hk : k < len) :
    (copyStringByte len src k mem).result = .error (.err .accessDenied) ∨
      ((copyStringByte len src k mem).result
          = .ok (if mem (.inl (src + BitVec.ofNat 64 k)) = 0#8 then some k else none) ∧
        (copyStringByte len src k mem).mem
          = Function.update mem (.inr k) (mem (.inl (src + BitVec.ofNat 64 k)))) := by
  rw [copyStringByte]
  by_cases hvalid : validateUserRange (src + BitVec.ofNat 64 k) 1#64 = true
  · rw [if_neg (not_not.mpr hvalid)]
    have hload : ((load .user (.inl (src + BitVec.ofNat 64 k)) : StringCopy U8) mem).result
        = .ok (mem (.inl (src + BitVec.ofNat 64 k))) := rfl
    obtain ⟨hok, hstored⟩ := storeBuf_of_lt mem hk (mem (.inl (src + BitVec.ofNat 64 k)))
    refine .inr ⟨(bind_of_ok hload).1.trans (bind_of_ok hok).1, ?_⟩
    exact ((bind_of_ok hload).2.trans (bind_of_ok hok).2).trans hstored
  · rw [if_pos hvalid]
    exact .inl rfl

/-- The state of the loop after `k` bytes: user memory is unchanged. -/
structure Copying (src : U64) (mem : U64 ⊕ ℕ → U8) (k : ℕ) (mem' : U64 ⊕ ℕ → U8) : Prop where
  user : ∀ a, mem' (.inl a) = mem (.inl a)
  bytes : CopiedUpTo src mem mem' k

lemma Copying.store {k : ℕ} {mem' : U64 ⊕ ℕ → U8} (h : Copying src mem k mem') (byte : U8) :
    Copying src mem k (Function.update mem' (.inr k) byte) := by
  refine ⟨fun a => ?_, fun i hi => ?_⟩
  · rw [Function.update_of_ne Sum.inl_ne_inr]
    exact h.user a
  · rw [Function.update_of_ne (by simp only [ne_eq, Sum.inr.injEq]; omega)]
    exact h.bytes i hi

/-- One more byte that is not zero. -/
lemma Copying.next {k : ℕ} {mem' : U64 ⊕ ℕ → U8} (h : Copying src mem k mem')
    (hbyte : mem (.inl (src + BitVec.ofNat 64 k)) ≠ 0#8) :
    Copying src mem (k + 1)
      (Function.update mem' (.inr k) (mem' (.inl (src + BitVec.ofNat 64 k)))) := by
  refine ⟨(h.store _).user, fun i hi => ?_⟩
  rcases Nat.lt_succ_iff_lt_or_eq.mp hi with hlt | rfl
  · exact (h.store _).bytes i hlt
  · rw [Function.update_self, h.user]
    exact ⟨rfl, hbyte⟩

/-- **The loop, for a buffer that is not empty**: an address is refused, or the string has been
copied up to its end or that of the buffer. -/
lemma scan_copyStringByte (src : U64) (mem : U64 ⊕ ℕ → U8) (hlen : 0 < len) :
    (scan (copyStringByte len src) (len - 1) 0 mem).result = .error (.err .accessDenied) ∨
      ∃ found, (scan (copyStringByte len src) (len - 1) 0 mem).result = .ok found ∧
        found.getD (len - 1) < len ∧
        Copying src mem (found.getD (len - 1)) (scan (copyStringByte len src) (len - 1) 0 mem).mem ∧
        (mem (.inl (src + BitVec.ofNat 64 (found.getD (len - 1)))) = 0#8 ∨ found = none) := by
  have hstart : Copying src mem 0 mem := ⟨fun _ => rfl, fun i hi => absurd hi (Nat.not_lt_zero i)⟩
  have hround : ∀ k mem', 0 ≤ k → k < 0 + (len - 1) → Copying src mem k mem' →
      (copyStringByte len src k mem').result = .ok none →
      Copying src mem (k + 1) (copyStringByte len src k mem').mem := by
    intro k mem' _ hk h hnone
    rcases copyStringByte_cases src mem' (show k < len by omega) with
      herror | ⟨hok, hstored⟩
    · rw [herror] at hnone
      cases hnone
    · rw [hstored]
      refine h.next fun hzero => ?_
      rw [h.user, if_pos hzero, hnone] at hok
      cases hok
  rcases scan_cases (len - 1) 0 hstart hround with
    ⟨hresult, h⟩ | ⟨k, mem', -, hk, h, hstop, hresult, hmem⟩
  · rw [Nat.zero_add] at h
    exact .inr ⟨none, hresult, by simp only [Option.getD_none]; omega, h, .inr rfl⟩
  · rw [hresult, hmem]
    rcases copyStringByte_cases src mem' (show k < len by omega) with
      herror | ⟨hok, hstored⟩
    · exact .inl herror
    · rw [h.user] at hok hstored
      -- a round that ends the loop has met the end of the string
      have hzero : mem (.inl (src + BitVec.ofNat 64 k)) = 0#8 := by
        by_contra hne
        rw [if_neg hne] at hok
        exact hstop hok
      rw [if_pos hzero] at hok
      refine .inr ⟨some k, hok, by simp only [Option.getD_some]; omega, ?_, .inl hzero⟩
      rw [hstored]
      exact h.store _

/-- **The whole copy, for a buffer that is not empty.** -/
lemma copyStringFromUser_cases (checks : Bool) (src : U64) (mem : U64 ⊕ ℕ → U8) (hlen : 0 < len) :
    (copyStringFromUser checks len src mem).result = .error (.err .accessDenied) ∨
      ∃ n, (copyStringFromUser checks len src mem).result = .ok n ∧
        StringCopied len src mem (copyStringFromUser checks len src mem).mem n := by
  rw [copyStringFromUser]
  by_cases hvalid : validateUserRange src 1#64 = true
  · rw [if_neg (not_not.mpr hvalid)]
    have hlast : (lastIndex checks len mem).result = .ok (len - 1) ∧
        (lastIndex checks len mem).mem = mem := by
      rw [lastIndex, if_neg (by omega)]
      exact ⟨rfl, rfl⟩
    obtain ⟨hr, hm⟩ := bind_of_ok (f := fun last => do
      let found ← scan (copyStringByte len src) last 0
      storeBuf len (found.getD last) 0#8
      pure (found.getD last)) hlast.1
    rw [hlast.2] at hr hm
    rcases scan_copyStringByte src mem hlen with
      herror | ⟨found, hok, hlt, hcopy, hend⟩
    · exact .inl (hr.trans (bind_of_error herror).1)
    · obtain ⟨hstored, hmem⟩ := storeBuf_of_lt
        (scan (copyStringByte len src) (len - 1) 0 mem).mem hlt 0#8
      refine .inr ⟨found.getD (len - 1), ?_, ?_⟩
      · exact hr.trans ((bind_of_ok hok).1.trans (bind_of_ok hstored).1)
      · have hfinal := hm.trans ((bind_of_ok hok).2.trans (bind_of_ok hstored).2)
        rw [hfinal.trans hmem]
        refine ⟨hlt, (hcopy.store 0#8).bytes, Function.update_self .., hend.imp_right ?_⟩
        rintro rfl
        rfl
  · rw [if_pos hvalid]
    exact .inl rfl

/-- **An empty buffer**: the program panics, with overflow checks and without. -/
lemma copyStringFromUser_empty (checks : Bool) (mem : U64 ⊕ ℕ → U8)
    (hvalid : validateUserRange src 1#64 = true) :
    (copyStringFromUser checks 0 src mem).result
      = .error (if checks then .underflow else .outOfBounds) := by
  rw [copyStringFromUser, if_neg (not_not.mpr hvalid)]
  cases checks with
  | true => rfl
  | false =>
    -- the first round stores to `buf[0]`
    have hround : (copyStringByte 0 src 0 mem).result = .error .outOfBounds := by
      rw [copyStringByte, if_neg (by simpa using hvalid)]
      rfl
    have hscan : ∀ left, (scan (copyStringByte 0 src) (left + 1) 0 mem).result
        = .error .outOfBounds := fun left => (bind_of_error hround).1
    exact (bind_of_error (hscan (2 ^ 64 - 2))).1

end Loop

/-- **When the copy is a bounded one.**  For every buffer but the empty one; that one is harmless
only if the source is refused. -/
theorem boundedCopy_iff (checks : Bool) (len : ℕ) (src : U64) (mem : U64 ⊕ ℕ → U8) :
    BoundedCopy checks len src mem ↔ ¬ (len = 0 ∧ validateUserRange src 1#64 = true) := by
  have haccesses : ∀ x ∈ (copyStringFromUser checks len src mem).trace, Accessible len x.addr :=
    copyStringFromUser_confined checks len src mem
  constructor
  · rintro h ⟨rfl, hvalid⟩
    have hresult := copyStringFromUser_empty checks mem hvalid
    cases checks with
    | true => exact h.no_panic.1 hresult
    | false => exact h.no_panic.2 hresult
  · intro h
    have hcases : (copyStringFromUser checks len src mem).result = .error (.err .accessDenied) ∨
        ∃ n, (copyStringFromUser checks len src mem).result = .ok n ∧
          StringCopied len src mem (copyStringFromUser checks len src mem).mem n := by
      rcases Nat.eq_zero_or_pos len with rfl | hlen
      · have hrefused : validateUserRange src 1#64 ≠ true := fun hvalid => h ⟨rfl, hvalid⟩
        rw [copyStringFromUser, if_pos hrefused]
        exact .inl rfl
      · exact copyStringFromUser_cases checks src mem hlen
    rcases hcases with herror | ⟨n, hok, hcopied⟩
    · refine ⟨?_, fun n hn => ?_, haccesses⟩
      · rw [herror]
        exact ⟨by simp, by simp⟩
      · rw [herror] at hn
        cases hn
    · refine ⟨?_, fun n' hn => ?_, haccesses⟩
      · rw [hok]
        exact ⟨by simp, by simp⟩
      · rw [hok] at hn
        cases hn
        exact hcopied

/-- An empty buffer and the first address of user space. -/
theorem empty_buffer_panics :
    (copyStringFromUser true 0 USER_SPACE_BASE fun _ => 0#8).result = .error .underflow ∧
      (copyStringFromUser false 0 USER_SPACE_BASE fun _ => 0#8).result = .error .outOfBounds ∧
      ¬ (BoundedCopy true 0 USER_SPACE_BASE fun _ => 0#8) ∧
      ¬ (BoundedCopy false 0 USER_SPACE_BASE fun _ => 0#8) := by
  have hvalid : validateUserRange USER_SPACE_BASE 1#64 = true := by decide +kernel
  have hchecked := copyStringFromUser_empty true (fun _ => 0#8) hvalid
  have hunchecked := copyStringFromUser_empty false (fun _ => 0#8) hvalid
  exact ⟨hchecked, hunchecked, fun h => h.no_panic.1 hchecked, fun h => h.no_panic.2 hunchecked⟩

end VirtualMemoryManager

end Masika
