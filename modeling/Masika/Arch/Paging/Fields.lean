import Masika.Arch.Paging.Entry
import Masika.Core.Runs

/-!
# The fields of a page-table entry

An entry has an address field and twelve flag bits, and eleven setters on one word.  Read as fields,
they should be independent: `addr()` returns the last address that `set_addr` stored, whatever flags
were stored since, and the flag getters return the last flags stored, whatever address was stored
since.

`Written` follows a word through a sequence of setters, together with what was last written to each
field; `Independent` is the property.  Since `addrMask` covers bits 4 to 11, it can fail in two
ways: `set_addr` clears the flags there, and a flag set there becomes part of the address.
`independent_iff` says that these are the only two.
-/

namespace Masika

namespace PageTableEntry

/-! ## Flags by name -/

/-- The flags that have a getter and a setter of their own. -/
inductive Flag
  | present | writable | user | writeThrough | cacheDisabled | accessed | dirty | huge | global
  deriving DecidableEq, Repr

/-- The bit of a flag. -/
def Flag.bit : Flag → ℕ
  | present => 0
  | writable => 1
  | user => 2
  | writeThrough => 3
  | cacheDisabled => 4
  | accessed => 5
  | dirty => 6
  | huge => 7
  | global => 8

/-- The getter of a flag. -/
def Flag.get : Flag → PageTableEntry → Bool
  | present => PageTableEntry.present
  | writable => PageTableEntry.writable
  | user => PageTableEntry.userAccessible
  | writeThrough => PageTableEntry.writeThrough
  | cacheDisabled => PageTableEntry.cacheDisabled
  | accessed => PageTableEntry.accessed
  | dirty => PageTableEntry.dirty
  | huge => PageTableEntry.hugePage
  | global => PageTableEntry.global

/-- The setter of a flag. -/
def Flag.set : Flag → Bool → PageTableEntry → PageTableEntry
  | present => setPresent
  | writable => setWritable
  | user => setUser
  | writeThrough => setWriteThrough
  | cacheDisabled => setCacheDisabled
  | accessed => setAccessed
  | dirty => setDirty
  | huge => setHuge
  | global => setGlobal

lemma Flag.bit_lt (flag : Flag) : flag.bit < 12 := by cases flag <;> decide

lemma Flag.get_eq (flag : Flag) (e : PageTableEntry) : flag.get e = e.getLsbD flag.bit := by
  have h64 : flag.bit < 64 := flag.bit_lt.trans (by decide)
  have hmask : flag.get e = testFlag (1#64 <<< flag.bit) e := by cases flag <;> rfl
  rw [hmask, testFlag_one_shl h64]

lemma Flag.getLsbD_set (flag : Flag) (value : Bool) (e : PageTableEntry) (j : ℕ) :
    (flag.set value e).getLsbD j = if j = flag.bit then value else e.getLsbD j := by
  have h64 : flag.bit < 64 := flag.bit_lt.trans (by decide)
  have hmask : flag.set value e = putFlag (1#64 <<< flag.bit) flag.bit value e := by
    cases flag <;> rfl
  rw [hmask, getLsbD_putFlag h64]

lemma getLsbD_flags (e : PageTableEntry) (j : ℕ) :
    (flags e).getLsbD j = (e.getLsbD j && decide (j < 12)) := by
  rw [flags, BitVec.getLsbD_and, getLsbD_flagMask]

/-! ## Sequences of setters -/

/-- A page-aligned address below `2 ^ 48`. -/
abbrev PageAddr := { a : U64 // a.toNat % 4096 = 0 ∧ a.toNat < 2 ^ 48 }

/-- The bits of a page address lie between 12 and 48. -/
lemma PageAddr.getLsbD_eq_false (a : PageAddr) {j : ℕ} (hj : j < 12 ∨ 48 ≤ j) :
    a.val.getLsbD j = false := by
  have := getLsbD_ofNat_aligned a.property.1 a.property.2 hj
  rwa [BitVec.ofNat_toNat, BitVec.setWidth_eq] at this

/-- The setters. -/
inductive FieldOp
  | setAddr (a : PageAddr)
  | setFlags (f : U64)
  | set (flag : Flag) (value : Bool)

/-- A word, the last address written to it, and for each flag bit the last value written. -/
structure Written where
  word : PageTableEntry
  lastAddr : Option PageAddr
  lastFlag : ℕ → Option Bool

/-- A word that nothing has been written to yet. -/
def Written.start (word : PageTableEntry) : Written := ⟨word, none, fun _ => none⟩

/-- One setter, with what it was asked for. -/
def Written.step (x : Written) : FieldOp → Written
  | .setAddr a => { x with word := PageTableEntry.setAddr a.val x.word, lastAddr := some a }
  | .setFlags f =>
    { x with
      word := PageTableEntry.setFlags f x.word
      lastFlag := fun k => if k < 12 then some (f.getLsbD k) else x.lastFlag k }
  | .set flag value =>
    { x with
      word := flag.set value x.word
      lastFlag := fun k => if k = flag.bit then some value else x.lastFlag k }

/-- The same as a step. -/
def fieldStep (x : Written) (op : FieldOp) : Option Written := some (x.step op)

/-- Every getter returns what was last written to its field. -/
structure Independent (x : Written) : Prop where
  addr_eq : ∀ a, x.lastAddr = some a → addr x.word = a.val
  flag_eq : ∀ (flag : Flag) value, x.lastFlag flag.bit = some value → flag.get x.word = value
  flags_eq : ∀ k < 12, ∀ value, x.lastFlag k = some value → (flags x.word).getLsbD k = value

/-- Bits 4 to 11, which both masks cover. -/
def Shared (k : ℕ) : Prop := 4 ≤ k ∧ k < 12

/-- Which setters keep the fields apart: no address is written over a shared flag that was last
written as set, and no shared flag is set once an address has been written. -/
def KeepsApart (x : Written) : FieldOp → Prop
  | .setAddr _ => ∀ k, Shared k → x.lastFlag k ≠ some true
  | .setFlags f => x.lastAddr = none ∨ ∀ k, Shared k → f.getLsbD k = false
  | .set flag value => x.lastAddr = none ∨ (Shared flag.bit → value = false)

/-! ## Bit by bit -/

/-- `addr()` returns `a` exactly when bits 4 to 47 are those of `a`. -/
lemma addr_eq_iff {e : PageTableEntry} {a : PageAddr} :
    addr e = a.val ↔ ∀ k, 4 ≤ k → k < 48 → e.getLsbD k = a.val.getLsbD k := by
  constructor
  · intro h k hle hlt
    rw [← h, getLsbD_addr]
    simp [hle, hlt]
  · intro h
    apply BitVec.eq_of_getLsbD_eq
    intro k hk
    rw [getLsbD_addr]
    by_cases hin : 4 ≤ k ∧ k < 48
    · rw [h k hin.1 hin.2]
      simp [hin]
    · rw [a.getLsbD_eq_false (by omega)]
      simp [hin]

/-- The property, bit by bit. -/
lemma independent_iff_bits {x : Written} :
    Independent x ↔
      (∀ a, x.lastAddr = some a → ∀ k, 4 ≤ k → k < 48 → x.word.getLsbD k = a.val.getLsbD k) ∧
        ∀ k < 12, ∀ value, x.lastFlag k = some value → x.word.getLsbD k = value := by
  constructor
  · intro h
    refine ⟨fun a ha => addr_eq_iff.mp (h.addr_eq a ha), fun k hk value hvalue => ?_⟩
    have := h.flags_eq k hk value hvalue
    rwa [getLsbD_flags, decide_eq_true hk, Bool.and_true] at this
  · rintro ⟨haddr, hflags⟩
    refine ⟨fun a ha => addr_eq_iff.mpr (haddr a ha), fun flag value hvalue => ?_,
      fun k hk value hvalue => ?_⟩
    · rw [Flag.get_eq]
      exact hflags flag.bit flag.bit_lt value hvalue
    · rw [getLsbD_flags, decide_eq_true hk, Bool.and_true]
      exact hflags k hk value hvalue

/-! ## Which setters keep the property -/

lemma independent_setAddr_iff {x : Written} (h : Independent x) (a : PageAddr) :
    Independent (x.step (.setAddr a)) ↔ ∀ k, Shared k → x.lastFlag k ≠ some true := by
  obtain ⟨-, hflags⟩ := independent_iff_bits.mp h
  have hword : ∀ k, (x.step (.setAddr a)).word.getLsbD k
      = if 4 ≤ k ∧ k < 48 then a.val.getLsbD k else x.word.getLsbD k := getLsbD_setAddr a.val x.word
  rw [independent_iff_bits]
  constructor
  · rintro ⟨-, hkept⟩ k ⟨hle, hlt⟩ hset
    have hbit := hkept k hlt true hset
    rw [hword, if_pos (by omega), a.getLsbD_eq_false (.inl hlt)] at hbit
    exact absurd hbit (by decide)
  · intro hclear
    constructor
    · rintro b ⟨⟩ k hle hlt
      rw [hword, if_pos ⟨hle, hlt⟩]
    · intro k hlt value hvalue
      rw [hword]
      by_cases hle : 4 ≤ k
      · rw [if_pos (by omega), a.getLsbD_eq_false (.inl hlt)]
        cases value with
        | false => rfl
        | true => exact absurd hvalue (hclear k ⟨hle, hlt⟩)
      · rw [if_neg (by omega)]
        exact hflags k hlt value hvalue

/-- Flags are stored, some or all of them: `bits k` is the value stored to bit `k`, if any. -/
structure StoresFlags (bits : ℕ → Option Bool) (x x' : Written) : Prop where
  none_above : ∀ k, 12 ≤ k → bits k = none
  word : ∀ k, x'.word.getLsbD k = (bits k).getD (x.word.getLsbD k)
  lastFlag : ∀ k, x'.lastFlag k = (bits k).or (x.lastFlag k)
  lastAddr : x'.lastAddr = x.lastAddr

namespace StoresFlags

variable {bits : ℕ → Option Bool} {x x' : Written}

/-- The flags themselves are always stored. -/
lemma flags_stored (hs : StoresFlags bits x x') (h : Independent x) :
    ∀ k < 12, ∀ value, x'.lastFlag k = some value → x'.word.getLsbD k = value := by
  intro k hk value hvalue
  rw [hs.lastFlag] at hvalue
  rw [hs.word]
  cases hb : bits k with
  | none =>
    rw [hb, Option.none_or] at hvalue
    exact (independent_iff_bits.mp h).2 k hk value hvalue
  | some v =>
    rw [hb, Option.some_or, Option.some.injEq] at hvalue
    exact hvalue

/-- An address that was written before is still there when no shared flag is set. -/
lemma addr_kept_iff (hs : StoresFlags bits x x') {a : PageAddr}
    (ha : ∀ k, 4 ≤ k → k < 48 → x.word.getLsbD k = a.val.getLsbD k) :
    (∀ k, 4 ≤ k → k < 48 → x'.word.getLsbD k = a.val.getLsbD k) ↔
      ∀ k, Shared k → bits k ≠ some true := by
  constructor
  · rintro hkept k ⟨hle, hlt⟩ hset
    have hbit := hkept k hle (by omega)
    rw [hs.word, hset, a.getLsbD_eq_false (.inl hlt), Option.getD_some] at hbit
    exact absurd hbit (by decide)
  · intro hclear k hle hlt
    rw [hs.word]
    cases hb : bits k with
    | none => exact ha k hle hlt
    | some v =>
      have h12 : k < 12 := by
        by_contra hge
        rw [hs.none_above k (by omega)] at hb
        cases hb
      rw [a.getLsbD_eq_false (.inl h12)]
      cases v with
      | false => rfl
      | true => exact absurd hb (hclear k ⟨hle, h12⟩)

lemma independent_iff (hs : StoresFlags bits x x') (h : Independent x) :
    Independent x' ↔ x.lastAddr = none ∨ ∀ k, Shared k → bits k ≠ some true := by
  rw [independent_iff_bits, and_iff_left (hs.flags_stored h), hs.lastAddr]
  cases hx : x.lastAddr with
  | none => simp
  | some a =>
    simp only [Option.some.injEq, reduceCtorEq, false_or, forall_eq']
    exact hs.addr_kept_iff ((independent_iff_bits.mp h).1 a hx)

end StoresFlags

lemma storesFlags_setFlags (x : Written) (f : U64) :
    StoresFlags (fun k => if k < 12 then some (f.getLsbD k) else none) x
      (x.step (.setFlags f)) where
  none_above k hk := if_neg (by omega)
  word k := by
    rw [Written.step, getLsbD_setFlags]
    split_ifs <;> rfl
  lastFlag k := by
    rw [Written.step]
    simp only
    split_ifs <;> rfl
  lastAddr := rfl

lemma storesFlags_set (x : Written) (flag : Flag) (value : Bool) :
    StoresFlags (fun k => if k = flag.bit then some value else none) x
      (x.step (.set flag value)) where
  none_above k hk := by
    have := flag.bit_lt
    exact if_neg (by omega)
  word k := by
    rw [Written.step, Flag.getLsbD_set]
    split_ifs <;> rfl
  lastFlag k := by
    rw [Written.step]
    simp only
    split_ifs <;> rfl
  lastAddr := rfl

lemma independent_setFlags_iff {x : Written} (h : Independent x) (f : U64) :
    Independent (x.step (.setFlags f)) ↔
      x.lastAddr = none ∨ ∀ k, Shared k → f.getLsbD k = false := by
  rw [(storesFlags_setFlags x f).independent_iff h]
  refine or_congr Iff.rfl (forall_congr' fun k => forall_congr' fun hk => ?_)
  simp [hk.2]

lemma independent_set_iff {x : Written} (h : Independent x) (flag : Flag) (value : Bool) :
    Independent (x.step (.set flag value)) ↔
      x.lastAddr = none ∨ (Shared flag.bit → value = false) := by
  rw [(storesFlags_set x flag value).independent_iff h]
  refine or_congr Iff.rfl ?_
  constructor
  · intro hclear hshared
    simpa using hclear flag.bit hshared
  · intro hclear k hshared
    split_ifs with hk
    · simp [hclear (hk ▸ hshared)]
    · simp

/-- **When the fields of an entry are independent.**  For every word and every sequence of setters,
each getter returns what was last written to its field, at every point of the sequence, exactly when
no address is written over a flag of bits 4 to 11 that is set, and none of those flags is set after
an address has been written. -/
theorem fields_independent_iff (word : PageTableEntry) (ops : List FieldOp) :
    Always Independent fieldStep (Written.start word) ops ↔
      Meets KeepsApart fieldStep (Written.start word) ops := by
  refine always_iff_meets (I := fun _ => True) (fun _ _ _ _ _ => trivial) ?_ trivial ?_
  · intro x op _ h
    simp only [fieldStep, Option.some.injEq, forall_eq']
    cases op with
    | setAddr a => exact (independent_setAddr_iff h a).symm
    | setFlags f => exact (independent_setFlags_iff h f).symm
    | set flag value => exact (independent_set_iff h flag value).symm
  · refine ⟨?_, ?_, ?_⟩
    · rintro a ⟨⟩
    · rintro flag value ⟨⟩
    · rintro k _ value ⟨⟩

/-- The page at `0x1000`. -/
def firstPage : PageAddr := ⟨0x1000#64, by decide⟩

/-- Storing an address and then the accessed flag: `addr()` returns `0x1020`.  Storing them in the
other order: the flag is gone. -/
theorem firstPage_accessed :
    addr ((Written.start 0#64).step (.setAddr firstPage) |>.step (.set .accessed true)).word
        = 0x1020#64 ∧
      accessed ((Written.start 0#64).step (.set .accessed true) |>.step (.setAddr firstPage)).word
        = false ∧
      ¬ Always Independent fieldStep (Written.start 0#64)
        [.setAddr firstPage, .set .accessed true] := by
  refine ⟨by decide, by decide, fun halways => ?_⟩
  have hend := (halways.2 _ rfl).2 _ rfl
  exact absurd (hend.addr_eq firstPage rfl) (by decide)

end PageTableEntry

end Masika
