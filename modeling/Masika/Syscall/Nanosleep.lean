import Masika.Syscall.Extra
import Masika.Timer.Clock

/-!
# Sleeping for a time that the user asks for

`syscall_nanosleep` and `syscall_pselect6` read a `TimeSpec` from user memory, turn it into a number
of nanoseconds and call `sleep_ns`.  The two fields are signed, and they are converted to unsigned
words without a look at them; the product, the sum, and the sum with the current time in `sleep_ns`
are those of 64-bit words.

`sleepsRight_iff` says for which times this is all right.  The fields have to be in range, their
value in nanoseconds has to fit, and, unless overflows are checked for, so has the time at which the
sleep is to end: when that sum wraps around, the sleep ends at once.
-/

namespace Masika

/-! ## The code -/

/-- The words are those of two `i64`. -/
structure TimeSpec where
  tvSec : U64
  tvNsec : U64

/-- `tv_sec as u64 * 1_000_000_000 + tv_nsec as u64`. -/
def TimeSpec.duration (checks : Bool) (ts : TimeSpec) : Option U64 := do
  addWith checks (← mulWith checks ts.tvSec 1000000000#64) ts.tvNsec

/-- How a call stands: it has returned, after a sleep that ended at some tick or without one. -/
inductive CallEnd where
  | returned (result : Except SysError U64) (slept : Option U64)
  | waiting
  | panicked

section Calls

variable (checks : Bool) (frequency t : U64) (later : List U64)

/-- The part that both calls have in common. -/
def sleepFor (ts : TimeSpec) (result : Except SysError U64) : CallEnd :=
  match ts.duration checks with
  | none => .panicked
  | some ns =>
    match sleepNs checks frequency ns t later with
    | .panicked => .panicked
    | .waiting => .waiting
    | .returned t' => .returned result (some t')

/-- `syscall_nanosleep`, given what reading `req` and writing `rem` leads to; `rem` may be null. -/
def syscallNanosleep (req : Except SysError TimeSpec) (rem : Option (Except SysError Unit)) :
    CallEnd :=
  match req with
  | .error e => .returned (.error e) none
  | .ok ts => sleepFor checks frequency t later ts <|
    match rem with
    | some (.error e) => .error e
    | _ => .ok 0#64

/-- `syscall_pselect6`, given what reading `timeout` leads to, which may be null. -/
def syscallPselect6 (timeout : Option (Except SysError TimeSpec)) : CallEnd :=
  match timeout with
  | none => .returned (.ok 0#64) none
  | some (.error e) => .returned (.error e) none
  | some (.ok ts) => sleepFor checks frequency t later ts (.ok 0#64)

end Calls

/-! ## What should be slept -/

namespace TimeSpec

/-- The nanoseconds that are asked for, as an integer. -/
def total (ts : TimeSpec) : ℤ := ts.tvSec.toInt * 10 ^ 9 + ts.tvNsec.toInt

/-- Not negative, and less than a second of nanoseconds. -/
structure InRange (ts : TimeSpec) : Prop where
  sec : 0 ≤ ts.tvSec.toInt
  nsec : 0 ≤ ts.tvNsec.toInt ∧ ts.tvNsec.toInt < 10 ^ 9

end TimeSpec

/-- From the tick `t` to the tick `t'` the clock has advanced by `total`. -/
def Advanced (checks : Bool) (frequency t t' : U64) (total : ℤ) : Prop :=
  ∃ u u', (Clock.mk t frequency).uptime checks = some u ∧
    (Clock.mk t' frequency).uptime checks = some u' ∧ u.toNat + total ≤ u'.toNat

/-- **A sleep lasts as long as requested**, when it begins at the tick `t`: the duration is computed
without overflow, no duration is passed on for fields that are out of range, and neither call
returns from its sleep before the clock has advanced. -/
structure SleepsRight (checks : Bool) (frequency t : U64) (ts : TimeSpec) : Prop where
  no_overflow : ts.tvSec.umulOverflow 1000000000#64 = false ∧
    (ts.tvSec * 1000000000#64).uaddOverflow ts.tvNsec = false
  in_range : ∀ ns, ts.duration checks = some ns → ts.InRange
  nanosleep : ∀ later rem result t',
    syscallNanosleep checks frequency t later (.ok ts) rem = .returned result (some t') →
      Advanced checks frequency t t' ts.total
  pselect6 : ∀ later result t',
    syscallPselect6 checks frequency t later (some (.ok ts)) = .returned result (some t') →
      Advanced checks frequency t t' ts.total

/-! ## Durations -/

section Durations

variable {ts : TimeSpec}

lemma duration_of_fits (checks : Bool) (hmul : ts.tvSec.umulOverflow 1000000000#64 = false)
    (hadd : (ts.tvSec * 1000000000#64).uaddOverflow ts.tvNsec = false) :
    ts.duration checks = some (ts.tvSec * 1000000000#64 + ts.tvNsec) := by
  rw [TimeSpec.duration, mulWith, hmul, orStop_false]
  simp only [Option.bind_eq_bind, Option.bind_some]
  rw [addWith, hadd, orStop_false]

/-- A word that stands for a number that is not negative stands for itself. -/
lemma toInt_eq_toNat {x : U64} (h : 0 ≤ x.toInt) : x.toInt = x.toNat := by
  rw [BitVec.toInt_eq_toNat_cond] at h ⊢
  split_ifs at h ⊢ with hlow
  · rfl
  · have := x.isLt
    omega

/-- Fields in range are the numbers that their words stand for. -/
lemma TimeSpec.InRange.total_eq (h : ts.InRange) :
    ts.total = (ts.tvSec.toNat * 10 ^ 9 + ts.tvNsec.toNat : ℕ) := by
  rw [TimeSpec.total, toInt_eq_toNat h.sec, toInt_eq_toNat h.nsec.1]
  push_cast
  rfl

/-- For fields in range the sums fit when their value does. -/
lemma TimeSpec.InRange.no_overflow_iff (h : ts.InRange) :
    (ts.tvSec.umulOverflow 1000000000#64 = false ∧
      (ts.tvSec * 1000000000#64).uaddOverflow ts.tvNsec = false) ↔ ts.total < 2 ^ 64 := by
  have hscale : (1000000000#64).toNat = 10 ^ 9 := rfl
  have hcast : ts.total < 2 ^ 64 ↔ ts.tvSec.toNat * 10 ^ 9 + ts.tvNsec.toNat < 2 ^ 64 := by
    rw [h.total_eq]
    exact Int.ofNat_lt
  rw [hcast, umulOverflow_eq_false, uaddOverflow_eq_false, hscale, BitVec.toNat_mul, hscale]
  constructor
  · rintro ⟨hmul, hadd⟩
    rwa [Nat.mod_eq_of_lt hmul] at hadd
  · intro hsum
    have hmul : ts.tvSec.toNat * 10 ^ 9 < 2 ^ 64 := (Nat.le_add_right _ _).trans_lt hsum
    exact ⟨hmul, lt_of_eq_of_lt (congrArg (· + _) (Nat.mod_eq_of_lt hmul)) hsum⟩

/-- The duration as a number. -/
lemma toNat_duration (hmul : ts.tvSec.umulOverflow 1000000000#64 = false)
    (hadd : (ts.tvSec * 1000000000#64).uaddOverflow ts.tvNsec = false) :
    (ts.tvSec * 1000000000#64 + ts.tvNsec).toNat = ts.tvSec.toNat * 10 ^ 9 + ts.tvNsec.toNat := by
  rw [BitVec.toNat_add_of_not_uaddOverflow (by rw [hadd]; decide),
    BitVec.toNat_mul_of_not_umulOverflow (by rw [hmul]; decide)]
  rfl

end Durations

/-! ## Sleeps -/

section Sleeps

variable {checks : Bool} {frequency t t' : U64} {ts : TimeSpec}

/-- The loop ends only when the clock has reached the target. -/
lemma target_le_of_returned {target : U64} {later : List U64}
    (h : sleepUntil checks frequency target later = .returned t') :
    ∃ u', (Clock.mk t' frequency).uptime checks = some u' ∧ target ≤ u' := by
  induction later with
  | nil => cases h
  | cons t later ih =>
    rw [sleepUntil] at h
    cases hnow : (Clock.mk t frequency).uptime checks with
    | none =>
      rw [hnow] at h
      cases h
    | some now =>
      rw [hnow] at h
      simp only at h
      split_ifs at h with hearly
      · exact ih h
      · obtain rfl := Sleep.returned.inj h
        exact ⟨now, hnow, BitVec.not_lt.mp hearly⟩

/-- **A sleep that has returned**, if its target was computed correctly. -/
lemma advanced_of_returned {ns : U64} {later : List U64}
    (h : sleepNs checks frequency ns t later = .returned t')
    (htarget : ∀ u, (Clock.mk t frequency).uptime checks = some u →
      checks = true ∨ u.toNat + ns.toNat < 2 ^ 64) :
    Advanced checks frequency t t' ns.toNat := by
  rw [sleepNs] at h
  cases hstart : (Clock.mk t frequency).uptime checks with
  | none =>
    rw [hstart] at h
    cases h
  | some u =>
    rw [hstart] at h
    simp only [Option.bind_eq_bind, Option.bind_some] at h
    cases hsum : addWith checks u ns with
    | none =>
      rw [hsum] at h
      cases h
    | some target =>
      rw [hsum] at h
      obtain ⟨hnoStop, rfl⟩ := orStop_eq_some.mp hsum
      have hfits : u.toNat + ns.toNat < 2 ^ 64 := by
        rcases htarget u hstart with hchecks | hfits
        · exact uaddOverflow_eq_false.mp (Bool.eq_false_iff.mpr fun ho => hnoStop ⟨hchecks, ho⟩)
        · exact hfits
      obtain ⟨u', hu', hle⟩ := target_le_of_returned h
      refine ⟨u, u', hstart, hu', ?_⟩
      rw [BitVec.le_def, BitVec.toNat_add, Nat.mod_eq_of_lt hfits] at hle
      exact_mod_cast hle

/-- **A target that wraps around**: the sleep returns at once. -/
lemma returned_of_wrapped {u ns : U64} (hstart : (Clock.mk t frequency).uptime false = some u)
    (hwraps : 2 ^ 64 ≤ u.toNat + ns.toNat) : sleepNs false frequency ns t [t] = .returned t := by
  have hlate : ¬ u < u + ns := by
    have := ns.isLt
    rw [BitVec.lt_def, BitVec.toNat_add]
    omega
  rw [sleepNs, hstart]
  simp only [Option.bind_eq_bind, Option.bind_some, addWith, orStop_unchecked]
  rw [sleepUntil, hstart]
  simp only [if_neg hlate]

/-- The two calls return from their sleep when `sleep_ns` does. -/
lemma sleepFor_returned {later : List U64} {ns : U64} {result r : Except SysError U64}
    (hns : ts.duration checks = some ns) :
    sleepFor checks frequency t later ts result = .returned r (some t') ↔
      sleepNs checks frequency ns t later = .returned t' ∧ result = r := by
  rw [sleepFor, hns]
  simp only
  cases sleepNs checks frequency ns t later with
  | returned t₁ => simp [and_comm]
  | waiting => simp
  | panicked => simp

end Sleeps

/-- **When a sleep lasts as long as requested**: the fields are in range, their value fits, and so
does the time at which the sleep is to end, unless overflows are checked for. -/
theorem sleepsRight_iff (checks : Bool) (frequency t : U64) (ts : TimeSpec) :
    SleepsRight checks frequency t ts ↔
      ts.InRange ∧ ts.total < 2 ^ 64 ∧
        ∀ u, (Clock.mk t frequency).uptime checks = some u →
          checks = true ∨ u.toNat + ts.total < 2 ^ 64 := by
  constructor
  · intro h
    obtain ⟨hmul, hadd⟩ := h.no_overflow
    have hns := duration_of_fits checks hmul hadd
    have hrange := h.in_range _ hns
    have htotal : ts.total = (ts.tvSec * 1000000000#64 + ts.tvNsec).toNat := by
      rw [hrange.total_eq, toNat_duration hmul hadd]
    refine ⟨hrange, hrange.no_overflow_iff.mp h.no_overflow, fun u hu => ?_⟩
    cases checks with
    | true => exact .inl rfl
    | false =>
      refine .inr (lt_of_not_ge fun hwraps => ?_)
      rw [htotal] at hwraps
      have hreturned := returned_of_wrapped hu (by exact_mod_cast hwraps)
      have hcall := (sleepFor_returned (r := .ok 0#64) hns).mpr ⟨hreturned, rfl⟩
      -- the clock has not moved at all
      obtain ⟨u₁, u₂, h₁, h₂, hle⟩ := h.pselect6 [t] _ t hcall
      obtain rfl := Option.some.inj (h₁.symm.trans h₂)
      have := u.isLt
      obtain rfl := Option.some.inj (h₁.symm.trans hu)
      rw [htotal] at hle
      omega
  · rintro ⟨hrange, hfits, htarget⟩
    obtain ⟨hmul, hadd⟩ := hrange.no_overflow_iff.mpr hfits
    have hns := duration_of_fits checks hmul hadd
    have htotal : ts.total = (ts.tvSec * 1000000000#64 + ts.tvNsec).toNat := by
      rw [hrange.total_eq, toNat_duration hmul hadd]
    have hlasts : ∀ later result r t',
        sleepFor checks frequency t later ts result = .returned r (some t') →
          Advanced checks frequency t t' ts.total := by
      intro later result r t' hcall
      rw [htotal]
      refine advanced_of_returned ((sleepFor_returned hns).mp hcall).1 fun u hu => ?_
      rcases htarget u hu with hchecks | hsum
      · exact .inl hchecks
      · rw [htotal] at hsum
        exact .inr (by exact_mod_cast hsum)
    exact ⟨⟨hmul, hadd⟩, fun _ _ => hrange, fun later rem r t' => hlasts later _ r t',
      fun later r t' => hlasts later _ r t'⟩

/-- **A sleep of 18446744074 seconds**, or more than 584 years, returns after 290448384 nanoseconds;
and a negative number of nanoseconds is passed on as a duration. -/
theorem long_sleep_returns_early :
    (∃ r, syscallNanosleep false 1000000000#64 0#64 [290448384#64]
        (.ok ⟨18446744074#64, 0#64⟩) none = .returned r (some 290448384#64)) ∧
      ¬ SleepsRight false 1000000000#64 0#64 ⟨18446744074#64, 0#64⟩ ∧
      (TimeSpec.mk 0#64 (-1#64)).duration true = some 18446744073709551615#64 ∧
      ¬ SleepsRight true 1000000000#64 0#64 ⟨0#64, -1#64⟩ := by
  refine ⟨⟨.ok 0#64, rfl⟩, fun h => ?_, by decide, fun h => ?_⟩
  · exact absurd h.no_overflow.1 (by decide)
  · exact absurd (h.in_range _ rfl).nsec.1 (by decide)

end Masika
