import Masika.Core.BitPacked
import Masika.Core.Calendar

/-!
# Dates

`convert_timestamp_to_date` of `timer.rs` turns the nanoseconds since 1970 into a date.  Its years
have 365 days, its months have 30, and there is a thirteenth month of five days.

The time of day is right.  The date is right only if what the calendar has more than that, the leap
days before the year and the days over 30 of the months before, adds up to nothing.  From 1977 on
there are two leap days to make up for, and no month has more than one day to spare; before that
there are nine months in which it happens (`dateRight_iff`).
-/

namespace Masika

/-- The tuple that is returned. -/
structure Date where
  year : U32
  month : U8
  day : U8
  hour : U8
  minute : U8
  second : U8

/-- All years have 365 days here, and months 30. -/
def convertTimestampToDate (timestamp : U64) : Date :=
  let seconds := timestamp / 1000000000#64
  let days := seconds / 86400#64
  { year := 1970#32 + (days / 365#64).setWidth 32
    month := (days % 365#64 / 30#64).setWidth 8 + 1#8
    day := (days % 365#64 % 30#64).setWidth 8 + 1#8
    hour := (seconds % 86400#64 / 3600#64).setWidth 8
    minute := (seconds % 3600#64 / 60#64).setWidth 8
    second := (seconds % 60#64).setWidth 8 }

/-- **The date is that of the Gregorian calendar**, `seconds` after the beginning of 1970. -/
structure DateRight (seconds : ℕ) (r : Date) : Prop where
  date : (r.year.toNat, r.month.toNat, r.day.toNat) = gregorian 1970 (seconds / 86400)
  month : 1 ≤ r.month.toNat ∧ r.month.toNat ≤ 12
  day : 1 ≤ r.day.toNat ∧ r.day.toNat ≤ monthLength (isLeap r.year.toNat) r.month.toNat
  time : r.hour.toNat < 24 ∧ r.minute.toNat < 60 ∧ r.second.toNat < 60 ∧
    r.hour.toNat * 3600 + r.minute.toNat * 60 + r.second.toNat = seconds % 86400

/-! ## The numbers that are returned -/

/-- The seconds since the beginning of 1970. -/
def secondsOf (timestamp : U64) : ℕ := timestamp.toNat / 10 ^ 9

/-- The days since then. -/
def daysOf (timestamp : U64) : ℕ := secondsOf timestamp / 86400

/-- No conversion cuts anything off. -/
lemma convertTimestampToDate_toNat (timestamp : U64) :
    (convertTimestampToDate timestamp).year.toNat = 1970 + daysOf timestamp / 365 ∧
      (convertTimestampToDate timestamp).month.toNat = daysOf timestamp % 365 / 30 + 1 ∧
      (convertTimestampToDate timestamp).day.toNat = daysOf timestamp % 365 % 30 + 1 ∧
      (convertTimestampToDate timestamp).hour.toNat = secondsOf timestamp % 86400 / 3600 ∧
      (convertTimestampToDate timestamp).minute.toNat = secondsOf timestamp % 3600 / 60 ∧
      (convertTimestampToDate timestamp).second.toNat = secondsOf timestamp % 60 := by
  have hsec : (timestamp / 1000000000#64).toNat = secondsOf timestamp := by
    rw [BitVec.toNat_udiv]
    rfl
  have hday : (timestamp / 1000000000#64 / 86400#64).toNat = daysOf timestamp := by
    rw [BitVec.toNat_udiv, hsec]
    rfl
  have hbound : secondsOf timestamp < 18446744074 :=
    Nat.div_lt_of_lt_mul (timestamp.isLt.trans (by decide))
  have hdays : daysOf timestamp < 213504 := Nat.div_lt_of_lt_mul (hbound.trans (by decide))
  simp only [convertTimestampToDate, BitVec.toNat_add, BitVec.toNat_setWidth, BitVec.toNat_udiv,
    BitVec.toNat_umod, hsec, hday, BitVec.toNat_ofNat, Nat.reducePow, Nat.reduceMod]
  clear hsec hday
  generalize daysOf timestamp = days at *
  generalize secondsOf timestamp = seconds at *
  refine ⟨?_, ?_, ?_, ?_, ?_, ?_⟩ <;> omega

/-! ## Years of 365 days and months of 30 -/

/-- The leap days in the first `k` years from 1970 on. -/
def leapDays (k : ℕ) : ℕ := ∑ i ∈ Finset.range k, if isLeap (1970 + i) then 1 else 0

lemma daysBeforeYear_eq (k : ℕ) : daysBeforeYear 1970 (1970 + k) = 365 * k + leapDays k := by
  rw [daysBeforeYear, Nat.add_sub_cancel_left, leapDays]
  induction k with
  | zero => rfl
  | succ k ih =>
    rw [Finset.sum_range_succ, Finset.sum_range_succ, ih, yearLength]
    split_ifs <;> omega

lemma two_le_leapDays {k : ℕ} (hk : 7 ≤ k) : 2 ≤ leapDays k := by
  have hseven : leapDays 7 = 2 := by decide
  rw [← hseven]
  exact Finset.sum_le_sum_of_subset (Finset.range_subset_range.mpr hk)

/-- The months before a month have at most one day less than 30 each. -/
lemma thirty_mul_le (leap : Bool) {j : ℕ} (hj : j < 12) :
    30 * j ≤ daysBeforeMonth leap (j + 1) + 1 := by
  have hall : ∀ leap : Bool, ∀ j < 12, 30 * j ≤ daysBeforeMonth leap (j + 1) + 1 := by decide
  exact hall leap j hj

/-- The `j`-th month of 30 days, of the `k`-th year of 365 days, is a month of the calendar. -/
def MonthsMeet (k j : ℕ) : Prop :=
  (k < 2 ∧ (j = 0 ∨ j = 3 ∨ j = 4)) ∨ (k = 2 ∧ (j = 0 ∨ j = 2)) ∨ (3 ≤ k ∧ k < 6 ∧ j = 2)

instance (k j : ℕ) : Decidable (MonthsMeet k j) :=
  inferInstanceAs (Decidable ((k < 2 ∧ (j = 0 ∨ j = 3 ∨ j = 4)) ∨
    (k = 2 ∧ (j = 0 ∨ j = 2)) ∨ (3 ≤ k ∧ k < 6 ∧ j = 2)))

/-- **The months that meet.** -/
lemma monthsMeet_iff {k j : ℕ} (hj : j < 13) :
    MonthsMeet k j ↔
      j < 12 ∧ leapDays k + daysBeforeMonth (isLeap (1970 + k)) (j + 1) = 30 * j := by
  have hearly : ∀ k < 7, ∀ j < 13, (MonthsMeet k j ↔
      j < 12 ∧ leapDays k + daysBeforeMonth (isLeap (1970 + k)) (j + 1) = 30 * j) := by
    decide +kernel
  rcases Nat.lt_or_ge k 7 with hk | hk
  · exact hearly k hk j hj
  · refine iff_of_false ?_ fun h => ?_
    · rw [MonthsMeet]
      omega
    · have hleap := two_le_leapDays hk
      have hmonths := thirty_mul_le (isLeap (1970 + k)) h.1
      omega

/-- They are long enough. -/
lemma MonthsMeet.thirty_le {k j : ℕ} (h : MonthsMeet k j) (leap : Bool) :
    30 ≤ monthLength leap (j + 1) := by
  have hall : ∀ leap : Bool, ∀ j ∈ [0, 2, 3, 4], 30 ≤ monthLength leap (j + 1) := by decide
  refine hall leap j ?_
  rw [MonthsMeet] at h
  simp only [List.mem_cons, List.not_mem_nil, or_false]
  omega

/-- **When a date is right**: it is in the first 30 days of January, April or May of 1970 or 1971,
of January or March of 1972, or of March of 1973, 1974 or 1975. -/
theorem dateRight_iff (timestamp : U64) :
    DateRight (secondsOf timestamp) (convertTimestampToDate timestamp) ↔
      MonthsMeet (daysOf timestamp / 365) (daysOf timestamp % 365 / 30) := by
  obtain ⟨hyear, hmonth, hday, hhour, hminute, hsecond⟩ :=
    convertTimestampToDate_toNat timestamp
  generalize hdays : daysOf timestamp = days at *
  -- the calendar and the code count the same days from a different beginning
  have hdate : IsDate 1970 days (1970 + days / 365) (days % 365 / 30 + 1) (days % 365 % 30 + 1) ↔
      MonthsMeet (days / 365) (days % 365 / 30) := by
    constructor
    · intro h
      have hm := h.month_range
      have heq := h.days_eq
      rw [daysBeforeYear_eq] at heq
      exact (monthsMeet_iff (by omega)).mpr ⟨by omega, by omega⟩
    · intro h
      obtain ⟨hm, heq⟩ := (monthsMeet_iff (by omega)).mp h
      have hlong := h.thirty_le (isLeap (1970 + days / 365))
      refine ⟨by omega, by omega, by omega, ?_⟩
      rw [daysBeforeYear_eq]
      omega
  rw [← hdate]
  constructor
  · intro h
    have hgregorian := eq_gregorian_iff.mp h.date
    rwa [hyear, hmonth, hday, ← daysOf, hdays] at hgregorian
  · intro h
    refine ⟨?_, ?_, ?_, ?_⟩
    · rw [eq_gregorian_iff, hyear, hmonth, hday, ← daysOf, hdays]
      exact h
    · rw [hmonth]
      exact h.month_range
    · rw [hyear, hmonth, hday]
      exact h.day_range
    · rw [hhour, hminute, hsecond]
      generalize secondsOf timestamp = seconds
      omega

/-- **The last of January 1970** is the first of February, and the last of December is the fifth
of the thirteenth month. -/
theorem date_off_by_days :
    ((convertTimestampToDate 2592000000000000#64).month,
        (convertTimestampToDate 2592000000000000#64).day) = (2#8, 1#8) ∧
      ¬ DateRight 2592000 (convertTimestampToDate 2592000000000000#64) ∧
      ((convertTimestampToDate 31449600000000000#64).month,
        (convertTimestampToDate 31449600000000000#64).day) = (13#8, 5#8) := by
  refine ⟨by decide, fun h => ?_, by decide⟩
  have hjanuary : IsDate 1970 30 1970 1 31 := ⟨by decide, by decide, by decide, by decide⟩
  have hdate : (1970, 1, 31) = gregorian 1970 30 := eq_gregorian_iff.mpr hjanuary
  exact absurd (h.date.trans hdate.symm) (by decide)

end Masika
