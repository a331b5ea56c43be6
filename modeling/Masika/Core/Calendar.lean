import Mathlib.Algebra.Order.BigOperators.Group.Finset
import Mathlib.Algebra.Ring.Nat
import Mathlib.Tactic.Common

/-!
# The Gregorian calendar

Days are counted from the first of January of some year, the *epoch*.  The calendar is proleptic:
the rule for leap years holds in all years.

Years and months are intervals of different lengths, one after another, and every day is in exactly
one of them (`existsUnique_tile`).  Hence every day has exactly one date (`existsUnique_date`), and
`gregorian` is that date.
-/

namespace Masika

/-! ## Intervals one after another -/

/-- An interval ends before any later one begins. -/
lemma sum_range_add_le (len : ℕ → ℕ) {k k' : ℕ} (h : k < k') :
    ∑ i ∈ Finset.range k, len i + len k ≤ ∑ i ∈ Finset.range k', len i := by
  rw [← Finset.sum_range_succ]
  exact Finset.sum_le_sum_of_subset (Finset.range_subset_range.mpr h)

/-- The interval that a number is in, and the place in it. -/
theorem existsUnique_tile {len : ℕ → ℕ} (hpos : ∀ i, 0 < len i) (x : ℕ) :
    ∃! p : ℕ × ℕ, p.2 < len p.1 ∧ ∑ i ∈ Finset.range p.1, len i + p.2 = x := by
  have hexists : ∃ p : ℕ × ℕ, p.2 < len p.1 ∧ ∑ i ∈ Finset.range p.1, len i + p.2 = x := by
    induction x with
    | zero => exact ⟨(0, 0), hpos 0, rfl⟩
    | succ x ih =>
      obtain ⟨⟨k, r⟩, hr, hx⟩ := ih
      simp only at hr hx
      rcases Nat.lt_or_ge (r + 1) (len k) with hlt | hge
      · exact ⟨(k, r + 1), hlt, by simp only; omega⟩
      · refine ⟨(k + 1, 0), hpos (k + 1), ?_⟩
        simp only [Finset.sum_range_succ]
        omega
  obtain ⟨⟨k, r⟩, hr, hx⟩ := hexists
  refine ⟨(k, r), ⟨hr, hx⟩, ?_⟩
  rintro ⟨k', r'⟩ ⟨hr', hx'⟩
  simp only at hr hx hr' hx'
  obtain rfl : k' = k := by
    rcases Nat.lt_trichotomy k' k with hlt | heq | hgt
    · have := sum_range_add_le len hlt
      omega
    · exact heq
    · have := sum_range_add_le len hgt
      omega
  simp only [Prod.mk.injEq, true_and]
  omega

/-! ## Years and months -/

/-- The Gregorian rule. -/
def isLeap (year : ℕ) : Bool := year % 4 == 0 && (year % 100 != 0 || year % 400 == 0)

/-- The days of a year. -/
def yearLength (year : ℕ) : ℕ := if isLeap year then 366 else 365

/-- The length of month `m`, of 1 to 12. -/
def monthLength (leap : Bool) (m : ℕ) : ℕ :=
  match m with
  | 2 => if leap then 29 else 28
  | 4 | 6 | 9 | 11 => 30
  | _ => 31

/-- The days of a year before month `m`. -/
def daysBeforeMonth (leap : Bool) (m : ℕ) : ℕ :=
  ∑ i ∈ Finset.range (m - 1), monthLength leap (i + 1)

/-- The days from the epoch to the beginning of a year. -/
def daysBeforeYear (epoch year : ℕ) : ℕ :=
  ∑ i ∈ Finset.range (year - epoch), yearLength (epoch + i)

/-- Day number `days` since the epoch is day `day` of month `month` of the year `year`. -/
structure IsDate (epoch days year month day : ℕ) : Prop where
  year_ge : epoch ≤ year
  month_range : 1 ≤ month ∧ month ≤ 12
  day_range : 1 ≤ day ∧ day ≤ monthLength (isLeap year) month
  days_eq : daysBeforeYear epoch year + daysBeforeMonth (isLeap year) month + (day - 1) = days

lemma monthLength_pos (leap : Bool) (m : ℕ) : 0 < monthLength leap m := by
  unfold monthLength
  split
  · cases leap <;> decide
  all_goals decide

lemma yearLength_pos (year : ℕ) : 0 < yearLength year := by
  rw [yearLength]
  split_ifs <;> decide

/-- The months of a year are the year. -/
lemma daysBeforeMonth_thirteen (year : ℕ) : daysBeforeMonth (isLeap year) 13 = yearLength year := by
  rw [yearLength]
  cases isLeap year <;> rfl

/-- A date is within its year. -/
lemma IsDate.dayOfYear_lt {epoch days year month day : ℕ} (h : IsDate epoch days year month day) :
    daysBeforeMonth (isLeap year) month + (day - 1) < yearLength year := by
  have hmonth := h.month_range
  have hday := h.day_range
  have hnext := sum_range_add_le (fun i => monthLength (isLeap year) (i + 1))
    (show month - 1 < 12 by omega)
  have hall : ∑ i ∈ Finset.range 12, monthLength (isLeap year) (i + 1) = yearLength year :=
    daysBeforeMonth_thirteen year
  simp only [Nat.sub_add_cancel hmonth.1] at hnext
  rw [daysBeforeMonth]
  omega

/-- **Every day has exactly one date.** -/
theorem existsUnique_date (epoch days : ℕ) :
    ∃! date : ℕ × ℕ × ℕ, IsDate epoch days date.1 date.2.1 date.2.2 := by
  obtain ⟨⟨k, r⟩, ⟨hr, hdays⟩, hyear⟩ :=
    existsUnique_tile (fun i => yearLength_pos (epoch + i)) days
  obtain ⟨⟨j, q⟩, ⟨hq, hrest⟩, hmonth⟩ :=
    existsUnique_tile (fun i => monthLength_pos (isLeap (epoch + k)) (i + 1)) r
  simp only at hr hdays hq hrest
  have hj : j < 12 := by
    by_contra hge
    have hsum : ∑ i ∈ Finset.range 12, monthLength (isLeap (epoch + k)) (i + 1) ≤
        ∑ i ∈ Finset.range j, monthLength (isLeap (epoch + k)) (i + 1) :=
      Finset.sum_le_sum_of_subset (Finset.range_subset_range.mpr (not_lt.mp hge))
    have hall : ∑ i ∈ Finset.range 12, monthLength (isLeap (epoch + k)) (i + 1) =
        yearLength (epoch + k) := daysBeforeMonth_thirteen (epoch + k)
    omega
  have hbefore : daysBeforeYear epoch (epoch + k) =
      ∑ i ∈ Finset.range k, yearLength (epoch + i) := by
    rw [daysBeforeYear, Nat.add_sub_cancel_left]
  have hmonths : daysBeforeMonth (isLeap (epoch + k)) (j + 1) =
      ∑ i ∈ Finset.range j, monthLength (isLeap (epoch + k)) (i + 1) := rfl
  refine ⟨(epoch + k, j + 1, q + 1), ⟨by simp, by simp only; omega, ⟨by simp, hq⟩, ?_⟩, ?_⟩
  · simp only [hbefore, hmonths]
    omega
  · rintro ⟨year, month, day⟩ h
    have hin := h.dayOfYear_lt
    obtain ⟨hge, hm, hd, heq⟩ := h
    simp only at hin hge hm hd heq
    obtain ⟨i, rfl⟩ := Nat.exists_eq_add_of_le hge
    rw [daysBeforeYear, Nat.add_sub_cancel_left] at heq
    obtain ⟨rfl, rfl⟩ := Prod.mk.inj
      (hyear (i, daysBeforeMonth (isLeap (epoch + i)) month + (day - 1))
        ⟨hin, by simp only; omega⟩)
    obtain ⟨hj', hq'⟩ := Prod.mk.inj (hmonth (month - 1, day - 1)
      ⟨by simp only [Nat.sub_add_cancel hm.1]; omega, rfl⟩)
    simp only [Prod.mk.injEq, true_and]
    omega

/-- The year, month and day of a day since the epoch. -/
noncomputable def gregorian (epoch days : ℕ) : ℕ × ℕ × ℕ := (existsUnique_date epoch days).choose

lemma eq_gregorian_iff {epoch days : ℕ} {date : ℕ × ℕ × ℕ} :
    date = gregorian epoch days ↔ IsDate epoch days date.1 date.2.1 date.2.2 := by
  obtain ⟨hdate, hunique⟩ := (existsUnique_date epoch days).choose_spec
  refine ⟨fun h => ?_, fun h => hunique date h⟩
  rw [h]
  exact hdate

end Masika
