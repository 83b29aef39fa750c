import Mathlib.Tactic.IntervalCases
import Mathlib.Order.Basic

/-!
# The Gregorian calendar

Dates, and the number of a date: how many days the calendar has up to it (`Date.ordinal`). Dates
come in the order of their numbers (`Date.ordinal_lt_iff`), and different dates have different
numbers.
-/

namespace RestoreEngine.Time

/-! ### Years and months -/

/-- The number of leap days of a year. -/
def leapDays (year : ℕ) : ℕ :=
  if year % 4 = 0 ∧ (year % 100 ≠ 0 ∨ year % 400 = 0) then 1 else 0

/-- The days of the years before. -/
def daysBeforeYear (year : ℕ) : ℕ :=
  (year - 1) * 365 + (year - 1) / 4 - (year - 1) / 100 + (year - 1) / 400

/-- The days of a month. -/
def daysInMonth (year month : ℕ) : ℕ :=
  if month = 2 then 28 + leapDays year
  else [0, 31, 28, 31, 30, 31, 30, 31, 31, 30, 31, 30, 31].getD month 0

/-- The days of the months before in the year. -/
def daysBeforeMonth (year month : ℕ) : ℕ :=
  [0, 0, 31, 59, 90, 120, 151, 181, 212, 243, 273, 304, 334].getD month 0 +
    if 2 < month then leapDays year else 0

theorem leapDays_le (year : ℕ) : leapDays year ≤ 1 := by
  rw [leapDays]
  split_ifs <;> omega

/-- Counting multiples. -/
private theorem div_eq_of_pos {n : ℕ} (hn : 1 ≤ n) (d : ℕ) :
    n / d = (n - 1) / d + if n % d = 0 then 1 else 0 := by
  obtain ⟨k, rfl⟩ := Nat.exists_eq_add_of_le' hn
  rw [Nat.add_sub_cancel, Nat.succ_div]
  simp only [Nat.dvd_iff_mod_eq_zero]

theorem daysBeforeYear_succ {year : ℕ} (h : 1 ≤ year) :
    daysBeforeYear (year + 1) = daysBeforeYear year + 365 + leapDays year := by
  have hfew : (year - 1) / 100 ≤ (year - 1) / 4 := Nat.div_le_div_left (by omega) (by omega)
  have hof4 : year % 100 = 0 → year % 4 = 0 := by omega
  have hof100 : year % 400 = 0 → year % 100 = 0 := by omega
  rw [daysBeforeYear, daysBeforeYear, Nat.add_sub_cancel, leapDays, div_eq_of_pos h 4,
    div_eq_of_pos h 100, div_eq_of_pos h 400]
  generalize (year - 1) / 4 = a at hfew ⊢
  generalize (year - 1) / 100 = b at hfew ⊢
  generalize (year - 1) / 400 = c
  by_cases hmod4 : year % 4 = 0
  · by_cases hmod100 : year % 100 = 0
    · by_cases hmod400 : year % 400 = 0
      · rw [if_pos hmod4, if_pos hmod100, if_pos hmod400, if_pos ⟨hmod4, .inr hmod400⟩]
        omega
      · rw [if_pos hmod4, if_pos hmod100, if_neg hmod400, if_neg fun hleap =>
          hleap.2.elim (· hmod100) hmod400]
        omega
    · rw [if_pos hmod4, if_neg hmod100, if_neg fun h => hmod100 (hof100 h),
        if_pos ⟨hmod4, .inl hmod100⟩]
      omega
  · have hmod100 : ¬ year % 100 = 0 := fun h => hmod4 (hof4 h)
    rw [if_neg hmod4, if_neg hmod100, if_neg fun h => hmod100 (hof100 h),
      if_neg fun hleap => hmod4 hleap.1]
    omega

theorem daysBeforeYear_le {y z : ℕ} (hy : 1 ≤ y) (hlt : y < z) :
    daysBeforeYear y + 365 + leapDays y ≤ daysBeforeYear z := by
  induction z with
  | zero => omega
  | succ z ih =>
    by_cases hsame : y = z
    · rw [hsame, daysBeforeYear_succ (hsame ▸ hy)]
    · have hbefore := ih (by omega)
      rw [daysBeforeYear_succ (by omega)]
      omega

theorem daysBeforeMonth_succ (year : ℕ) {month : ℕ} (hpos : 1 ≤ month) (hlt : month < 12) :
    daysBeforeMonth year (month + 1) = daysBeforeMonth year month + daysInMonth year month := by
  interval_cases month <;> simp [daysBeforeMonth, daysInMonth] <;> omega

theorem daysBeforeMonth_le (year : ℕ) {m n : ℕ} (hm : 1 ≤ m) (hlt : m < n) (hn : n ≤ 12) :
    daysBeforeMonth year m + daysInMonth year m ≤ daysBeforeMonth year n := by
  induction n with
  | zero => omega
  | succ n ih =>
    rw [daysBeforeMonth_succ year (by omega) (by omega)]
    by_cases hsame : m = n
    · rw [hsame]
    · have hbefore := ih (by omega) (by omega)
      omega

/-- A year has 365 days, or one more. -/
theorem daysBeforeMonth_add_le (year : ℕ) {month : ℕ} (hpos : 1 ≤ month) (hle : month ≤ 12) :
    daysBeforeMonth year month + daysInMonth year month ≤ 365 + leapDays year := by
  have hlast : daysBeforeMonth year 12 + daysInMonth year 12 = 365 + leapDays year := by
    simp [daysBeforeMonth, daysInMonth]
    omega
  by_cases hsame : month = 12
  · rw [hsame, hlast]
  · have hbefore := daysBeforeMonth_le year hpos (by omega) le_rfl
    omega

/-! ### Dates -/

/-- A date. -/
structure Date where
  year : ℕ
  month : ℕ
  day : ℕ
  deriving DecidableEq

namespace Date

variable {a b : Date}

/-- The calendar has the date. -/
structure Valid (a : Date) : Prop where
  year_pos : 1 ≤ a.year
  month_pos : 1 ≤ a.month
  month_le : a.month ≤ 12
  day_pos : 1 ≤ a.day
  day_le : a.day ≤ daysInMonth a.year a.month

instance (a : Date) : Decidable a.Valid :=
  decidable_of_iff (1 ≤ a.year ∧ 1 ≤ a.month ∧ a.month ≤ 12 ∧ 1 ≤ a.day ∧
    a.day ≤ daysInMonth a.year a.month)
    ⟨fun h => ⟨h.1, h.2.1, h.2.2.1, h.2.2.2.1, h.2.2.2.2⟩,
      fun h => ⟨h.year_pos, h.month_pos, h.month_le, h.day_pos, h.day_le⟩⟩

/-- **The number of a date**: the first of January of the year 1 has the number 1. -/
def ordinal (a : Date) : ℕ := daysBeforeYear a.year + daysBeforeMonth a.year a.month + a.day

/-- The date comes before the other one. -/
def Before (a b : Date) : Prop :=
  a.year < b.year ∨ a.year = b.year ∧
    (a.month < b.month ∨ a.month = b.month ∧ a.day < b.day)

theorem Valid.ordinal_lt (ha : a.Valid) (hb : b.Valid) (h : a.Before b) :
    a.ordinal < b.ordinal := by
  have hday := ha.day_le
  have hpos := hb.day_pos
  rw [ordinal, ordinal]
  rcases h with hyear | ⟨hyear, hmonth | ⟨hmonth, hlt⟩⟩
  · have hin := daysBeforeMonth_add_le a.year ha.month_pos ha.month_le
    have hbefore := daysBeforeYear_le ha.year_pos hyear
    omega
  · have hbefore := daysBeforeMonth_le a.year ha.month_pos hmonth hb.month_le
    rw [← hyear]
    omega
  · rw [← hyear, ← hmonth]
    omega

theorem before_trichotomy (a b : Date) : a.Before b ∨ a = b ∨ b.Before a := by
  obtain ⟨y, m, d⟩ := a
  obtain ⟨y', m', d'⟩ := b
  simp only [Before, mk.injEq]
  omega

/-- **Dates come in the order of their numbers.** -/
theorem ordinal_lt_iff (ha : a.Valid) (hb : b.Valid) : a.ordinal < b.ordinal ↔ a.Before b := by
  refine ⟨fun hlt => ?_, ha.ordinal_lt hb⟩
  rcases before_trichotomy a b with hbefore | rfl | hafter
  · exact hbefore
  · exact absurd hlt (lt_irrefl _)
  · have hgt := hb.ordinal_lt ha hafter
    omega

theorem ordinal_inj (ha : a.Valid) (hb : b.Valid) (h : a.ordinal = b.ordinal) : a = b := by
  rcases before_trichotomy a b with hbefore | hsame | hafter
  · have hlt := ha.ordinal_lt hb hbefore
    omega
  · exact hsame
  · have hlt := hb.ordinal_lt ha hafter
    omega

end Date

end RestoreEngine.Time
