import RestoreEngine.Model.Backups
import RestoreEngine.Texts.Split

/-!
# Seconds and their texts

The text of a second is the stamp of the second (`secondText_eq`), for every second from 1970 to
the end of the year 9999. The date comes from `civilDate`, which counts years from March and takes
a cycle of 400 years at a time.
-/

namespace RestoreEngine

open Time

/-! ### Years of a cycle -/

/-- The days before a year of the cycle, whose years begin in March. -/
private def marchDays (y : ℕ) : ℕ := 365 * y + y / 4 - y / 100 + y / 400

/-- The days of a cycle, less the leap days. -/
private def leapless (doe : ℕ) : ℕ := doe - doe / 1460 + doe / 36524 - doe / 146096

private theorem leapless_mono {d e : ℕ} (h : d ≤ e) (he : e ≤ 146096) : leapless d ≤ leapless e := by
  have hsub : d - d / 1460 ≤ e - e / 1460 := by omega
  have hcent : d / 36524 - d / 146096 ≤ e / 36524 - e / 146096 := by omega
  have hd : d / 146096 ≤ d / 36524 := Nat.div_le_div_left (by omega) (by omega)
  have he' : e / 146096 ≤ e / 36524 := Nat.div_le_div_left (by omega) (by omega)
  rw [leapless, leapless]
  omega

private theorem leapless_first {y : ℕ} (h : y < 400) : leapless (marchDays y) / 365 = y := by
  have hall : (List.range 400).all fun y => (leapless (marchDays y) / 365).beq y := by
    decide +kernel
  exact Nat.eq_of_beq_eq_true (List.all_eq_true.mp hall y (List.mem_range.mpr h))

private theorem leapless_last {y : ℕ} (h : y < 400) :
    leapless (marchDays (y + 1) - 1) / 365 = y := by
  have hall : (List.range 400).all fun y => (leapless (marchDays (y + 1) - 1) / 365).beq y := by
    decide +kernel
  exact Nat.eq_of_beq_eq_true (List.all_eq_true.mp hall y (List.mem_range.mpr h))

/-- **The year of a day of the cycle.** -/
private theorem year_of_day {doe : ℕ} (h : doe < 146097) :
    leapless doe / 365 < 400 ∧ marchDays (leapless doe / 365) ≤ doe ∧
      doe < marchDays (leapless doe / 365 + 1) := by
  have hlast : leapless 146096 / 365 = 399 := by decide
  have hlt : leapless doe / 365 < 400 := by
    have hle := Nat.div_le_div_right (c := 365) (leapless_mono (by omega : doe ≤ 146096) le_rfl)
    omega
  refine ⟨hlt, ?_, ?_⟩
  · by_contra hless
    have hpos : 0 < leapless doe / 365 := by
      rcases Nat.eq_zero_or_pos (leapless doe / 365) with hzero | hpos
      · rw [hzero] at hless
        exact absurd (Nat.zero_le doe) hless
      · exact hpos
    obtain ⟨k, hk⟩ : ∃ k, leapless doe / 365 = k + 1 := ⟨_, (Nat.succ_pred_eq_of_pos hpos).symm⟩
    rw [hk] at hless hlt
    have hbound : marchDays (k + 1) ≤ 146097 := by
      rw [marchDays]
      omega
    have hle := Nat.div_le_div_right (c := 365)
      (leapless_mono (by omega : doe ≤ marchDays (k + 1) - 1) (by omega))
    rw [leapless_last (by omega)] at hle
    omega
  · by_contra hmore
    have hnext : leapless doe / 365 + 1 < 400 := by
      rcases Nat.lt_or_ge (leapless doe / 365 + 1) 400 with hlt' | hge
      · exact hlt'
      · have heq : leapless doe / 365 + 1 = 400 := by omega
        rw [heq] at hmore
        have hdays : marchDays 400 = 146097 := by decide
        omega
    have hle := Nat.div_le_div_right (c := 365)
      (leapless_mono (not_lt.mp hmore) (by omega))
    rw [leapless_first hnext] at hle
    omega

/-! ### Days -/

/-- The year, counted from March, and the day of that year. -/
private theorem march_of_day (z : ℕ) :
    ∃ y doy, z = daysBeforeYear (y + 1) + doy ∧ doy < 365 + leapDays (y + 1) ∧
      (y : ℤ) = (leapless (z % 146097) / 365 : ℕ) + z / 146097 * 400 ∧
      doy = z % 146097 - (365 * (leapless (z % 146097) / 365) + leapless (z % 146097) / 365 / 4 -
        leapless (z % 146097) / 365 / 100) := by
  obtain ⟨hlt, hfrom, hto⟩ := year_of_day (Nat.mod_lt z (by omega : 146097 > 0))
  have hsplit := Nat.div_add_mod z 146097
  generalize z % 146097 = doe at *
  generalize leapless doe / 365 = yoe at *
  generalize hera : z / 146097 = era at *
  have hfirst : daysBeforeYear (yoe + 400 * era + 1) = marchDays yoe + 146097 * era := by
    rw [daysBeforeYear, marchDays, Nat.add_sub_cancel]
    omega
  have hnext : daysBeforeYear (yoe + 400 * era + 1 + 1) = marchDays (yoe + 1) + 146097 * era := by
    rw [daysBeforeYear, marchDays, Nat.add_sub_cancel]
    omega
  have hyear := daysBeforeYear_succ (by omega : 1 ≤ yoe + 400 * era + 1)
  have hsmall : marchDays yoe = 365 * yoe + yoe / 4 - yoe / 100 := by
    rw [marchDays]
    omega
  refine ⟨yoe + 400 * era, doe - marchDays yoe, by omega, by omega, ?_, by rw [hsmall]⟩
  have hera' : (z : ℤ) / 146097 = era := by
    rw [← hera]
    rfl
  rw [hera']
  push_cast
  omega

/-- The month and the day of the month, from the day of a year that begins in March. -/
private theorem month_of_day {y doy month day : ℕ} (h : doy < 365 + leapDays (y + 1))
    (hmonth : month = if (5 * doy + 2) / 153 < 10 then (5 * doy + 2) / 153 + 3
      else (5 * doy + 2) / 153 - 9)
    (hday : day = doy - (153 * ((5 * doy + 2) / 153) + 2) / 5 + 1) :
    1 ≤ month ∧ month ≤ 12 ∧ 1 ≤ day ∧
      (month ≤ 2 → day ≤ daysInMonth (y + 1) month ∧
        doy + 1 = 306 + daysBeforeMonth (y + 1) month + day) ∧
      (¬ month ≤ 2 → day ≤ daysInMonth y month ∧ doy < 306 ∧
        doy + 60 + leapDays y = daysBeforeMonth y month + day) := by
  have hleap := leapDays_le (y + 1)
  have hmp : (5 * doy + 2) / 153 ≤ 11 := by omega
  have hlow : 153 * ((5 * doy + 2) / 153) ≤ 5 * doy + 2 := Nat.mul_div_le _ _
  have hhigh : 5 * doy + 2 < 153 * ((5 * doy + 2) / 153) + 153 := by omega
  generalize (5 * doy + 2) / 153 = mp at *
  subst hmonth hday
  interval_cases mp <;> simp [daysInMonth, daysBeforeMonth] <;> omega

/-- The date of a day. -/
def civil (day : ℤ) : Date :=
  ⟨(civilDate day).1.toNat, (civilDate day).2.1, (civilDate day).2.2⟩

/-- **The date of a day** is the one whose number is the day's, from the year 1 on. -/
theorem civil_spec {day : ℤ} (h : -719162 ≤ day) :
    (civil day).Valid ∧ ((civil day).ordinal : ℤ) = day + epochDay ∧
      (civilDate day).1 = (civil day).year := by
  obtain ⟨z, hz⟩ : ∃ z : ℕ, day + 719468 = z := ⟨(day + 719468).toNat, by omega⟩
  have hdoe : ((z : ℤ) - z / 146097 * 146097).toNat = z % 146097 := by omega
  obtain ⟨y, doy, hsum, hdoy, hy, hdoyeq⟩ := march_of_day z
  obtain ⟨month, hmonth⟩ : ∃ month, month = if (5 * doy + 2) / 153 < 10 then (5 * doy + 2) / 153 + 3
    else (5 * doy + 2) / 153 - 9 := ⟨_, rfl⟩
  obtain ⟨d, hd⟩ : ∃ d, d = doy - (153 * ((5 * doy + 2) / 153) + 2) / 5 + 1 := ⟨_, rfl⟩
  have hcivil : civilDate day = ((y : ℤ) + (if month ≤ 2 then 1 else 0), month, d) := by
    have hfold : ∀ doe : ℕ, doe - doe / 1460 + doe / 36524 - doe / 146096 = leapless doe :=
      fun _ => rfl
    simp only [civilDate, hz, hdoe, hfold, ← hdoyeq, ← hmonth, ← hd, ← hy]
  obtain ⟨hmpos, hmle, hdpos, hwinter, hsummer⟩ := month_of_day hdoy hmonth hd
  clear hy hdoyeq hmonth hd hdoe
  by_cases hearly : month ≤ 2
  · obtain ⟨hle, hcount⟩ := hwinter hearly
    have hdate : civil day = ⟨y + 1, month, d⟩ := by
      rw [civil, hcivil, if_pos hearly]
      rfl
    rw [hdate, hcivil, if_pos hearly, Date.ordinal, epochDay]
    refine ⟨⟨by simp, hmpos, hmle, hdpos, hle⟩, ?_, by simp⟩
    simp only
    omega
  · obtain ⟨hle, hlt, hcount⟩ := hsummer hearly
    have hdate : civil day = ⟨y, month, d⟩ := by
      rw [civil, hcivil, if_neg hearly, add_zero]
      rfl
    -- the calendar begins with the January of the year 1
    have hpos : 1 ≤ y := by
      by_contra hzero
      obtain rfl : y = 0 := by omega
      have hfirst : daysBeforeYear (0 + 1) = 0 := by decide
      omega
    have hnext := daysBeforeYear_succ hpos
    rw [hdate, hcivil, if_neg hearly, Date.ordinal, epochDay]
    refine ⟨⟨hpos, hmpos, hmle, hdpos, hle⟩, ?_, by simp⟩
    simp only
    omega

/-! ### Seconds -/

/-- There is no space in a stamp. -/
theorem isSpace_of_mem_text {a : Stamp} {ch : Char} (h : ch ∈ a.text) :
    Text.isSpace ch = false := by
  rcases Stamp.mem_text h with hdigit | hmark
  · exact Text.isSpace_of_isDigit hdigit
  · have hall : ∀ ch ∈ ['-', 'T', ':', 'Z'], Text.isSpace ch = false := by decide
    exact hall ch hmark

/-- The stamp of a second. -/
def stampOf (sec : ℤ) : Stamp where
  date := civil (sec / 86400)
  hour := (sec % 86400).toNat / 3600
  minute := (sec % 86400).toNat / 60 % 60
  second := (sec % 86400).toNat % 60

/-- The engine's seconds are those from 1970 to 9999. -/
structure InRange (sec : ℤ) : Prop where
  nonneg : 0 ≤ sec
  le_last : sec ≤ lastSecond

instance (sec : ℤ) : Decidable (InRange sec) :=
  decidable_of_iff (0 ≤ sec ∧ sec ≤ lastSecond) ⟨fun h => ⟨h.1, h.2⟩, fun h => ⟨h.1, h.2⟩⟩

variable {sec : ℤ}

private theorem civil_of_inRange (h : InRange sec) : (civil (sec / 86400)).Valid ∧
    ((civil (sec / 86400)).ordinal : ℤ) = sec / 86400 + epochDay ∧
      (civilDate (sec / 86400)).1 = (civil (sec / 86400)).year :=
  civil_spec (le_trans (by decide) (Int.ediv_nonneg h.nonneg (by decide)))

/-- The years are those from 1970 to 9999. -/
private theorem year_of_inRange (h : InRange sec) :
    1000 ≤ (civil (sec / 86400)).year ∧ (civil (sec / 86400)).year < 10000 := by
  obtain ⟨hvalid, hordinal, -⟩ := civil_of_inRange h
  have hfirst := h.nonneg
  have hlast : sec ≤ 253402300799 := h.le_last
  have hin := daysBeforeMonth_add_le (civil (sec / 86400)).year hvalid.month_pos hvalid.month_le
  have hday := hvalid.day_le
  have hleap := leapDays_le (civil (sec / 86400)).year
  rw [epochDay, Date.ordinal] at hordinal
  generalize civil (sec / 86400) = date at *
  constructor
  · by_contra hless
    have hbefore := daysBeforeYear_le hvalid.year_pos (not_le.mp hless)
    have hdays : daysBeforeYear 1000 = 364877 := by decide
    omega
  · by_contra hmore
    have hpos := hvalid.day_pos
    have hdays : daysBeforeYear 10000 = 3652059 := by decide
    have hbefore : daysBeforeYear 10000 ≤ daysBeforeYear date.year := by
      rcases Nat.eq_or_lt_of_le (not_lt.mp hmore) with heq | hlt
      · rw [heq]
      · have hle := daysBeforeYear_le (by omega) hlt
        exact (Nat.le_add_right _ _).trans ((Nat.le_add_right _ _).trans hle)
    omega

theorem stampOf_valid (h : InRange sec) : (stampOf sec).Valid where
  date := (civil_of_inRange h).1
  year_lt := by
    have hyear := (year_of_inRange h).2
    exact hyear
  hour_lt := by
    simp only [stampOf]
    omega
  minute_lt := by
    simp only [stampOf]
    omega
  second_lt := by
    simp only [stampOf]
    omega

@[simp] theorem seconds_stampOf (h : InRange sec) : (stampOf sec).seconds = sec := by
  rw [Stamp.seconds, stampOf, (civil_of_inRange h).2.1]
  have hnonneg := h.nonneg
  simp only [epochDay]
  omega

private theorem padded_two : ∀ n < 100, padded 2 n = String.ofList (digits 2 n) := by
  decide +kernel

/-- A year of four digits. -/
private theorem toString_year {year : ℕ} (hlow : 1000 ≤ year) (hhigh : year < 10000) :
    toString (year : ℤ) = String.ofList (digits 4 year) := by
  rw [← toDigits_eq_digits hlow hhigh]
  exact Nat.toString_eq_ofList_toDigits

/-- **The text of a second** is its stamp. -/
theorem secondText_eq (h : InRange sec) : secondText sec = String.ofList (stampOf sec).text := by
  have hvalid := stampOf_valid h
  obtain ⟨hlow, hhigh⟩ := year_of_inRange h
  have hyear := toString_year hlow hhigh
  rw [← (civil_of_inRange h).2.2] at hyear
  have hmonth := padded_two _ hvalid.month_lt
  have hday := padded_two _ hvalid.day_lt
  have hhour := padded_two _ (hvalid.hour_lt.trans (by decide))
  have hminute := padded_two _ (hvalid.minute_lt.trans (by decide))
  have hsecond := padded_two _ (hvalid.second_lt.trans (by decide))
  simp only [stampOf, civil] at hyear hmonth hday hhour hminute hsecond
  simp only [secondText, hyear, hmonth, hday, hhour, hminute, hsecond]
  have hstring : ∀ s : String, toString s = s := fun _ => rfl
  rw [← String.toList_inj]
  simp [hstring, Stamp.text, Stamp.body, Stamp.dateText, Stamp.minuteText, stampOf, civil]

end RestoreEngine
