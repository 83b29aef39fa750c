import Mathlib.Data.List.Lex
import RestoreEngine.Time.Calendar

/-!
# Time stamps

Texts of a fixed format for the seconds of the calendar, such as `2026-05-01T01:00:00Z`. Every
part of the text is a number with a fixed count of digits, so texts compare character by character
as the seconds do (`Stamp.text_lt_iff`).
-/

namespace RestoreEngine.Time

/-! ### Digits -/

/-- The last decimal digits of a number, as many as the width. -/
def digits : ℕ → ℕ → List Char
  | 0, _ => []
  | width + 1, n => digits width (n / 10) ++ [Nat.digitChar (n % 10)]

@[simp] theorem length_digits (width n : ℕ) : (digits width n).length = width := by
  induction width generalizing n with
  | zero => rfl
  | succ width ih => rw [digits, List.length_append, ih, List.length_singleton]

theorem digitChar_lt_iff {m n : ℕ} (hm : m < 10) (hn : n < 10) :
    Nat.digitChar m < Nat.digitChar n ↔ m < n := by
  have hall : ∀ a < 10, ∀ b < 10, Nat.digitChar a < Nat.digitChar b ↔ a < b := by decide
  exact hall m hm n hn

theorem digitChar_inj {m n : ℕ} (hm : m < 10) (hn : n < 10) :
    Nat.digitChar m = Nat.digitChar n ↔ m = n := by
  have hall : ∀ a < 10, ∀ b < 10, Nat.digitChar a = Nat.digitChar b ↔ a = b := by decide
  exact hall m hm n hn

/-- **Numbers of one width compare first**, and what follows only decides between equal ones. -/
theorem digits_append_lt {width m n : ℕ} {s t : List Char} (hm : m < 10 ^ width)
    (hn : n < 10 ^ width) :
    digits width m ++ s < digits width n ++ t ↔ m < n ∨ m = n ∧ s < t := by
  induction width generalizing m n s t with
  | zero =>
    rw [pow_zero] at hm hn
    obtain rfl : m = 0 := by omega
    obtain rfl : n = 0 := by omega
    simp [digits]
  | succ width ih =>
    rw [pow_succ] at hm hn
    have hsm : m / 10 < 10 ^ width := by omega
    have hsn : n / 10 < 10 ^ width := by omega
    have hdm : m % 10 < 10 := by omega
    have hdn : n % 10 < 10 := by omega
    rw [digits, digits, List.append_assoc, List.append_assoc, List.singleton_append,
      List.singleton_append, ih hsm hsn, List.cons_lt_cons_iff, digitChar_lt_iff hdm hdn,
      digitChar_inj hdm hdn]
    constructor
    · rintro (hlt | ⟨hsame, hlt | ⟨hlast, hrest⟩⟩)
      · left
        omega
      · left
        omega
      · right
        exact ⟨by omega, hrest⟩
    · rintro (hlt | ⟨rfl, hrest⟩)
      · by_cases hsame : m / 10 = n / 10
        · right
          exact ⟨hsame, Or.inl (by omega)⟩
        · left
          omega
      · exact Or.inr ⟨rfl, Or.inr ⟨rfl, hrest⟩⟩

/-- Small numbers are their decimal digits. -/
theorem toDigits_eq_digits {width n : ℕ} (hlow : 10 ^ width ≤ n) (hhigh : n < 10 ^ (width + 1)) :
    Nat.toDigits 10 n = digits (width + 1) n := by
  induction width generalizing n with
  | zero =>
    have hdigit : n < 10 := hhigh
    rw [Nat.toDigits_of_lt_base hdigit, digits, digits, Nat.mod_eq_of_lt hdigit, List.nil_append]
  | succ width ih =>
    rw [pow_succ] at hlow hhigh
    have hpos : 0 < 10 ^ width := Nat.pow_pos (by omega)
    rw [Nat.toDigits_of_base_le (by omega) (by omega), digits, ih (by omega) (by omega)]

/-! ### Stamps -/

/-- A second of the calendar. -/
structure Stamp where
  date : Date
  hour : ℕ
  minute : ℕ
  second : ℕ
  deriving DecidableEq

/-- The number of the first of January 1970. -/
def epochDay : ℕ := 719163

namespace Stamp

variable {a b : Stamp}

/-- The calendar has the second, in a year of at most four digits. -/
structure Valid (a : Stamp) : Prop where
  date : a.date.Valid
  year_lt : a.date.year < 10000
  hour_lt : a.hour < 24
  minute_lt : a.minute < 60
  second_lt : a.second < 60

instance (a : Stamp) : Decidable a.Valid :=
  decidable_of_iff (a.date.Valid ∧ a.date.year < 10000 ∧ a.hour < 24 ∧ a.minute < 60 ∧
    a.second < 60)
    ⟨fun h => ⟨h.1, h.2.1, h.2.2.1, h.2.2.2.1, h.2.2.2.2⟩,
      fun h => ⟨h.date, h.year_lt, h.hour_lt, h.minute_lt, h.second_lt⟩⟩

/-- The seconds since the beginning of 1970. -/
def seconds (a : Stamp) : ℤ :=
  86400 * (a.date.ordinal - epochDay) + 3600 * a.hour + 60 * a.minute + a.second

/-- `YYYY-MM-DD`. -/
def dateText (a : Stamp) : List Char :=
  digits 4 a.date.year ++ '-' :: (digits 2 a.date.month ++ '-' :: digits 2 a.date.day)

/-- `HH:MM`. -/
def minuteText (a : Stamp) : List Char := digits 2 a.hour ++ ':' :: digits 2 a.minute

/-- `YYYY-MM-DDTHH:MM:SS`. -/
def body (a : Stamp) : List Char :=
  a.dateText ++ 'T' :: (a.minuteText ++ ':' :: digits 2 a.second)

/-- `YYYY-MM-DDTHH:MM:SSZ`. -/
def text (a : Stamp) : List Char := a.body ++ ['Z']

private theorem text_eq (a : Stamp) : a.text = digits 4 a.date.year ++ '-' :: (digits 2 a.date.month
    ++ '-' :: (digits 2 a.date.day ++ 'T' :: (digits 2 a.hour ++ ':' :: (digits 2 a.minute ++
    ':' :: (digits 2 a.second ++ ['Z']))))) := by
  simp only [text, body, dateText, minuteText, List.append_assoc, List.cons_append]

theorem Valid.month_lt (h : a.Valid) : a.date.month < 10 ^ 2 := by
  have hle := h.date.month_le
  omega

private theorem getD_le {l : List ℕ} {n : ℕ} (h : ∀ d ∈ l, d ≤ n) (i : ℕ) : l.getD i 0 ≤ n := by
  rw [List.getD_eq_getElem?_getD]
  cases hd : l[i]? with
  | none => exact Nat.zero_le n
  | some d => exact h d (List.mem_of_getElem? hd)

theorem daysInMonth_le (year month : ℕ) : daysInMonth year month ≤ 31 := by
  have hleap := leapDays_le year
  rw [daysInMonth]
  split_ifs
  · omega
  · exact getD_le (by decide) month

theorem Valid.day_lt (h : a.Valid) : a.date.day < 10 ^ 2 := by
  have hle := h.date.day_le
  have hmonth := daysInMonth_le a.date.year a.date.month
  omega

/-- Seconds come in the order of their dates, and within a date by the clock. -/
private theorem seconds_lt_iff (ha : a.Valid) (hb : b.Valid) : a.seconds < b.seconds ↔
    a.date.Before b.date ∨ a.date = b.date ∧ (a.hour < b.hour ∨ a.hour = b.hour ∧
      (a.minute < b.minute ∨ a.minute = b.minute ∧ a.second < b.second)) := by
  have hday := Date.ordinal_lt_iff ha.date hb.date
  have hsame : a.date = b.date ↔ a.date.ordinal = b.date.ordinal :=
    ⟨congrArg Date.ordinal, Date.ordinal_inj ha.date hb.date⟩
  rw [← hday, hsame, seconds, seconds]
  have h₁ := ha.hour_lt
  have h₂ := ha.minute_lt
  have h₃ := ha.second_lt
  have h₄ := hb.hour_lt
  have h₅ := hb.minute_lt
  have h₆ := hb.second_lt
  omega

/-- **Texts compare as the seconds do.** -/
theorem text_lt_iff (ha : a.Valid) (hb : b.Valid) : a.text < b.text ↔ a.seconds < b.seconds := by
  have hya : a.date.year < 10 ^ 4 := ha.year_lt
  have hyb : b.date.year < 10 ^ 4 := hb.year_lt
  have hha : a.hour < 10 ^ 2 := ha.hour_lt.trans (by decide)
  have hhb : b.hour < 10 ^ 2 := hb.hour_lt.trans (by decide)
  have hma : a.minute < 10 ^ 2 := ha.minute_lt.trans (by decide)
  have hmb : b.minute < 10 ^ 2 := hb.minute_lt.trans (by decide)
  have hsa : a.second < 10 ^ 2 := ha.second_lt.trans (by decide)
  have hsb : b.second < 10 ^ 2 := hb.second_lt.trans (by decide)
  have hsame : a.date = b.date ↔ a.date.year = b.date.year ∧ a.date.month = b.date.month ∧
      a.date.day = b.date.day := by
    rw [← Date.mk.injEq]
  rw [seconds_lt_iff ha hb, text_eq, text_eq, hsame, Date.Before, digits_append_lt hya hyb,
    List.cons_lt_cons_self, digits_append_lt ha.month_lt hb.month_lt, List.cons_lt_cons_self,
    digits_append_lt ha.day_lt hb.day_lt, List.cons_lt_cons_self, digits_append_lt hha hhb,
    List.cons_lt_cons_self, digits_append_lt hma hmb, List.cons_lt_cons_self,
    digits_append_lt hsa hsb]
  have hirr : ¬ ['Z'] < ['Z'] := by decide
  tauto

end Stamp

end RestoreEngine.Time
