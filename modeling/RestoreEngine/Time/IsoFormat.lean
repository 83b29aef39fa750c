import RestoreEngine.Time.Stamp

/-!
# Reading time stamps

`datetime.fromisoformat` of Python, on lists of characters: dates of the calendar and of the ISO
week calendar, each in the extended and the basic format, with an optional time and an optional
offset. What it reads from a stamp is the second of the stamp
(`fromIsoformat_body`).
-/

namespace RestoreEngine.Time

/-- A number of exactly so many digits, and what follows it. -/
def takeNumber (width : ℕ) (s : List Char) : Option (ℕ × List Char) :=
  if (s.take width).length = width ∧ (s.take width).all Char.isDigit then
    some (Nat.ofDigitChars 10 (s.take width) 0, s.drop width)
  else none

/-- The separator is there if it has to be, and what follows it. -/
def takeSeparator (sep : Char) (used : Bool) (s : List Char) : Option (List Char) :=
  if used then if s.head? = some sep then some s.tail else none else some s

/-! ### Dates -/

/-- The number of the Monday of the first ISO week of a year. -/
def firstMonday (year : ℕ) : ℕ :=
  let newYear := daysBeforeYear year + 1
  -- the ordinal 1 is a Monday
  let weekday := (newYear + 6) % 7
  if weekday ≤ 3 then newYear - weekday else newYear + 7 - weekday

/-- The number of a date of the ISO week calendar. -/
def weekOrdinal (year week day : ℕ) : Option ℕ :=
  let weekday := (daysBeforeYear year + 7) % 7
  let long := weekday = 3 ∨ weekday = 2 ∧ leapDays year = 1
  let ordinal := firstMonday year + (week - 1) * 7 + (day - 1)
  if 1 ≤ year ∧ 1 ≤ week ∧ (week ≤ 52 ∨ week = 53 ∧ long) ∧ 1 ≤ day ∧ day ≤ 7 ∧
      ordinal ≤ daysBeforeYear 10000 then
    some ordinal
  else none

/-- The number of the date that a text is. -/
def parseDate (s : List Char) : Option ℕ := do
  let (year, s) ← takeNumber 4 s
  let extended := s.head? = some '-'
  let s ← takeSeparator '-' extended s
  if s.head? = some 'W' then
    let (week, s) ← takeNumber 2 s.tail
    if s = [] then weekOrdinal year week 1
    else
      let s ← takeSeparator '-' extended s
      let (day, s) ← takeNumber 1 s
      if s = [] then weekOrdinal year week day else none
  else
    let (month, s) ← takeNumber 2 s
    let s ← takeSeparator '-' extended s
    let (day, s) ← takeNumber 2 s
    let date : Date := ⟨year, month, day⟩
    if s = [] ∧ date.Valid then some date.ordinal else none

/-! ### Times -/

/-- The microseconds of a fraction of a second. -/
def parseFraction : List Char → Option ℕ
  | [] => some 0
  | sep :: fraction =>
    if (sep = '.' ∨ sep = ',') ∧ fraction ≠ [] ∧ fraction.all Char.isDigit then
      some (Nat.ofDigitChars 10 (fraction.take 6) 0 * 10 ^ (6 - (fraction.take 6).length))
    else none

/-- Hours, minutes, seconds and microseconds. -/
structure ClockTime where
  hour : ℕ
  minute : ℕ := 0
  second : ℕ := 0
  micro : ℕ := 0
  deriving DecidableEq

/-- The time in microseconds. -/
def ClockTime.micros (t : ClockTime) : ℕ :=
  (3600 * t.hour + 60 * t.minute + t.second) * 1000000 + t.micro

/-- `HH[:?MM[:?SS[{.,}f…]]]`. -/
def parseClock (s : List Char) : Option ClockTime := do
  let (hour, s) ← takeNumber 2 s
  if s = [] then return { hour }
  else
    let extended := s.head? = some ':'
    let s ← takeSeparator ':' extended s
    let (minute, s) ← takeNumber 2 s
    if s = [] then return { hour, minute }
    else
      let s ← takeSeparator ':' extended s
      let (second, s) ← takeNumber 2 s
      let micro ← parseFraction s
      return { hour, minute, second, micro }

/-- An offset from UTC in microseconds; it is shorter than a day. -/
def parseOffset (sign : Char) (s : List Char) : Option ℤ := do
  let t ← parseClock s
  if t.micros < 86400 * 1000000 then return if sign = '-' then -t.micros else t.micros
  else none

/-- A time of the day in microseconds, and the offset if there is one. -/
def parseTime (s : List Char) : Option (ℕ × Option ℤ) := do
  let zone := s.dropWhile fun c => c ≠ '+' ∧ c ≠ '-' ∧ c ≠ 'Z'
  let t ← parseClock (s.take (s.length - zone.length))
  if t.hour < 24 ∧ t.minute < 60 ∧ t.second < 60 then
    match zone with
    | [] => return (t.micros, none)
    | ['Z'] => return (t.micros, some 0)
    | sign :: rest =>
      if sign = 'Z' then none
      else
        let offset ← parseOffset sign rest
        return (t.micros, some offset)
  else none

/-! ### Dates with times -/

/-- Where the date ends. -/
def separatorLocation (s : List Char) : ℕ :=
  if s.length = 7 then 7
  else if s[4]? = some '-' then
    if s[5]? = some 'W' then
      -- `YYYY-Www`, or `YYYY-Www-D`, unless more digits show that the hyphen is the separator
      if s[8]? = some '-' ∧ ¬ (s[10]?.any Char.isDigit) then 10 else 8
    else 10
  else if s[4]? = some 'W' then
    let digits := (s.drop 7).takeWhile Char.isDigit
    if digits.length < 2 then 7 + digits.length
    else if (7 + digits.length) % 2 = 0 then 7
    else 8
  else 8

/-- A point in time as it is written: the day, the time in microseconds, the offset. -/
structure IsoDateTime where
  day : ℕ
  micros : ℕ
  offset : Option ℤ
  deriving DecidableEq

/-- `datetime.fromisoformat`. -/
def fromIsoformat (s : List Char) : Option IsoDateTime :=
  if s.length < 7 then none
  else do
    let day ← parseDate (s.take (separatorLocation s))
    let time := s.drop (separatorLocation s + 1)
    if time = [] then return { day, micros := 0, offset := none }
    else
      let (micros, offset) ← parseTime time
      return { day, micros, offset }

/-- `int(dt.timestamp())`; a time without an offset is one in UTC. -/
def IsoDateTime.timestamp (t : IsoDateTime) : ℤ :=
  ((86400 * 1000000 * (t.day - epochDay) + t.micros : ℤ) - t.offset.getD 0).tdiv 1000000

/-! ### Reading a stamp -/

theorem isDigit_of_mem_digits {width n : ℕ} {c : Char} (h : c ∈ digits width n) : c.isDigit := by
  induction width generalizing n with
  | zero => cases h
  | succ width ih =>
    rw [digits] at h
    rcases List.mem_append.mp h with h | h
    · exact ih h
    · obtain rfl := List.mem_singleton.mp h
      have hall : ∀ d < 10, (Nat.digitChar d).isDigit = true := by decide
      exact hall _ (Nat.mod_lt n (by omega))

theorem ofDigitChars_digits {width n : ℕ} (h : n < 10 ^ width) :
    Nat.ofDigitChars 10 (digits width n) 0 = n := by
  induction width generalizing n with
  | zero =>
    rw [pow_zero] at h
    rw [digits, Nat.ofDigitChars_nil]
    omega
  | succ width ih =>
    rw [pow_succ] at h
    have hdigit : n % 10 < 10 := Nat.mod_lt n (by omega)
    rw [digits, Nat.ofDigitChars_append, ih (by omega),
      Nat.ofDigitChars_cons_digitChar_of_lt_ten hdigit, Nat.ofDigitChars_nil]
    omega

/-- A number is read back. -/
theorem takeNumber_digits {width n : ℕ} (h : n < 10 ^ width) (rest : List Char) :
    takeNumber width (digits width n ++ rest) = some (n, rest) := by
  have htake : (digits width n ++ rest).take width = digits width n := by
    rw [List.take_append_of_le_length (by rw [length_digits]), List.take_of_length_le
      (by rw [length_digits])]
  have hdrop : (digits width n ++ rest).drop width = rest := by
    rw [List.drop_append_of_le_length (by rw [length_digits]), List.drop_of_length_le
      (by rw [length_digits]), List.nil_append]
  have hdigits : (digits width n).all Char.isDigit = true :=
    List.all_eq_true.mpr fun c hc => isDigit_of_mem_digits hc
  rw [takeNumber, htake, hdrop, if_pos ⟨length_digits width n, hdigits⟩, ofDigitChars_digits h]

/-- No letter and no punctuation begins a number. -/
theorem head?_digits_ne {width n : ℕ} {c : Char} (hwidth : 0 < width) (hc : c.isDigit = false)
    (rest : List Char) : (digits width n ++ rest).head? ≠ some c := by
  intro h
  match hlist : digits width n with
  | [] => rw [← length_digits width n, hlist] at hwidth; simp at hwidth
  | d :: ds =>
    rw [hlist] at h
    obtain rfl : d = c := by simpa using h
    have hdigit := isDigit_of_mem_digits (n := n) (hlist ▸ List.mem_cons_self)
    rw [hc] at hdigit
    exact absurd hdigit (by decide)

namespace Stamp

variable {a : Stamp}

@[simp] theorem length_dateText (a : Stamp) : a.dateText.length = 10 := by
  simp [dateText]

@[simp] theorem length_body (a : Stamp) : a.body.length = 19 := by
  simp [body, minuteText]

/-- The text of a date is read as the date. -/
theorem parseDate_dateText (ha : a.Valid) : parseDate a.dateText = some a.date.ordinal := by
  have hyear : a.date.year < 10 ^ 4 := ha.year_lt
  have hweek : (digits 2 a.date.month ++ '-' :: digits 2 a.date.day).head? ≠ some 'W' :=
    head?_digits_ne (by omega) (by decide) _
  have hlast := takeNumber_digits ha.day_lt []
  rw [List.append_nil] at hlast
  rw [parseDate, dateText]
  simp only [takeNumber_digits hyear, Option.bind_eq_bind, Option.bind_some, takeSeparator,
    List.head?_cons, List.tail_cons, decide_true, if_true]
  rw [if_neg hweek]
  simp [takeNumber_digits ha.month_lt, hlast, ha.date]

/-- The text of a time is read as the time. -/
theorem parseClock_clockText (ha : a.Valid) :
    parseClock (a.minuteText ++ ':' :: digits 2 a.second) =
      some { hour := a.hour, minute := a.minute, second := a.second } := by
  have hhour : a.hour < 10 ^ 2 := ha.hour_lt.trans (by decide)
  have hminute : a.minute < 10 ^ 2 := ha.minute_lt.trans (by decide)
  have hsecond : a.second < 10 ^ 2 := ha.second_lt.trans (by decide)
  have hlast := takeNumber_digits hsecond []
  rw [List.append_nil] at hlast
  simp [parseClock, minuteText, takeNumber_digits hhour, takeNumber_digits hminute, hlast,
    takeSeparator, parseFraction]

private theorem clock_no_zone (a : Stamp) :
    ∀ c ∈ a.minuteText ++ ':' :: digits 2 a.second, c ≠ '+' ∧ c ≠ '-' ∧ c ≠ 'Z' := by
  intro c hc
  have hcases : c.isDigit ∨ c = ':' := by
    rw [minuteText] at hc
    simp only [List.mem_append, List.mem_cons] at hc
    rcases hc with (hc | rfl | hc) | rfl | hc
    · exact Or.inl (isDigit_of_mem_digits hc)
    · exact Or.inr rfl
    · exact Or.inl (isDigit_of_mem_digits hc)
    · exact Or.inr rfl
    · exact Or.inl (isDigit_of_mem_digits hc)
  rcases hcases with hdigit | rfl
  · refine ⟨?_, ?_, ?_⟩ <;> rintro rfl <;> exact absurd hdigit (by decide)
  · decide

/-- The time of a stamp in UTC is read as the time. -/
theorem parseTime_utc (ha : a.Valid) :
    parseTime ((a.minuteText ++ ':' :: digits 2 a.second) ++ "+00:00".toList) =
      some ((3600 * a.hour + 60 * a.minute + a.second) * 1000000, some 0) := by
  have hzone : (((a.minuteText ++ ':' :: digits 2 a.second) ++ "+00:00".toList).dropWhile
      fun c => c ≠ '+' ∧ c ≠ '-' ∧ c ≠ 'Z') = "+00:00".toList := by
    rw [List.dropWhile_append_of_pos fun c hc => decide_eq_true (clock_no_zone a c hc)]
    decide
  have hclock : ((a.minuteText ++ ':' :: digits 2 a.second) ++ "+00:00".toList).take
      (((a.minuteText ++ ':' :: digits 2 a.second) ++ "+00:00".toList).length -
        "+00:00".toList.length) = a.minuteText ++ ':' :: digits 2 a.second := by
    rw [List.length_append, Nat.add_sub_cancel, List.take_left]
  have hoffset : parseOffset '+' "00:00".toList = some 0 := by decide
  rw [parseTime]
  simp only [hzone, hclock, parseClock_clockText ha, Option.bind_eq_bind, Option.bind_some,
    if_pos (And.intro ha.hour_lt (And.intro ha.minute_lt ha.second_lt))]
  change (if '+' = 'Z' then none else (parseOffset '+' "00:00".toList).bind fun offset =>
    some (_, some offset)) = _
  rw [if_neg (by decide), hoffset, Option.bind_some, ClockTime.micros, Nat.add_zero]

/-- **A stamp is read back**: its date and its time, in UTC. -/
theorem fromIsoformat_body (ha : a.Valid) : fromIsoformat (a.body ++ "+00:00".toList) =
    some ⟨a.date.ordinal, (3600 * a.hour + 60 * a.minute + a.second) * 1000000, some 0⟩ := by
  have hlength : (a.body ++ "+00:00".toList).length = 25 := by
    rw [List.length_append, length_body]
    decide
  have hat4 : (a.body ++ "+00:00".toList)[4]? = some '-' := by
    simp [body, dateText]
  have hat5 : (a.body ++ "+00:00".toList)[5]? ≠ some 'W' := by
    have hhead : (digits 2 a.date.month ++ '-' :: (digits 2 a.date.day ++ 'T' ::
        (a.minuteText ++ ':' :: digits 2 a.second ++ "+00:00".toList))).head? ≠ some 'W' :=
      head?_digits_ne (by omega) (by decide) _
    rw [body, dateText, List.append_assoc, List.append_assoc,
      List.getElem?_append_right (by rw [length_digits]; omega), length_digits,
      List.cons_append, List.getElem?_cons_succ]
    simpa only [List.cons_append, List.append_assoc, List.head?_eq_getElem?] using hhead
  have hlocation : separatorLocation (a.body ++ "+00:00".toList) = 10 := by
    rw [separatorLocation, hlength, if_neg (by omega), if_pos hat4, if_neg hat5]
  have hsplit : a.body ++ "+00:00".toList = a.dateText ++ 'T' ::
      ((a.minuteText ++ ':' :: digits 2 a.second) ++ "+00:00".toList) := by
    rw [body, List.append_assoc, List.cons_append]
  have hdate : (a.body ++ "+00:00".toList).take 10 = a.dateText := by
    rw [hsplit, ← length_dateText a, List.take_left]
  have htime : (a.body ++ "+00:00".toList).drop 11 =
      (a.minuteText ++ ':' :: digits 2 a.second) ++ "+00:00".toList := by
    rw [hsplit, List.append_cons]
    exact List.drop_left' (by simp)
  have hne : (a.minuteText ++ ':' :: digits 2 a.second) ++ "+00:00".toList ≠ [] := by simp
  rw [fromIsoformat, hlength, if_neg (by omega), hlocation, hdate, htime, parseDate_dateText ha]
  simp only [Option.bind_eq_bind, Option.bind_some, if_neg hne, parseTime_utc ha, Option.pure_def]

/-- The characters of a stamp. -/
theorem mem_text {ch : Char} (h : ch ∈ a.text) : ch.isDigit = true ∨ ch ∈ ['-', 'T', ':', 'Z'] := by
  simp only [text, body, dateText, minuteText, List.mem_append, List.mem_cons, List.not_mem_nil,
    or_false] at h
  have hdigits : ∀ width n, ch ∈ digits width n → ch.isDigit = true ∨ ch ∈ ['-', 'T', ':', 'Z'] :=
    fun width n hch => Or.inl (isDigit_of_mem_digits hch)
  have hmark : ∀ d ∈ ['-', 'T', ':', 'Z'], ch = d → ch.isDigit = true ∨ ch ∈ ['-', 'T', ':', 'Z'] :=
    fun d hd hch => Or.inr (hch ▸ hd)
  rcases h with ((h | h | h | h | h) | h | (h | h | h) | h | h) | h
  all_goals first | exact hdigits _ _ h | exact hmark _ (by decide) h

/-- **The second of a stamp that is read back** is the one of the stamp. -/
theorem timestamp_eq (a : Stamp) : IsoDateTime.timestamp
    ⟨a.date.ordinal, (3600 * a.hour + 60 * a.minute + a.second) * 1000000, some 0⟩ =
      a.seconds := by
  rw [IsoDateTime.timestamp, Option.getD_some, Int.sub_zero, seconds]
  have hmul : (86400 * 1000000 * ((a.date.ordinal : ℤ) - epochDay) +
      ((3600 * a.hour + 60 * a.minute + a.second) * 1000000 : ℕ) : ℤ) =
      (86400 * (a.date.ordinal - epochDay) + 3600 * a.hour + 60 * a.minute + a.second) * 1000000 := by
    push_cast
    omega
  rw [hmul, Int.mul_tdiv_cancel _ (by decide)]

end Stamp

end RestoreEngine.Time
