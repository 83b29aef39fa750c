import RestoreEngine.Model.ProgressLines
import RestoreEngine.Texts.Ascii

/-!
# Progress lines

Progress lines consist of literal parts and of numbers between them. What the expressions of
`parse_restore_progress` find in such a line is settled part by part: numbers are read as a whole
(`reads_decimal`), and an expression finds nothing where none of its words lies in a literal part,
since no word lies across a number (`Free.number`). A line says how far the restore is (`Reading`),
and the record after the line is made of that and of the record before (`Reading.record`).
-/

namespace RestoreEngine

namespace Progress

open Regex

variable {F : Type} {fl : Floats F}

/-! ### Numbers -/

/-- One or more decimal digits. -/
structure Digits where
  chars : List Char
  ne : chars ≠ []
  digits : ∀ c ∈ chars, c.isDigit = true

/-- A decimal, as `\d+(?:\.\d+)?` matches it. -/
structure Decimal where
  whole : Digits
  fraction : Option Digits

/-- The text of a decimal. -/
def Decimal.chars (d : Decimal) : List Char :=
  d.whole.chars ++ d.fraction.elim [] fun digits => '.' :: digits.chars

/-- The characters of numbers. -/
def numeric (c : Char) : Prop := c.isDigit = true ∨ c = '.'

instance : DecidablePred numeric := fun _ => inferInstanceAs (Decidable (_ ∨ _))

/-- A text that is not empty, of the characters of numbers. -/
structure Numeral (n : List Char) : Prop where
  ne : n ≠ []
  all : ∀ c ∈ n, numeric c

theorem Digits.numeral (d : Digits) : Numeral d.chars := ⟨d.ne, fun c hc => .inl (d.digits c hc)⟩

theorem Decimal.numeral (d : Decimal) : Numeral d.chars := by
  refine ⟨List.append_ne_nil_of_left_ne_nil d.whole.ne _, ?_⟩
  refine List.forall_mem_append.mpr ⟨d.whole.numeral.all, ?_⟩
  cases d.fraction with
  | none => exact nofun
  | some digits => exact List.forall_mem_cons.mpr ⟨.inr rfl, digits.numeral.all⟩

theorem isSpace_of_numeric {c : Char} (h : numeric c) : Text.isSpace c = false := by
  rcases h with hdigit | rfl
  · exact Text.isSpace_of_isDigit hdigit
  · rfl

/-- What ends a number: the next character, if there is one, belongs to none. -/
def EndsNumber (v : List Char) : Prop := ∀ c ∈ v.head?, ¬ numeric c

section next

variable {P : Char → Prop} {c : Char} {n v : List Char}

/-- The next character is a given one. -/
theorem next_cons (h : P c) : ∀ x ∈ (c :: v).head?, P x := by
  rintro x hx
  obtain rfl := Option.some.inj hx
  exact h

/-- The next character is one of a number. -/
theorem Numeral.next (hn : Numeral n) (h : ∀ c, numeric c → P c) :
    ∀ x ∈ (n ++ v).head?, P x := by
  obtain ⟨hne, hall⟩ := hn
  cases n with
  | nil => exact absurd rfl hne
  | cons c n => exact next_cons (h c (hall c List.mem_cons_self))

theorem Numeral.next_space (hn : Numeral n) : ∀ x ∈ (n ++ v).head?, Text.isSpace x = false :=
  hn.next fun _ => isSpace_of_numeric

end next

section reads

variable {past v : List Char} {g : List (ℕ × List Char)}

theorem EndsNumber.digit (h : EndsNumber v) : ∀ c ∈ v.head?, c.isDigit = false :=
  fun c hc => Bool.eq_false_iff.mpr fun hdigit => h c hc (.inl hdigit)

theorem reads_digits (d : Digits) (hv : ∀ c ∈ v.head?, c.isDigit = false) :
    digitsRe.Reads past (d.chars ++ v) g v g := reads_plus d.ne d.digits hv

/-- Only a point is read as one. -/
theorem eq_of_toLower_eq_point {c : Char} (h : c.toLower = '.'.toLower) : c = '.' := by
  have hnat := congrArg Char.toNat h
  rw [Text.toNat_toLower, show '.'.toLower.toNat = 46 from rfl] at hnat
  refine Char.toNat_inj.mp ?_
  rw [show '.'.toNat = 46 from rfl]
  split_ifs at hnat <;> omega

/-- No fraction follows. -/
private theorem run_fraction_nil (hv : EndsNumber v) :
    (all [word ".", digitsRe]).run ⟨past, v, g⟩ = [] :=
  run_seq_nil (run_letters_nil fun c hc hpoint => hv c hc (.inr (eq_of_toLower_eq_point hpoint)))

private theorem reads_fraction (d : Option Digits) (hv : EndsNumber v) :
    (opt (all [word ".", digitsRe])).Reads past
      ((d.elim [] fun digits => '.' :: digits.chars) ++ v) g v g := by
  cases d with
  | none => exact reads_opt_nil (run_fraction_nil hv)
  | some digits =>
    have hpoint : (word ".").Reads past ('.' :: digits.chars ++ v) g (digits.chars ++ v) g :=
      reads_word "."
    exact .opt (hpoint.seq fun _ => reads_digits digits hv.digit)

/-- A fraction or what follows does not go on with digits. -/
private theorem fraction_ends (d : Option Digits) (hv : EndsNumber v) :
    ∀ c ∈ ((d.elim [] fun digits => '.' :: digits.chars) ++ v).head?, c.isDigit = false := by
  cases d with
  | none => exact hv.digit
  | some digits =>
    rintro c hc
    obtain rfl := Option.some.inj hc
    rfl

/-- A decimal is read as a whole. -/
theorem reads_decimal (d : Decimal) (hv : EndsNumber v) :
    decimalRe.Reads past (d.chars ++ v) g v g := by
  rw [Decimal.chars, List.append_assoc]
  exact (reads_digits d.whole (fraction_ends _ hv)).seq fun _ => reads_fraction _ hv

/-- A decimal of at most three digits before the point is read as a whole. -/
theorem reads_shortDecimal (d : Decimal) (hshort : d.whole.chars.length ≤ 3) (hv : EndsNumber v) :
    shortDecimalRe.Reads past (d.chars ++ v) g v g := by
  obtain ⟨⟨whole, hne, hdigits⟩, fraction⟩ := d
  have hrest := fraction_ends fraction hv
  have hfraction (past : List Char) := @reads_fraction past v g fraction hv
  rw [Decimal.chars, List.append_assoc]
  generalize (fraction.elim [] fun digits => '.' :: digits.chars) ++ v = rest at hrest hfraction
  -- the digits are read one by one
  rcases whole with _ | ⟨a, _ | ⟨b, _ | ⟨c, _ | ⟨d, more⟩⟩⟩⟩
  · exact absurd rfl hne
  · refine (reads_char (hdigits a (by simp))).seq fun _ => .seq ?_ hfraction
    exact reads_opt_nil (run_seq_nil (run_char_nil hrest))
  · refine (reads_char (hdigits a (by simp))).seq fun _ => .seq (.opt ?_) hfraction
    exact (reads_char (hdigits b (by simp))).seq fun _ => reads_opt_nil (run_char_nil hrest)
  · refine (reads_char (hdigits a (by simp))).seq fun _ => .seq (.opt ?_) hfraction
    exact (reads_char (hdigits b (by simp))).seq fun _ => .opt (reads_char (hdigits c (by simp)))
  · exact absurd hshort (by simp)

end reads

/-! ### Words in a line -/

/-- A character as the expressions see it: letters in lower case, and one kind of space. -/
def shown (c : Char) : Char := if Text.isSpace c then ' ' else c.toLower

theorem shown_toLower (c : Char) : shown c.toLower = shown c := by
  have hspace : Text.isSpace c.toLower = Text.isSpace c := by
    rw [Bool.eq_iff_iff]
    simp only [Text.isSpace, Text.toNat_toLower, Bool.or_eq_true, Bool.and_eq_true, beq_iff_eq,
      decide_eq_true_eq]
    split_ifs <;> omega
  have hlower : c.toLower.toLower = c.toLower := by
    refine Char.toNat_inj.mp ?_
    rw [Text.toNat_toLower, Text.toNat_toLower]
    split_ifs <;> omega
  rw [shown, shown, hspace, hlower]

/-- A character of a number shows itself. -/
theorem shown_numeric {c : Char} (h : numeric c) : shown c = c := by
  have hrange : 46 ≤ c.toNat ∧ c.toNat ≤ 57 := by
    rcases h with hdigit | rfl
    · have hrange : 48 ≤ c.toNat ∧ c.toNat ≤ 57 := by
        simpa [Char.isDigit, UInt32.le_iff_toNat_le] using hdigit
      omega
    · decide
  have hspace : Text.isSpace c = false := by
    simp [Text.isSpace]
    omega
  have hlower : c.toLower = c := by
    refine Char.toNat_inj.mp ?_
    rw [Text.toNat_toLower, if_neg (by omega)]
  rw [shown, hspace, if_neg Bool.false_ne_true, hlower]

theorem shown_space {c : Char} (h : Text.isSpace c = true) : shown c = ' ' := if_pos h

/-- None of the words lies in the text. -/
def Free (ws : List (List Char)) (text : List Char) : Prop := ∀ w ∈ ws, ¬ w <:+: text.map shown

instance (ws : List (List Char)) (text : List Char) : Decidable (Free ws text) :=
  inferInstanceAs (Decidable (∀ w ∈ ws, ¬ w <:+: text.map shown))

/-- The words hold no characters of numbers. -/
def Wordy (ws : List (List Char)) : Prop := ∀ w ∈ ws, ∀ c ∈ w, ¬ numeric c

instance (ws : List (List Char)) : Decidable (Wordy ws) :=
  inferInstanceAs (Decidable (∀ w ∈ ws, ∀ c ∈ w, ¬ numeric c))

section free

variable {ws : List (List Char)} {n a b : List Char}

private theorem infix_of_append_numeral {w : List Char} (hw : ∀ c ∈ w, ¬ numeric c)
    (hn : ∀ c ∈ n, numeric c) (h : w <:+: n ++ b) : w <:+: b := by
  induction n with
  | nil => exact h
  | cons x n ih =>
    obtain ⟨hx, hn⟩ := List.forall_mem_cons.mp hn
    have hsep : w <:+: [] ++ x :: (n ++ b) := h
    rcases (Text.infix_separated fun hmem => hw x hmem hx).mp hsep with hnil | hrest
    · rw [List.infix_nil.mp hnil]
      exact List.nil_infix
    · exact ih hn hrest

/-- **No word lies across a number.** -/
theorem Free.number (ha : Free ws a) (hws : Wordy ws) (hn : Numeral n) (hb : Free ws b) :
    Free ws (a ++ (n ++ b)) := by
  intro w hw hin
  have hshown : n.map shown = n :=
    (List.map_congr_left fun c hc => shown_numeric (hn.all c hc)).trans (List.map_id n)
  rw [List.map_append, List.map_append, hshown] at hin
  obtain ⟨hne, hnumeric⟩ := hn
  cases n with
  | nil => exact absurd rfl hne
  | cons x n =>
    obtain ⟨hx, hn⟩ := List.forall_mem_cons.mp hnumeric
    rcases (Text.infix_separated fun hmem => hws w hw x hmem hx).mp hin with hleft | hright
    · exact ha w hw hleft
    · exact hb w hw (infix_of_append_numeral (hws w hw) hn hright)

theorem Free.mono (h : Free ws b) (hin : a <:+: b) : Free ws a :=
  fun w hw hin' => h w hw (hin'.trans (hin.map shown))

end free

/-! ### The words of the expressions -/

/-- The words that a rate of the network begins with. -/
def networkWords : List (List Char) :=
  ["download ", "downloaded ", "network ", "recv ", "recveived ", "fetched "].map String.toList

private theorem starts_wordsThen {words rest : Regex} {ws : List (List Char)}
    (h : words.Shows shown ws) : (wordsThen words rest).Starts shown (ws.map (· ++ [' '])) :=
  h.starts_plus fun _ => shown_space

theorem starts_network (rest : Regex) : (wordsThen networkRe rest).Starts shown networkWords := by
  have hdownload := (shows_word shown_toLower "download").seq (shows_word shown_toLower "ed").opt
  have hrecv := (shows_word shown_toLower "recv").seq (shows_word shown_toLower "eived").opt
  refine (starts_wordsThen (hdownload.alt ((shows_word shown_toLower "network").alt
    (hrecv.alt (shows_word shown_toLower "fetched"))))).mono ?_
  decide

theorem starts_liveXfer : liveXferRe.Starts shown ["transferred ".toList] :=
  starts_wordsThen (shows_word shown_toLower "transferred")

theorem starts_progress : progressPctRe.Starts shown ["progress".toList] :=
  ((shows_word shown_toLower "progress").starts.seq_left).boundary_seq

theorem starts_zeroes : zeroesRe.Starts shown ["zeroe".toList] :=
  (shows_word shown_toLower "zeroe").starts.seq_left

theorem needs_zeroes : zeroesRe.Needs shown ["=".toList] :=
  (shows_word shown_toLower "=").starts.needs.seq_left.seq_right.seq_right.seq_right

theorem starts_duration : durationRe.Starts shown ["duration ".toList] :=
  (starts_wordsThen (shows_word shown_toLower "duration")).boundary_seq

theorem starts_complete : completeRe.Starts shown ["restore ".toList] :=
  starts_wordsThen (shows_word shown_toLower "restore")

theorem starts_bytesPair : bytesPairRe.Starts shown
    (["read ", "transferred ", "written ", "restored ", "downloaded "].map String.toList) :=
  starts_wordsThen ((shows_word shown_toLower "read").alt ((shows_word shown_toLower
    "transferred").alt ((shows_word shown_toLower "written").alt ((shows_word shown_toLower
      "restored").alt (shows_word shown_toLower "downloaded")))))

theorem needs_mibPair : mibPairRe.Needs shown (["mib", "mb"].map String.toList) :=
  ((shows_word shown_toLower "MiB").alt (shows_word shown_toLower
    "MB")).starts.needs.seq_left.seq_right.seq_right

theorem needs_rate : rateRe.Needs shown ["/s".toList] :=
  (shows_word shown_toLower "/s").starts.needs.seq_right.seq_right.seq_right

/-! ### What a line says -/

/-- What a progress line says of a restore. -/
structure Reading (F : Type) where
  percent : F
  done : ℤ
  total : Option ℤ
  zeroes : Option (F × ℤ)
  duration : F

/-- The rate up to a line, by its duration. -/
def Reading.rate (fl : Floats F) (s : Reading F) : Option F :=
  if fl.lt (fl.ofInt 0) s.duration then some (fl.div (fl.ofInt s.done) s.duration) else none

/-- The bytes that were not zero. -/
def Reading.network (s : Reading F) : Option ℤ := s.zeroes.map fun z => max 0 (s.done - z.2)

/-- The speed that is kept: the old one, unless there is none that is positive. -/
def keepSpeed (fl : Floats F) (speed rate : Option F) : Option F :=
  if speed.all (fl.le · (fl.ofInt 0)) then rate <|> speed else speed

/-- **The record after a line.** The counters of the line replace the old ones, but a speed and a
network counter stay. -/
def Reading.record (fl : Floats F) (s : Reading F) (r : ParsedProgress F) (text : String) :
    ParsedProgress F where
  percent := some s.percent
  bytesDone := some s.done
  bytesTotal := s.total <|> r.bytesTotal
  speedBps := keepSpeed fl r.speedBps (s.rate fl)
  networkBytesDone := r.networkBytesDone <|> s.network
  zeroesBytes := s.zeroes.map (·.2) <|> r.zeroesBytes
  zeroesPercent := s.zeroes.map (·.1) <|> r.zeroesPercent
  durationSec := some s.duration
  statusText := String.ofList (text.toList.take 240)

/-- The speed that is filled in at the end of a line. -/
theorem fillSpeed_eq (r : ParsedProgress F) {duration : F} {done : ℤ}
    (hduration : r.durationSec = some duration) (hdone : r.bytesDone = some done) :
    r.fillSpeed fl = { r with
      speedBps := keepSpeed fl r.speedBps (if fl.lt (fl.ofInt 0) duration then
        some (fl.div (fl.ofInt done) duration) else none) } := by
  cases r
  obtain rfl := hduration
  obtain rfl := hdone
  rw [ParsedProgress.fillSpeed, keepSpeed]
  dsimp only
  by_cases hlt : fl.lt (fl.ofInt 0) duration = true
  · split_ifs with hboth hall hall
    · rfl
    · exact absurd hboth.2 hall
    · exact absurd ⟨hlt, hall⟩ hboth
    · rfl
  · rw [if_neg fun hboth => hlt hboth.1, if_neg hlt]
    exact congrArg (fun speedBps => ParsedProgress.mk _ _ _ speedBps _ _ _ _ _) (ite_self _).symm

end Progress

end RestoreEngine
