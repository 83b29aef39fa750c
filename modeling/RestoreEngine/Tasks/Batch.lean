import RestoreEngine.Tasks.LiveLines
import RestoreEngine.Tasks.PbsLines

/-!
# Batches of progress lines

A poll hands the lines that came since the last one to `parse_restore_progress`, which collects them
in one record. The counters of each line replace those of the lines before, but a network counter
stays from the first line on, and a speed from the first line on where it is positive. So a batch
says what its last line says exactly if these two do not change on the way
(`parseRestoreProgress_batch_iff`).
-/

namespace RestoreEngine

namespace Progress

variable {F : Type} {fl : Floats F}

/-! ### The two formats -/

/-- The formats of progress lines. -/
inductive Format where
  | pbs
  | live

namespace Format

/-- The progress lines of a format. -/
def Line (fl : Floats F) : Format → Type
  | pbs => PbsLine fl
  | live => LiveLine fl

/-- The line as it stands in the log. -/
def text : (f : Format) → f.Line fl → String
  | pbs => PbsLine.text
  | live => LiveLine.text

/-- What the line says. -/
def reading : (f : Format) → f.Line fl → Reading F
  | pbs => PbsLine.reading
  | live => LiveLine.reading

/-- The counter that the lines of a format do not have is empty. -/
def Bare : Format → ParsedProgress F → Prop
  | pbs, r => r.bytesTotal = none
  | live, r => r.zeroesBytes = none

variable (f : Format) (line : f.Line fl) {r : ParsedProgress F}

theorem parseLine_text (h : f.Bare r) :
    parseLine fl r (f.text line) = (f.reading line).record fl r (f.text line) := by
  cases f with
  | pbs => exact PbsLine.parseLine_text line r
  | live => exact LiveLine.parseLine_text line r h

theorem bare_record (h : f.Bare r) (text : String) :
    f.Bare ((f.reading line).record fl r text) := by
  cases f <;> exact h

/-- The counters that a line leaves do not depend on the lines before. -/
theorem record_counters (h : f.Bare r) (text text' : String) :
    ((f.reading line).record fl r text).bytesTotal =
        ((f.reading line).record fl {} text').bytesTotal ∧
      ((f.reading line).record fl r text).zeroesBytes =
        ((f.reading line).record fl {} text').zeroesBytes := by
  cases f with
  | pbs => exact ⟨h, rfl⟩
  | live =>
    obtain ⟨total, htotal⟩ := Option.ne_none_iff_exists'.mp (LiveLine.total_ne_none line)
    refine ⟨?_, h⟩
    rw [reading, Reading.record, Reading.record, htotal]
    rfl

/-! ### The record after a batch -/

variable {f} (lines : List (f.Line fl)) (last : f.Line fl)

/-- A batch from a record on. -/
private theorem foldl_cons (h : f.Bare r) :
    ((line :: lines).map f.text).foldl (parseLine fl) r = (lines.map f.text).foldl (parseLine fl)
      ((f.reading line).record fl r (f.text line)) := by
  rw [List.map_cons, List.foldl_cons, f.parseLine_text line h]

private theorem bare_foldl (h : f.Bare r) : f.Bare ((lines.map f.text).foldl (parseLine fl) r) := by
  induction lines generalizing r with
  | nil => exact h
  | cons line lines ih =>
    rw [foldl_cons line lines h]
    exact ih (f.bare_record line h _)

private theorem bare_empty : f.Bare ({} : ParsedProgress F) := by
  cases f <;> rfl

/-- The record before the last line of a batch. -/
def before : ParsedProgress F := parseRestoreProgress fl (lines.map f.text)

theorem bare_before : f.Bare (before lines) := bare_foldl lines bare_empty

/-- A batch comes down to its last line and the record before. -/
theorem parse_batch : parseRestoreProgress fl ((lines ++ [last]).map f.text) =
    (f.reading last).record fl (before lines) (f.text last) := by
  rw [← f.parseLine_text last (bare_before lines), before, parseRestoreProgress,
    parseRestoreProgress, List.map_append, List.foldl_append, List.map_singleton, List.foldl_cons,
    List.foldl_nil]

theorem parse_last : parseRestoreProgress fl [f.text last] =
    (f.reading last).record fl {} (f.text last) := f.parseLine_text last bare_empty

/-! ### The network counter -/

/-- A counter stays. -/
private theorem network_stays (h : f.Bare r) {n : ℤ} (hn : r.networkBytesDone = some n) :
    ((lines.map f.text).foldl (parseLine fl) r).networkBytesDone = some n := by
  induction lines generalizing r with
  | nil => exact hn
  | cons line lines ih =>
    rw [foldl_cons line lines h]
    refine ih (f.bare_record line h _) ?_
    rw [Reading.record, hn]
    rfl

/-- Lines of a live restore have none. -/
private theorem network_none {lines : List (Format.live.Line fl)} {r : ParsedProgress F}
    (h : Format.live.Bare r) (hn : r.networkBytesDone = none) :
    ((lines.map Format.live.text).foldl (parseLine fl) r).networkBytesDone = none := by
  induction lines generalizing r with
  | nil => exact hn
  | cons line lines ih =>
    rw [foldl_cons line lines h]
    refine ih (bare_record .live line h _) ?_
    rw [Reading.record, hn]
    rfl

/-- **The network counter of a batch is that of its first line.** -/
theorem network_batch (first : f.Line fl) :
    (parseRestoreProgress fl ((first :: lines).map f.text)).networkBytesDone =
      (f.reading first).network := by
  rw [parseRestoreProgress, foldl_cons first lines bare_empty]
  have hbare : f.Bare ((f.reading first).record fl {} (f.text first)) :=
    f.bare_record first bare_empty (f.text first)
  cases f with
  | pbs => exact network_stays lines hbare rfl
  | live => exact network_none hbare rfl

end Format

/-! ### The speed -/

/-- The speed is positive. -/
def isPositive (fl : Floats F) (speed : Option F) : Bool := speed.any fun v => !fl.le v (fl.ofInt 0)

section keepSpeed

variable {speed rate : Option F} {rates : List (Option F)}

theorem keepSpeed_of_positive (h : isPositive fl speed = true) : keepSpeed fl speed rate = speed := by
  cases speed with
  | none => cases h
  | some v =>
    refine if_neg fun hall => ?_
    have hle : fl.le v (fl.ofInt 0) = true := hall
    rw [isPositive, Option.any_some, hle] at h
    cases h

theorem keepSpeed_of_not_positive (h : isPositive fl speed = false) :
    keepSpeed fl speed rate = (rate <|> speed) := by
  cases speed with
  | none => exact if_pos rfl
  | some v =>
    refine if_pos ?_
    rw [isPositive, Option.any_some, Bool.not_eq_false'] at h
    exact h

/-- A positive speed stays. -/
private theorem foldl_keepSpeed_of_positive (h : isPositive fl speed = true) :
    rates.foldl (keepSpeed fl) speed = speed := by
  induction rates with
  | nil => rfl
  | cons rate rates ih => rwa [List.foldl_cons, keepSpeed_of_positive h]

/-- The first positive rate is kept. -/
private theorem foldl_keepSpeed_of_find (h : isPositive fl speed = false)
    (hfind : rates.find? (isPositive fl) = some rate) :
    rates.foldl (keepSpeed fl) speed = rate := by
  induction rates generalizing speed with
  | nil => cases hfind
  | cons next rates ih =>
    rw [List.foldl_cons, keepSpeed_of_not_positive h]
    cases hnext : isPositive fl next with
    | true =>
      rw [List.find?_cons_of_pos hnext] at hfind
      obtain rfl := Option.some.inj hfind
      cases next with
      | none => cases hnext
      | some v => exact foldl_keepSpeed_of_positive hnext
    | false =>
      rw [List.find?_cons_of_neg (by simp [hnext])] at hfind
      refine ih ?_ hfind
      cases next with
      | none => exact h
      | some v => exact hnext

/-- Where no rate is positive, the speed is not either, and there is one if there is a rate. -/
private theorem foldl_keepSpeed_of_none (h : isPositive fl speed = false)
    (hnone : ∀ rate ∈ rates, isPositive fl rate = false) :
    isPositive fl (rates.foldl (keepSpeed fl) speed) = false ∧
      (rates.foldl (keepSpeed fl) speed = none ↔ speed = none ∧ ∀ rate ∈ rates, rate = none) := by
  induction rates generalizing speed with
  | nil => exact ⟨h, fun hspeed => ⟨hspeed, nofun⟩, fun hboth => hboth.1⟩
  | cons next rates ih =>
    obtain ⟨hnext, hrates⟩ := List.forall_mem_cons.mp hnone
    rw [List.foldl_cons, keepSpeed_of_not_positive h]
    cases next with
    | none =>
      obtain ⟨hpos, hiff⟩ := ih h hrates
      refine ⟨hpos, hiff.trans (and_congr_right fun _ => ?_)⟩
      rw [List.forall_mem_cons, eq_self, true_and]
    | some v =>
      obtain ⟨hpos, hiff⟩ := ih hnext hrates
      refine ⟨hpos, fun heq => ?_, fun hboth => ?_⟩
      · cases (hiff.mp heq).1
      · cases (List.forall_mem_cons.mp hboth.2).1

/-- **The last rate is the speed** exactly if the first positive rate, if there is one, is the last
one, and no rate comes before a last line without one. -/
theorem keepSpeed_eq_iff :
    keepSpeed fl (rates.foldl (keepSpeed fl) none) rate = rate ↔
      (∀ first, (rates ++ [rate]).find? (isPositive fl) = some first → rate = first) ∧
        (rate = none → ∀ other ∈ rates, other = none) := by
  cases hfind : rates.find? (isPositive fl) with
  | some first =>
    have hpositive : isPositive fl first = true := List.find?_some hfind
    rw [foldl_keepSpeed_of_find rfl hfind, keepSpeed_of_positive hpositive, List.find?_append, hfind]
    refine ⟨fun heq => ⟨fun other hother => ?_, fun hrate => ?_⟩, fun hboth => ?_⟩
    · exact heq.symm.trans (Option.some.inj hother)
    · rw [heq, hrate] at hpositive
      cases hpositive
    · exact (hboth.1 first rfl).symm
  | none =>
    have hnone : ∀ other ∈ rates, isPositive fl other = false := fun other hother =>
      Bool.not_eq_true _ ▸ List.find?_eq_none.mp hfind other hother
    have hempty : isPositive fl none = false := rfl
    obtain ⟨hspeed, hiff⟩ := foldl_keepSpeed_of_none hempty hnone
    rw [keepSpeed_of_not_positive hspeed, List.find?_append, hfind]
    cases rate with
    | none =>
      refine ⟨fun heq => ⟨fun first hfirst => ?_, fun _ => (hiff.mp heq).2⟩, fun hboth => ?_⟩
      · cases hfirst
      · exact hiff.mpr ⟨rfl, hboth.2 rfl⟩
    | some v =>
      refine ⟨fun _ => ⟨fun first hfirst => ?_, nofun⟩, fun _ => rfl⟩
      exact (List.mem_singleton.mp (List.mem_of_find?_eq_some hfirst)).symm

end keepSpeed

/-! ### A batch and its last line -/

/-- The records have the same counters. -/
structure Agrees (a b : ParsedProgress F) : Prop where
  percent : a.percent = b.percent
  bytesDone : a.bytesDone = b.bytesDone
  bytesTotal : a.bytesTotal = b.bytesTotal
  zeroesBytes : a.zeroesBytes = b.zeroesBytes
  durationSec : a.durationSec = b.durationSec
  speedBps : a.speedBps = b.speedBps
  networkBytesDone : a.networkBytesDone = b.networkBytesDone

namespace Format

variable {f : Format} (lines : List (f.Line fl)) (last : f.Line fl)

/-- The rates up to the lines. -/
def rates : List (Option F) := lines.map fun line => (f.reading line).rate fl

/-- **The network counter and the rate do not change in the batch.** As many bytes are not zero
after its first line as after the last; the first positive rate, if there is one, is the last rate;
and no line has a rate if the last one has none. -/
structure Steady : Prop where
  network : ∀ first ∈ (lines ++ [last]).head?, (f.reading first).network = (f.reading last).network
  speed : ∀ first, (rates (lines ++ [last])).find? (isPositive fl) = some first →
    (f.reading last).rate fl = first
  rate : (f.reading last).rate fl = none → ∀ rate ∈ rates lines, rate = none

/-- The speed before the last line. -/
private theorem speed_before : (before lines).speedBps = (rates lines).foldl (keepSpeed fl) none := by
  suffices h : ∀ r : ParsedProgress F, f.Bare r →
      ((lines.map f.text).foldl (parseLine fl) r).speedBps =
        (rates lines).foldl (keepSpeed fl) r.speedBps from h {} bare_empty
  induction lines with
  | nil => exact fun _ _ => rfl
  | cons line lines ih =>
    intro r hr
    rw [foldl_cons line lines hr]
    exact ih _ (f.bare_record line hr _)

theorem speed_batch_iff :
    (parseRestoreProgress fl ((lines ++ [last]).map f.text)).speedBps =
        (parseRestoreProgress fl [f.text last]).speedBps ↔
      (∀ first, (rates (lines ++ [last])).find? (isPositive fl) = some first →
          (f.reading last).rate fl = first) ∧
        ((f.reading last).rate fl = none → ∀ rate ∈ rates lines, rate = none) := by
  have hlast : keepSpeed fl none ((f.reading last).rate fl) = (f.reading last).rate fl := by
    rw [keepSpeed_of_not_positive rfl]
    cases (f.reading last).rate fl <;> rfl
  have hrates : rates (lines ++ [last]) = rates lines ++ [(f.reading last).rate fl] := by
    rw [rates, List.map_append]
    rfl
  rw [parse_batch, parse_last, Reading.record, Reading.record, speed_before, hlast, hrates]
  exact keepSpeed_eq_iff

theorem network_batch_eq (first : f.Line fl) (h : first ∈ (lines ++ [last]).head?) :
    (parseRestoreProgress fl ((lines ++ [last]).map f.text)).networkBytesDone =
      (f.reading first).network := by
  cases hbatch : lines ++ [last] with
  | nil => exact absurd hbatch (List.append_ne_nil_of_right_ne_nil lines nofun)
  | cons line rest =>
    rw [hbatch] at h
    obtain rfl := Option.some.inj h
    exact network_batch rest line

end Format

/-- **When a batch says what its last line says.** -/
theorem parseRestoreProgress_batch_iff (fl : Floats F) (f : Format) (lines : List (f.Line fl))
    (last : f.Line fl) :
    (Agrees (parseRestoreProgress fl ((lines ++ [last]).map f.text))
        (parseRestoreProgress fl [f.text last]) ∧
      (parseRestoreProgress fl ((lines ++ [last]).map f.text)).networkBytesDone =
        (f.reading last).network) ↔
      Format.Steady lines last := by
  have hnetwork : (parseRestoreProgress fl [f.text last]).networkBytesDone =
      (f.reading last).network := Format.network_batch [] last
  obtain ⟨first, hfirst⟩ : ∃ first, (lines ++ [last]).head? = some first :=
    ⟨_, List.head?_eq_some_head (List.append_ne_nil_of_right_ne_nil lines (List.cons_ne_nil _ _))⟩
  have hbatch := Format.network_batch_eq lines last first hfirst
  constructor
  · rintro ⟨hagrees, hlast⟩
    obtain ⟨hspeed, hrate⟩ := (Format.speed_batch_iff lines last).mp hagrees.speedBps
    refine ⟨fun other hother => ?_, hspeed, hrate⟩
    exact (Format.network_batch_eq lines last other hother).symm.trans hlast
  · intro hsteady
    have hlast := hbatch.trans (hsteady.network first hfirst)
    have hspeed := (Format.speed_batch_iff lines last).mpr ⟨hsteady.speed, hsteady.rate⟩
    obtain ⟨htotal, hzeroes⟩ := f.record_counters last (Format.bare_before lines) (f.text last)
      (f.text last)
    refine ⟨⟨?_, ?_, ?_, ?_, ?_, hspeed, hlast.trans hnetwork.symm⟩, hlast⟩
    -- the other counters are those of the last line
    all_goals rw [Format.parse_batch, Format.parse_last]
    · rfl
    · rfl
    · exact htotal
    · exact hzeroes
    · rfl

/-- Decimal digits that are given. -/
private def given (chars : List Char) (h : chars ≠ [] ∧ ∀ c ∈ chars, c.isDigit = true) : Digits :=
  ⟨chars, h.1, h.2⟩

/-- A line after one second. -/
private def firstLine : PbsLine rationals :=
  ⟨⟨given ['1'] (by decide), none⟩, by decide, by decide +kernel,
    given ['1', '0', '0'] (by decide), ⟨given ['0'] (by decide), none⟩, by decide,
    given ['0'] (by decide), ⟨given ['1'] (by decide), none⟩⟩

/-- A line one second later. -/
private def lastLine : PbsLine rationals :=
  ⟨⟨given ['2'] (by decide), none⟩, by decide, by decide +kernel,
    given ['3', '0', '0'] (by decide), ⟨given ['0'] (by decide), none⟩, by decide,
    given ['0'] (by decide), ⟨given ['2'] (by decide), none⟩⟩

/-- **The first line of a batch counts**: after two lines whose bytes are all wire payload, the
network counter and the speed are those of the first line. -/
theorem parseRestoreProgress_keeps_first : ∃ first last : PbsLine rationals,
    first.text = "progress 1% (read 100 bytes, zeroes = 0% (0 bytes), duration 1 sec)" ∧
    last.text = "progress 2% (read 300 bytes, zeroes = 0% (0 bytes), duration 2 sec)" ∧
    (parseRestoreProgress rationals [first.text, last.text]).networkBytesDone = some 100 ∧
    (parseRestoreProgress rationals [last.text]).networkBytesDone = some 300 ∧
    last.reading.network = some 300 ∧
    (parseRestoreProgress rationals [first.text, last.text]).speedBps = some 100 ∧
    (parseRestoreProgress rationals [last.text]).speedBps = some 150 ∧
    ¬ Agrees (parseRestoreProgress rationals [first.text, last.text])
      (parseRestoreProgress rationals [last.text]) := by
  have hfirst : firstLine.text =
      "progress 1% (read 100 bytes, zeroes = 0% (0 bytes), duration 1 sec)" := by decide +kernel
  have hlast : lastLine.text =
      "progress 2% (read 300 bytes, zeroes = 0% (0 bytes), duration 2 sec)" := by decide +kernel
  have hbatch : parseRestoreProgress rationals [firstLine.text, lastLine.text] =
      ⟨some 2, some 300, none, some 100, some 100, some 0, some 0, some 2, lastLine.text⟩ := by
    rw [hfirst, hlast]
    decide +kernel
  have hsingle : parseRestoreProgress rationals [lastLine.text] =
      ⟨some 2, some 300, none, some 150, some 300, some 0, some 0, some 2, lastLine.text⟩ := by
    rw [hlast]
    decide +kernel
  refine ⟨firstLine, lastLine, hfirst, hlast, ?_⟩
  rw [hbatch, hsingle]
  refine ⟨rfl, rfl, by decide, rfl, rfl, fun hagrees => ?_⟩
  have hequal : (some 100 : Option ℤ) = some 300 := hagrees.networkBytesDone
  exact absurd (Option.some.inj hequal) (by decide)

end Progress

end RestoreEngine
