import RestoreEngine.Tasks.Lines

/-!
# Lines of the PBS client

In a line of the PBS client the percentages, the counters and the duration are found once each, and
nothing else is. So the record after such a line is the one that the line says, whatever the record
was before (`PbsLine.parseLine_text`).
-/

namespace RestoreEngine

namespace Progress

open Regex

variable {F : Type} {fl : Floats F}

private theorem regroup (a b c rest : List Char) :
    a ++ (b ++ (c ++ rest)) = (a ++ (b ++ c)) ++ rest := by
  rw [List.append_assoc, List.append_assoc]

private theorem regroup₂ (a b c d e rest : List Char) :
    a ++ (b ++ (c ++ (d ++ (e ++ rest)))) = (a ++ (b ++ (c ++ (d ++ e)))) ++ rest := by
  rw [regroup c d e rest, regroup a b _ rest]

/-- A line `progress P% (read R bytes, zeroes = Z% (B bytes), duration D sec)`. -/
structure PbsLine (fl : Floats F) where
  percent : Decimal
  percent_short : percent.whole.chars.length ≤ 3
  percent_ok : isPercent fl (fl.ofText percent.chars) = true
  read : Digits
  zeroesPercent : Decimal
  zeroesPercent_short : zeroesPercent.whole.chars.length ≤ 3
  zeroes : Digits
  duration : Decimal

namespace PbsLine

variable (line : PbsLine fl)

/-- The line from the duration on. -/
def fromDuration : List Char := "duration ".toList ++ (line.duration.chars ++ " sec)".toList)

/-- The line from the zeroes on. -/
def fromZeroes : List Char :=
  "zeroes = ".toList ++ (line.zeroesPercent.chars ++ ("% (".toList ++
    (line.zeroes.chars ++ (" bytes), ".toList ++ line.fromDuration))))

/-- The line from the bytes on. -/
def fromRead : List Char :=
  "read ".toList ++ (line.read.chars ++ (" bytes, ".toList ++ line.fromZeroes))

/-- The characters of the line. -/
def chars : List Char :=
  "progress ".toList ++ (line.percent.chars ++ ("% (".toList ++ line.fromRead))

/-- The line. -/
def text : String := String.ofList line.chars

/-! What is read -/

section reads

variable {past v : List Char}

theorem reads_progress : progressPctRe.Reads []
    ("progress ".toList ++ (line.percent.chars ++ '%' :: v)) [] v [(1, line.percent.chars)] := by
  have hnumeral := line.percent.numeral
  have hnone (c : Char) (hc : numeric c) : decide (c ∈ [':', '=']) = false := by
    refine decide_eq_false fun hmem => ?_
    rcases List.mem_pair.mp hmem with rfl | rfl
    · exact absurd hc (by decide)
    · exact absurd hc (by decide)
  refine (reads_boundary (by simp [isWord])).seq fun _ => ?_
  refine (reads_word "progress" (v := ' ' :: (line.percent.chars ++ '%' :: v))).seq fun _ => ?_
  refine (reads_many (u := [' ']) (by decide) hnumeral.next_space).seq fun _ => ?_
  refine (reads_opt_nil (run_char_nil (hnumeral.next hnone))).seq fun _ => ?_
  refine (reads_many_nil hnumeral.next_space).seq fun _ => ?_
  refine ((reads_shortDecimal _ line.percent_short (next_cons (by decide))).group 1).seq fun _ => ?_
  exact (reads_many_nil (next_cons (by decide))).seq fun _ => reads_word "%"

theorem reads_zeroes : zeroesRe.Reads past ("zeroes = ".toList ++ (line.zeroesPercent.chars ++
      ("% (".toList ++ (line.zeroes.chars ++ (" bytes)".toList ++ v))))) [] v
    [(2, line.zeroes.chars), (1, line.zeroesPercent.chars)] := by
  have hpercent := line.zeroesPercent.numeral
  have hzeroes := line.zeroes.numeral
  refine (reads_word "zeroe" (v := "s = ".toList ++ _)).seq fun _ => ?_
  refine (Reads.opt (reads_word "s" (v := " = ".toList ++ _))).seq fun _ => ?_
  refine (reads_many (u := [' ']) (by decide) (next_cons (by decide))).seq fun _ => ?_
  refine (reads_word "=" (v := ' ' :: _)).seq fun _ => ?_
  refine (reads_many (u := [' ']) (by decide) hpercent.next_space).seq fun _ => ?_
  refine ((reads_shortDecimal _ line.zeroesPercent_short (next_cons (by decide))).group 1).seq
    fun _ => ?_
  refine (reads_many_nil (next_cons (by decide))).seq fun _ => ?_
  refine (reads_word "%" (v := " (".toList ++ _)).seq fun _ => ?_
  refine (reads_many (u := [' ']) (by decide) (next_cons (by decide))).seq fun _ => ?_
  refine (reads_word "(").seq fun _ => ?_
  refine ((reads_digits line.zeroes (next_cons (by decide))).group 2).seq fun _ => ?_
  refine (reads_many (u := [' ']) (by decide) (next_cons (by decide))).seq fun _ => ?_
  exact reads_word "bytes)"

theorem reads_duration (hpast : past.head?.any isWord = false) : durationRe.Reads past
    ("duration ".toList ++ (line.duration.chars ++ (" sec".toList ++ v))) [] v
    [(1, line.duration.chars)] := by
  have hnumeral := line.duration.numeral
  refine (reads_boundary (by simp [hpast, isWord])).seq fun _ => ?_
  refine (reads_word "duration" (v := ' ' :: _)).seq fun _ => ?_
  refine (reads_plus (u := [' ']) (by decide) (by decide) hnumeral.next_space).seq fun _ => ?_
  refine ((reads_decimal _ (next_cons (by decide))).group 1).seq fun _ => ?_
  refine (reads_many (u := [' ']) (by decide) (next_cons (by decide))).seq fun _ => ?_
  exact reads_word "sec"

theorem reads_bytes : bytesPairRe.Reads past
    ("read ".toList ++ (line.read.chars ++ (" bytes".toList ++ v))) [] v
    [(1, line.read.chars)] := by
  have hnumeral := line.read.numeral
  refine (Reads.alt_left (reads_word "read" (v := ' ' :: _))).seq fun _ => ?_
  refine (reads_plus (u := [' ']) (by decide) (by decide) hnumeral.next_space).seq fun _ => ?_
  refine ((reads_digits line.read (next_cons (by decide))).group 1).seq fun _ => ?_
  refine (reads_many (u := [' ']) (by decide) (next_cons (by decide))).seq fun _ => ?_
  refine (reads_opt_nil (run_seq_nil (run_letters_nil (next_cons (by decide))))).seq fun _ => ?_
  refine (reads_many_nil (next_cons (by decide))).seq fun _ => ?_
  exact reads_word "bytes"

end reads

/-! What is found -/

section free

variable {ws : List (List Char)} {a : List Char}

theorem free_fromDuration (hws : Wordy ws) (h : Free ws (a ++ "duration ".toList))
    (hrest : ∀ part ∈ [" sec)"], Free ws part.toList) : Free ws (a ++ line.fromDuration) := by
  have hfree := h.number hws line.duration.numeral (hrest " sec)" (List.mem_singleton_self _))
  rw [List.append_assoc] at hfree
  exact hfree

theorem free_fromZeroes (hws : Wordy ws) (h : Free ws (a ++ "zeroes = ".toList))
    (hrest : ∀ part ∈ ["% (", " bytes), duration ", " sec)"], Free ws part.toList) :
    Free ws (a ++ line.fromZeroes) := by
  obtain ⟨h₁, hrest⟩ := List.forall_mem_cons.mp hrest
  obtain ⟨h₂, h₃⟩ := List.forall_mem_cons.mp hrest
  have hduration := line.free_fromDuration (a := " bytes), ".toList) hws h₂ h₃
  have hfree := h.number hws line.zeroesPercent.numeral
    (h₁.number hws line.zeroes.numeral hduration)
  rw [List.append_assoc] at hfree
  exact hfree

theorem free_fromRead (hws : Wordy ws) (h : Free ws (a ++ "read ".toList))
    (hrest : ∀ part ∈ [" bytes, zeroes = ", "% (", " bytes), duration ", " sec)"],
      Free ws part.toList) : Free ws (a ++ line.fromRead) := by
  obtain ⟨h₁, hrest⟩ := List.forall_mem_cons.mp hrest
  have hzeroes := line.free_fromZeroes (a := " bytes, ".toList) hws h₁ hrest
  have hfree := h.number hws line.read.numeral hzeroes
  rw [List.append_assoc] at hfree
  exact hfree

/-- Words that do not lie in the literal parts of a line do not lie in the line. -/
theorem free_chars (hws : Wordy ws)
    (h : ∀ part ∈ ["progress ", "% (read ", " bytes, zeroes = ", "% (", " bytes), duration ",
      " sec)"], Free ws part.toList) : Free ws line.chars := by
  obtain ⟨h₁, h⟩ := List.forall_mem_cons.mp h
  obtain ⟨h₂, hrest⟩ := List.forall_mem_cons.mp h
  exact h₁.number hws line.percent.numeral (line.free_fromRead (a := "% (".toList) hws h₂ hrest)

end free

/-- Nothing is found by an expression whose words do not lie in the parts of a line. -/
theorem finditer_nil {r : Regex} {ws : List (List Char)} (hneeds : r.Needs shown ws)
    (hws : Wordy ws) (h : ∀ part ∈ ["progress ", "% (read ", " bytes, zeroes = ", "% (",
      " bytes), duration ", " sec)"], Free ws part.toList) : r.finditer line.chars = [] :=
  finditer_eq_nil (hneeds.not_infix (line.free_chars hws h))

theorem finditer_liveXfer : liveXferRe.finditer line.chars = [] :=
  line.finditer_nil starts_liveXfer.needs (by decide) (by decide)

theorem finditer_mibPair : mibPairRe.finditer line.chars = [] :=
  line.finditer_nil needs_mibPair (by decide) (by decide)

theorem finditer_complete : completeRe.finditer line.chars = [] :=
  line.finditer_nil starts_complete.needs (by decide) (by decide)

theorem finditer_rate : rateRe.finditer line.chars = [] :=
  line.finditer_nil needs_rate (by decide) (by decide)

theorem finditer_network (rest : Regex) : (wordsThen networkRe rest).finditer line.chars = [] :=
  line.finditer_nil (starts_network rest).needs (by decide) (by decide)

theorem finditer_progress :
    progressPctRe.finditer line.chars = [[(1, line.percent.chars)]] := by
  have htext : line.chars = [] ++ (("progress ".toList ++ (line.percent.chars ++ ['%'])) ++
      (" (".toList ++ line.fromRead)) := by
    rw [List.nil_append, List.append_assoc, List.append_assoc]
    rfl
  rw [htext]
  refine finditer_once starts_progress nofun ?_ ?_ ?_
  · intro w hw
    obtain rfl := List.mem_singleton.mp hw
    exact of_decide_eq_true rfl
  · rw [List.append_assoc, List.append_assoc]
    exact line.reads_progress
  · exact line.free_fromRead (by decide) (by decide) (by decide)

/-- The line up to the bytes. -/
def toRead : List Char := "progress ".toList ++ (line.percent.chars ++ "% (".toList)

/-- The line up to the zeroes. -/
def toZeroes : List Char := line.toRead ++ ("read ".toList ++ (line.read.chars ++ " bytes, ".toList))

/-- The line up to the duration. -/
def toDuration : List Char :=
  line.toZeroes ++ ("zeroes = ".toList ++ (line.zeroesPercent.chars ++ ("% (".toList ++
    (line.zeroes.chars ++ " bytes), ".toList))))

theorem chars_eq_read : line.chars = line.toRead ++ line.fromRead := regroup _ _ _ _

theorem chars_eq_zeroes : line.chars = line.toZeroes ++ line.fromZeroes := by
  have hread : line.fromRead = ("read ".toList ++ (line.read.chars ++ " bytes, ".toList)) ++
      line.fromZeroes := regroup _ _ _ _
  rw [line.chars_eq_read, hread]
  exact (List.append_assoc _ _ _).symm

theorem chars_eq_duration : line.chars = line.toDuration ++ line.fromDuration := by
  have hzeroes : line.fromZeroes = ("zeroes = ".toList ++ (line.zeroesPercent.chars ++
      ("% (".toList ++ (line.zeroes.chars ++ " bytes), ".toList)))) ++ line.fromDuration :=
    regroup₂ _ _ _ _ _ _
  rw [line.chars_eq_zeroes, hzeroes]
  exact (List.append_assoc _ _ _).symm

section free

variable {ws : List (List Char)} {b : List Char}

theorem free_toRead (hws : Wordy ws) (h : Free ws ("% (".toList ++ b))
    (hrest : Free ws "progress ".toList) : Free ws (line.toRead ++ b) := by
  have hfree := hrest.number hws line.percent.numeral h
  have hgroup := regroup "progress ".toList line.percent.chars "% (".toList b
  exact hgroup ▸ hfree

theorem free_toZeroes (hws : Wordy ws) (h : Free ws (" bytes, ".toList ++ b))
    (hrest : ∀ part ∈ ["% (read ", "progress "], Free ws part.toList) :
    Free ws (line.toZeroes ++ b) := by
  obtain ⟨h₁, h₂⟩ := List.forall_mem_cons.mp hrest
  have hread : Free ws ("% (".toList ++ ("read ".toList ++ (line.read.chars ++
      (" bytes, ".toList ++ b)))) := Free.number (a := "% (read ".toList) h₁ hws line.read.numeral h
  have hfree := line.free_toRead hws hread (h₂ "progress " (List.mem_singleton_self _))
  have hgroup := regroup "read ".toList line.read.chars " bytes, ".toList b
  rw [hgroup] at hfree
  rw [toZeroes, List.append_assoc line.toRead]
  exact hfree

theorem free_toDuration (hws : Wordy ws) (h : Free ws (" bytes), ".toList ++ b))
    (hrest : ∀ part ∈ ["% (", " bytes, zeroes = ", "% (read ", "progress "],
      Free ws part.toList) : Free ws (line.toDuration ++ b) := by
  obtain ⟨h₁, hrest⟩ := List.forall_mem_cons.mp hrest
  obtain ⟨h₂, hrest⟩ := List.forall_mem_cons.mp hrest
  have hzeroes : Free ws (" bytes, ".toList ++ ("zeroes = ".toList ++ (line.zeroesPercent.chars ++
      ("% (".toList ++ (line.zeroes.chars ++ (" bytes), ".toList ++ b)))))) :=
    Free.number (a := " bytes, zeroes = ".toList) h₂ hws line.zeroesPercent.numeral
      (h₁.number hws line.zeroes.numeral h)
  have hfree := line.free_toZeroes hws hzeroes hrest
  rw [regroup₂ "zeroes = ".toList] at hfree
  rw [toDuration, List.append_assoc line.toZeroes]
  exact hfree

end free

/-- A space is before the duration. -/
theorem getLast?_toDuration : line.toDuration.getLast? = some ' ' := by
  have hlast (a b c d e : List Char) :
      (a ++ (b ++ (c ++ (d ++ (e ++ " bytes), ".toList))))).getLast? = some ' ' := by
    simp [List.getLast?_append]
  exact hlast _ _ _ _ _

theorem finditer_zeroes : zeroesRe.finditer line.chars =
    [[(2, line.zeroes.chars), (1, line.zeroesPercent.chars)]] := by
  have hcut : line.fromZeroes = ("zeroes = ".toList ++ (line.zeroesPercent.chars ++
      ("% (".toList ++ (line.zeroes.chars ++ " bytes)".toList)))) ++
        (", ".toList ++ line.fromDuration) :=
    regroup₂ _ _ _ _ " bytes)".toList (", ".toList ++ line.fromDuration)
  rw [line.chars_eq_zeroes, hcut]
  refine finditer_once starts_zeroes nofun ?_ ?_ ?_
  · intro w hw
    obtain rfl := List.mem_singleton.mp hw
    have hfree : Free ["zeroe".toList] (line.toZeroes ++ "zero".toList) :=
      line.free_toZeroes (by decide) (by decide) (by decide)
    exact hfree _ hw
  · rw [← hcut]
    exact line.reads_zeroes
  · exact line.free_fromDuration (by decide) (by decide) (by decide)

theorem finditer_duration : durationRe.finditer line.chars = [[(1, line.duration.chars)]] := by
  have hcut : line.fromDuration = ("duration ".toList ++ (line.duration.chars ++ " sec".toList)) ++
      ")".toList := regroup _ _ " sec".toList ")".toList
  have hpast : line.toDuration.reverse.head?.any isWord = false := by
    rw [List.head?_reverse, line.getLast?_toDuration]
    rfl
  rw [line.chars_eq_duration, hcut]
  refine finditer_once starts_duration nofun ?_ ?_ (by decide)
  · intro w hw
    obtain rfl := List.mem_singleton.mp hw
    have hfree : Free ["duration ".toList] (line.toDuration ++ "duration".toList) :=
      line.free_toDuration (by decide) (by decide) (by decide)
    exact hfree _ hw
  · rw [← hcut]
    exact line.reads_duration hpast

theorem finditer_bytesPair : bytesPairRe.finditer line.chars = [[(1, line.read.chars)]] := by
  have hcut : line.fromRead = ("read ".toList ++ (line.read.chars ++ " bytes".toList)) ++
      (", ".toList ++ line.fromZeroes) :=
    regroup _ _ " bytes".toList (", ".toList ++ line.fromZeroes)
  have hothers : Free (["transferred ", "written ", "restored ", "downloaded "].map String.toList)
      line.chars := line.free_chars (by decide) (by decide)
  rw [line.chars_eq_read, hcut] at hothers ⊢
  refine finditer_once starts_bytesPair nofun ?_ ?_ ?_
  · intro w hw
    rcases List.mem_cons.mp hw with rfl | hw
    · have hfree : Free ["read ".toList] (line.toRead ++ "read".toList) :=
        line.free_toRead (by decide) (by decide) (by decide)
      exact hfree _ (List.mem_singleton_self _)
    · refine fun hin => hothers w hw (hin.trans (List.IsPrefix.map shown ?_).isInfix)
      exact (List.prefix_append_right_inj _).mpr (List.take_prefix _ _)
  · rw [← hcut]
    exact line.reads_bytes
  · exact line.free_fromZeroes (by decide) (by decide) (by decide)

/-! The record -/

/-- What the line says. -/
def reading : Reading F where
  percent := fl.ofText line.percent.chars
  done := intOfText line.read.chars
  total := none
  zeroes := some (fl.ofText line.zeroesPercent.chars, intOfText line.zeroes.chars)
  duration := fl.ofText line.duration.chars

theorem strip_text : Text.strip line.text = line.text := by
  refine Text.strip_eq_self (fun c hc => ?_) fun c hc => ?_
  · rw [text, String.toList_ofList] at hc
    obtain rfl : 'p' = c := Option.some.inj hc
    decide
  · have hlast (a b c : List Char) : (a ++ (b ++ (c ++ " sec)".toList))).getLast? = some ')' := by
      simp [List.getLast?_append]
    rw [text, String.toList_ofList, line.chars_eq_duration] at hc
    obtain rfl := Option.some.inj ((hlast _ _ _).symm.trans hc)
    decide

/-- **A line of the PBS client** makes the record what it says. -/
theorem parseLine_text (r : ParsedProgress F) :
    parseLine fl r line.text = line.reading.record fl r line.text := by
  have hne : line.text ≠ "" := by
    intro hempty
    have hchars := congrArg String.toList hempty
    rw [text, String.toList_ofList] at hchars
    cases hchars
  rw [parseLine, line.strip_text]
  dsimp only
  rw [if_neg hne]
  simp only [onMatches, unlessLive, text, String.toList_ofList,
    line.finditer_liveXfer, line.finditer_progress, line.finditer_zeroes, line.finditer_duration,
    line.finditer_bytesPair, line.finditer_mibPair, line.finditer_complete, line.finditer_rate,
    netBytesRe, netMibRe, line.finditer_network, List.foldl_nil, List.foldl_cons, if_true]
  have hpercent (r : ParsedProgress F) : r.progressPct fl [(1, line.percent.chars)] =
      { r with percent := some (fl.ofText line.percent.chars) } := if_pos line.percent_ok
  rw [hpercent, Reading.record, String.toList_ofList]
  cases hnetwork : r.networkBytesDone with
  | none =>
    rw [ParsedProgress.fillNetwork, fillSpeed_eq _ rfl rfl]
    rfl
  | some network =>
    rw [ParsedProgress.fillNetwork, fillSpeed_eq _ rfl rfl]
    rfl

end PbsLine

end Progress

end RestoreEngine
