import RestoreEngine.Tasks.Lines

/-!
# Lines of a live restore

In a line of a live restore the one match is the text from `transferred` on, up to the end of the
line. The other expressions need words that are not in the line, or, in the case of a percentage, a
sign behind a parenthesis that they do not go over. So the record after such a line is the one that
the line says, if no zeroes were counted before (`LiveLine.parseLine_text`).
-/

namespace RestoreEngine

namespace Progress

open Regex

variable {F : Type} {fl : Floats F}

/-! ### Durations -/

/-- A duration as `10s`, `4m 14s` or `1h 2m 3s`. -/
structure Elapsed where
  hours : Option Digits
  minutes : Option Digits
  seconds : Option Digits
  some_ne : hours ≠ none ∨ minutes ≠ none ∨ seconds ≠ none

/-- An amount in a unit of time, before the smaller ones. -/
def withUnit (n : Option Digits) (unit : Char) (rest : List Char) : List Char :=
  n.elim rest fun n => n.chars ++ unit :: (if rest = [] then [] else ' ' :: rest)

/-- The text of a duration. -/
def Elapsed.chars (e : Elapsed) : List Char :=
  withUnit e.hours 'h' (withUnit e.minutes 'm' (withUnit e.seconds 's' []))

/-- The text is empty, or begins with an amount in one of the units. -/
def Amounts (units : List Char) (v : List Char) : Prop :=
  v = [] ∨ ∃ (n : Digits) (unit : Char) (v' : List Char), unit ∈ units ∧ v = n.chars ++ unit :: v'

section amounts

variable {units : List Char} {unit : Char} {n : Option Digits} {past v rest : List Char}
  {g : List (ℕ × List Char)} {w : String}

theorem Amounts.withUnit (h : Amounts units rest) :
    Amounts (unit :: units) (withUnit n unit rest) := by
  cases n with
  | none =>
    rcases h with hnil | ⟨n, other, v', hother, heq⟩
    · exact .inl hnil
    · exact .inr ⟨n, other, v', List.mem_cons_of_mem _ hother, heq⟩
  | some n => exact .inr ⟨n, unit, _, List.mem_cons_self, rfl⟩

theorem isDigit_of_isSpace {c : Char} (h : Text.isSpace c = true) : c.isDigit = false := by
  by_contra hdigit
  rw [Text.isSpace_of_isDigit (Bool.not_eq_false _ ▸ hdigit)] at h
  cases h

/-- An amount in another unit is not read. -/
private theorem run_amount_nil (h : Amounts units v) (hw : w.toList = [unit])
    (hunits : ∀ other ∈ units, other.isDigit = false ∧ Text.isSpace other = false ∧
      other.toLower ≠ unit.toLower)
    (hunit : ∀ c : Char, c.toLower = unit.toLower → c.isDigit = false) :
    (amountRe w).run ⟨past, v, g⟩ = [] := by
  refine run_eq_nil ?_
  rintro _ ⟨digits, _, hdigits, ⟨spaces, letter, hspaces, hletter, rfl⟩, rfl⟩ ⟨rest, hrest⟩
  obtain ⟨hne, hdigits⟩ := lang_plus hdigits
  obtain ⟨x, rfl, hx⟩ : ∃ x, letter = [x] ∧ x.toLower = unit.toLower := by
    have hmap := lang_letters hletter
    rw [hw] at hmap
    obtain ⟨x, hx, hlower⟩ := List.map_eq_singleton_iff.mp hmap
    exact ⟨x, hx, hlower⟩
  rcases h with rfl | ⟨n, other, v', hother, rfl⟩
  · rw [List.append_assoc] at hrest
    exact hne (List.append_eq_nil_iff.mp hrest).1
  obtain ⟨hdigit, hspace, hdiffers⟩ := hunits other hother
  -- behind the digits there is the other unit
  have hdrop := congrArg (List.dropWhile Char.isDigit) hrest
  simp only at hdrop
  rw [List.append_assoc, List.dropWhile_append_of_pos hdigits,
    List.dropWhile_append_of_pos n.digits, List.dropWhile_cons_of_neg (by simp [hdigit])] at hdrop
  cases spaces with
  | nil =>
    rw [List.nil_append, List.singleton_append, List.dropWhile_cons_of_neg (by simp [hunit x hx])]
      at hdrop
    exact hdiffers ((List.cons.inj hdrop).1 ▸ hx)
  | cons c spaces =>
    have hc : Text.isSpace c = true := hspaces c List.mem_cons_self
    rw [List.cons_append, List.cons_append,
      List.dropWhile_cons_of_neg (by simp [isDigit_of_isSpace hc])] at hdrop
    rw [(List.cons.inj hdrop).1, hspace] at hc
    cases hc

theorem Amounts.next_space (h : Amounts units v) : ∀ c ∈ v.head?, Text.isSpace c = false := by
  rcases h with rfl | ⟨n, other, v', -, rfl⟩
  · exact nofun
  · exact n.numeral.next_space

/-- An amount and the spaces behind it are read. -/
private theorem reads_withUnit (h : Amounts units rest) (hw : w.toList = [unit])
    (hunits : ∀ other ∈ units, other.isDigit = false ∧ Text.isSpace other = false ∧
      other.toLower ≠ unit.toLower) (hunit : ∀ c : Char, c.toLower = unit.toLower → c.isDigit = false)
    (hspace : Text.isSpace unit = false) :
    (opt (seq (amountRe w) spacesRe)).Reads past (withUnit n unit rest) g rest g := by
  cases n with
  | none => exact reads_opt_nil (run_seq_nil (run_amount_nil h hw hunits hunit))
  | some n =>
    have hword {past v : List Char} : (word w).Reads past (unit :: v) g v g := by
      have hreads : (word w).Reads past (w.toList ++ v) g v g := reads_word w
      rw [hw] at hreads
      exact hreads
    refine .opt (Reads.seq ((reads_digits n (next_cons (hunit unit rfl))).seq fun _ =>
      (reads_many_nil (next_cons hspace)).seq fun _ => hword) fun _ => ?_)
    split_ifs with hrest
    · rw [hrest]
      exact reads_many_nil nofun
    · exact reads_many (u := [' ']) (by decide) h.next_space

private theorem isDigit_of_toLower {c unit : Char} (hunit : unit ∈ ['h', 'm', 's'])
    (h : c.toLower = unit.toLower) : c.isDigit = false := by
  by_contra hdigit
  have hrange : 48 ≤ c.toNat ∧ c.toNat ≤ 57 := by
    simpa [Char.isDigit, UInt32.le_iff_toNat_le] using hdigit
  have hnat := congrArg Char.toNat h
  rw [Text.toNat_toLower, if_neg (by omega)] at hnat
  have hletter : ∀ unit ∈ ['h', 'm', 's'], 57 < unit.toLower.toNat := by decide
  have hlt := hletter unit hunit
  omega

/-- **A duration is read as a whole.** -/
theorem reads_elapsed (e : Elapsed) : elapsedRe.Reads past e.chars g [] g := by
  have hseconds : Amounts ['s'] (withUnit e.seconds 's' []) := Amounts.withUnit (.inl rfl)
  have hminutes : Amounts ['m', 's'] (withUnit e.minutes 'm' (withUnit e.seconds 's' [])) :=
    hseconds.withUnit
  refine .alt_left ((reads_withUnit hminutes rfl (by decide)
    (fun c => isDigit_of_toLower (by decide)) (by decide)).seq fun _ => ?_)
  refine (reads_withUnit hseconds rfl (by decide) (fun c => isDigit_of_toLower (by decide))
    (by decide)).seq fun _ => ?_
  cases e.seconds with
  | none => exact ⟨_, rfl⟩
  | some n =>
    refine .opt ((reads_digits n (next_cons (by decide))).seq fun _ => ?_)
    exact (reads_many_nil (next_cons (by decide))).seq fun _ => reads_word "s"

end amounts

namespace Elapsed

variable (e : Elapsed)

private theorem withUnit_ne_nil {n : Option Digits} {unit : Char} {rest : List Char}
    (h : n ≠ none ∨ rest ≠ []) : withUnit n unit rest ≠ [] := by
  cases n with
  | none => exact h.resolve_left (not_not.mpr rfl)
  | some n => exact List.append_ne_nil_of_left_ne_nil n.ne _

theorem chars_ne_nil : e.chars ≠ [] := by
  refine withUnit_ne_nil (e.some_ne.imp_right fun h => withUnit_ne_nil (h.imp_right fun h => ?_))
  exact withUnit_ne_nil (.inl h)

/-- A duration begins with an amount. -/
theorem amounts : Amounts ['h', 'm', 's'] e.chars := (Amounts.withUnit (.inl rfl)).withUnit.withUnit

/-- The text does not end with a space. -/
private theorem withUnit_last {n : Option Digits} {unit : Char} {rest : List Char}
    (hunit : Text.isSpace unit = false)
    (h : ∀ c, rest.getLast? = some c → Text.isSpace c = false) (c : Char)
    (hc : (withUnit n unit rest).getLast? = some c) : Text.isSpace c = false := by
  cases n with
  | none => exact h c hc
  | some n =>
    rw [withUnit, Option.elim_some, List.getLast?_append] at hc
    split_ifs at hc with hrest
    · obtain rfl := Option.some.inj hc
      exact hunit
    · obtain ⟨last, hlast⟩ := Option.isSome_iff_exists.mp (List.getLast?_isSome.mpr hrest)
      rw [List.getLast?_cons_cons, List.getLast?_cons, hlast] at hc
      obtain rfl := Option.some.inj hc
      exact h _ hlast

theorem getLast?_chars (c : Char) (h : e.chars.getLast? = some c) : Text.isSpace c = false := by
  refine withUnit_last (by decide) (withUnit_last (by decide) (withUnit_last (by decide) ?_)) c h
  intro c hc
  cases hc

theorem strip_chars : Text.strip (String.ofList e.chars) = String.ofList e.chars := by
  refine Text.strip_eq_self (fun c hc => ?_) fun c hc => ?_
  · rw [String.toList_ofList] at hc
    exact e.amounts.next_space c hc
  · rw [String.toList_ofList] at hc
    exact e.getLast?_chars c hc

/-- **A duration has a value.** -/
theorem parseDurationToken_ne_none (fl : Floats F) : parseDurationToken fl e.chars ≠ none := by
  have hfound : durationTokenRe.finditer e.chars ≠ [] := by
    rcases e.amounts with hnil | ⟨n, unit, v, hunit, heq⟩
    · exact absurd hnil e.chars_ne_nil
    · have hdigit := isDigit_of_toLower hunit rfl
      have hspace : ∀ unit ∈ ['h', 'm', 's'], Text.isSpace unit = false := by decide
      have hletter : ∀ unit ∈ ['h', 'm', 's'], unit.toLower ∈ ['h', 'm', 's'] := by decide
      have hreads : durationTokenRe.Reads [] e.chars [] v [(2, [unit]), (1, n.chars)] := by
        rw [heq]
        refine ((reads_digits n (next_cons hdigit)).group 1).seq fun _ => ?_
        refine (reads_many_nil (next_cons (hspace unit hunit))).seq fun _ => ?_
        refine Reads.group (u := [unit]) 2 (reads_char ?_)
        exact decide_eq_true (hletter unit hunit)
      exact finditer_ne_nil e.chars_ne_nil hreads
  rw [parseDurationToken, e.strip_chars, String.toList_ofList]
  split
  · next hnil => exact absurd hnil hfound
  · exact Option.some_ne_none _

end Elapsed

/-! ### The line -/

/-- The units of sizes. -/
def sizeUnits : List String := ["B", "KiB", "MiB", "GiB", "TiB", "KB", "MB", "GB", "TB"]

/-- A line `X: transferred A U of T V (P%) in D`, where `X` is the name of a drive. -/
structure LiveLine (fl : Floats F) where
  drive : List Char
  drive_ne : drive ≠ []
  drive_chars : ∀ c ∈ drive, c.isAlphanum = true ∨ c ∈ ['-', '_', '.']
  done : Decimal
  doneUnit : String
  doneUnit_ok : doneUnit ∈ sizeUnits
  total : Decimal
  totalUnit : String
  totalUnit_ok : totalUnit ∈ sizeUnits
  percent : Decimal
  percent_ok : isPercent fl (fl.ofText percent.chars) = true
  elapsed : Elapsed

namespace LiveLine

variable (line : LiveLine fl)

/-- The line from the percentage on. -/
def fromPercent : List Char := line.percent.chars ++ ("%) in ".toList ++ line.elapsed.chars)

/-- The line from `transferred` up to the percentage. -/
def sizes : List Char :=
  "transferred ".toList ++ (line.done.chars ++ ((' ' :: line.doneUnit.toList ++ " of ".toList) ++
    (line.total.chars ++ (' ' :: line.totalUnit.toList ++ " ".toList))))

/-- The characters of the line. -/
def chars : List Char := line.drive ++ (": ".toList ++ (line.sizes ++ '(' :: line.fromPercent))

/-- The line. -/
def text : String := String.ofList line.chars

/-! What is read -/

section reads

variable {past v : List Char} {g : List (ℕ × List Char)}

/-- A unit is read as a whole. -/
private theorem reads_unit {unit : String} (h : unit ∈ sizeUnits) :
    sizeUnitRe.Reads past (unit.toList ++ ' ' :: v) g (' ' :: v) g := by
  simp only [sizeUnits, List.mem_cons, List.not_mem_nil, or_false] at h
  rcases h with rfl | rfl | rfl | rfl | rfl | rfl | rfl | rfl | rfl <;> exact ⟨_, rfl⟩

/-- A unit begins with a letter. -/
private theorem next_unit {unit : String} (h : unit ∈ sizeUnits) :
    ∀ c ∈ (unit.toList ++ ' ' :: v).head?, Text.isSpace c = false := by
  simp only [sizeUnits, List.mem_cons, List.not_mem_nil, or_false] at h
  rcases h with rfl | rfl | rfl | rfl | rfl | rfl | rfl | rfl | rfl <;> exact next_cons (by decide)

/-- The groups of the line. -/
def groups : List (ℕ × List Char) :=
  [(6, line.elapsed.chars), (5, line.percent.chars), (4, line.totalUnit.toList),
    (3, line.total.chars), (2, line.doneUnit.toList), (1, line.done.chars)]

private theorem regroup_sizes (x : Char) (a b c d e f g rest : List Char) :
    (a ++ (b ++ ((x :: c ++ d) ++ (e ++ (x :: f ++ g))))) ++ rest =
      a ++ (b ++ (x :: (c ++ (d ++ (e ++ (x :: (f ++ (g ++ rest)))))))) := by
  simp

theorem reads_liveXfer : liveXferRe.Reads past ((line.sizes ++ '(' :: line.fromPercent) ++ []) [] []
    line.groups := by
  have helapsed {past g} : (group 6 elapsedRe).Reads past line.elapsed.chars g []
      ((6, line.elapsed.chars) :: g) := by
    have hreads : elapsedRe.Reads past (line.elapsed.chars ++ []) g [] g := by
      rw [List.append_nil]
      exact reads_elapsed _
    have hgroup := hreads.group 6
    rwa [List.append_nil] at hgroup
  have htext : line.sizes ++ '(' :: line.fromPercent = _ := regroup_sizes ' ' "transferred ".toList
    line.done.chars line.doneUnit.toList " of ".toList line.total.chars line.totalUnit.toList
    " ".toList ('(' :: line.fromPercent)
  rw [List.append_nil, htext, fromPercent]
  refine (reads_word "transferred" (v := ' ' :: _)).seq fun _ => ?_
  refine (reads_plus (u := [' ']) (by decide) (by decide) line.done.numeral.next_space).seq
    fun _ => ?_
  refine ((reads_decimal line.done (next_cons (by decide))).group 1).seq fun _ => ?_
  refine (reads_many (u := [' ']) (by decide) (next_unit line.doneUnit_ok)).seq fun _ => ?_
  refine ((reads_unit line.doneUnit_ok).group 2).seq fun _ => ?_
  refine (reads_plus (u := [' ']) (by decide) (by decide) (next_cons (by decide))).seq fun _ => ?_
  refine (reads_word "of").seq fun _ => ?_
  refine (reads_plus (u := [' ']) (by decide) (by decide) line.total.numeral.next_space).seq
    fun _ => ?_
  refine ((reads_decimal line.total (next_cons (by decide))).group 3).seq fun _ => ?_
  refine (reads_many (u := [' ']) (by decide) (next_unit line.totalUnit_ok)).seq fun _ => ?_
  refine ((reads_unit line.totalUnit_ok).group 4).seq fun _ => ?_
  refine (reads_many (u := [' ']) (by decide) (next_cons (by decide))).seq fun _ => ?_
  refine (reads_word "(").seq fun _ => ?_
  refine ((reads_decimal line.percent (next_cons (by decide))).group 5).seq fun _ => ?_
  refine (reads_word "%)").seq fun _ => ?_
  refine (Reads.opt ?_).seq fun _ => reads_opt_nil rfl
  refine (reads_plus (u := [' ']) (by decide) (by decide) (next_cons (by decide))).seq fun _ => ?_
  refine (reads_word "in").seq fun _ => ?_
  exact (reads_plus (u := [' ']) (by decide) (by decide) line.elapsed.amounts.next_space).seq
    fun _ => helapsed

end reads

/-! What is found -/

section free

variable {ws : List (List Char)} {a rest tail : List Char} {n : Option Digits} {unit : Char}

/-- The words hold a character that names of drives do not have, and no colon. -/
def Foreign (ws : List (List Char)) : Prop :=
  ∀ w ∈ ws, ':' ∉ w ∧ ∃ c ∈ w, c ∈ [' ', '=', '%']

instance : Decidable (Foreign ws) :=
  inferInstanceAs (Decidable (∀ w ∈ ws, ':' ∉ w ∧ ∃ c ∈ w, c ∈ [' ', '=', '%']))

/-- Names of drives hold no spaces and no signs of other lines. -/
private theorem drive_shown {c : Char} (h : c.isAlphanum = true ∨ c ∈ ['-', '_', '.']) :
    Text.isSpace c = false ∧ shown c ∉ [' ', '=', '%'] := by
  have hrange : (65 ≤ c.toNat ∧ c.toNat ≤ 90) ∨ (97 ≤ c.toNat ∧ c.toNat ≤ 122) ∨
      (48 ≤ c.toNat ∧ c.toNat ≤ 57) ∨ c.toNat = 45 ∨ c.toNat = 95 ∨ c.toNat = 46 := by
    rcases h with halnum | hmem
    · have hrange := Text.isAlphanum_iff.mp halnum
      omega
    · have hsigns : ∀ c ∈ ['-', '_', '.'], c.toNat = 45 ∨ c.toNat = 95 ∨ c.toNat = 46 := by decide
      have hsign := hsigns c hmem
      omega
  have hspace : Text.isSpace c = false := by
    simp [Text.isSpace]
    omega
  refine ⟨hspace, fun hmem => ?_⟩
  have hforeign : ∀ c ∈ [' ', '=', '%'], c.toNat = 32 ∨ c.toNat = 61 ∨ c.toNat = 37 := by decide
  have hnat := hforeign _ hmem
  rw [shown, hspace, if_neg Bool.false_ne_true, Text.toNat_toLower] at hnat
  split_ifs at hnat <;> omega

private theorem free_drive (hws : Foreign ws) (h : Free ws rest) :
    Free ws (line.drive ++ ':' :: rest) := by
  intro w hw hin
  obtain ⟨hcolon, c, hc, hforeign⟩ := hws w hw
  rw [List.map_append, List.map_cons] at hin
  rcases (Text.infix_separated (c := shown ':') hcolon).mp hin with hleft | hright
  · obtain ⟨x, hx, rfl⟩ := List.mem_map.mp (hleft.subset hc)
    exact (drive_shown (line.drive_chars x hx)).2 hforeign
  · exact h w hw hright

private theorem free_withUnit (hws : Wordy ws) (h : ∀ a, Free ws a → Free ws (a ++ rest))
    (hunit : Free ws [unit, ' ']) (ha : Free ws a) : Free ws (a ++ withUnit n unit rest) := by
  cases n with
  | none => exact h a ha
  | some n =>
    refine ha.number hws n.numeral ?_
    split_ifs with hrest
    · exact hunit.mono (List.prefix_append [unit] [' ']).isInfix
    · exact h [unit, ' '] hunit

private theorem free_elapsed (hws : Wordy ws) (e : Elapsed) (ha : Free ws a)
    (h : ∀ unit ∈ ['h', 'm', 's'], Free ws [unit, ' ']) : Free ws (a ++ e.chars) := by
  have hseconds {a} (ha : Free ws a) : Free ws (a ++ withUnit e.seconds 's' []) := by
    refine free_withUnit hws (fun a ha => ?_) (h 's' (by simp)) ha
    rwa [List.append_nil]
  have hminutes {a} (ha : Free ws a) :
      Free ws (a ++ withUnit e.minutes 'm' (withUnit e.seconds 's' [])) :=
    free_withUnit hws (fun _ => hseconds) (h 'm' (by simp)) ha
  exact free_withUnit hws (fun _ => hminutes) (h 'h' (by simp)) ha

private theorem free_fromPercent (hws : Wordy ws) (ha : Free ws a) (hin : Free ws "%) in ".toList)
    (h : ∀ unit ∈ ['h', 'm', 's'], Free ws [unit, ' ']) : Free ws (a ++ line.fromPercent) :=
  ha.number hws line.percent.numeral (free_elapsed hws line.elapsed hin h)

private theorem regroup_tail (a b c d e tail : List Char) :
    (a ++ (b ++ (c ++ (d ++ e)))) ++ tail = a ++ (b ++ (c ++ (d ++ (e ++ tail)))) := by
  simp

/-- The line up to the percentage, and what comes instead of it. -/
private theorem free_upTo (hws : Wordy ws) (hforeign : Foreign ws)
    (hword : Free ws " transferred ".toList)
    (hunit : ∀ unit ∈ sizeUnits, Free ws (' ' :: unit.toList ++ " of ".toList))
    (htail : ∀ unit ∈ sizeUnits, Free ws ((' ' :: unit.toList ++ " ".toList) ++ tail)) :
    Free ws (line.drive ++ (": ".toList ++ (line.sizes ++ tail))) := by
  have htotal := (hunit _ line.doneUnit_ok).number hws line.total.numeral
    (htail _ line.totalUnit_ok)
  have hdone := hword.number hws line.done.numeral htotal
  have hgroup : line.sizes ++ tail = _ := regroup_tail "transferred ".toList line.done.chars
    (' ' :: line.doneUnit.toList ++ " of ".toList) line.total.chars
    (' ' :: line.totalUnit.toList ++ " ".toList) tail
  rw [hgroup]
  exact line.free_drive hforeign hdone

private theorem regroup_open (a b c rest : List Char) :
    a ++ (b ++ (c ++ rest)) = (a ++ (b ++ c)) ++ rest := by
  simp

private theorem regroup_cons (x : Char) (a b : List Char) (y : Char) (rest : List Char) :
    (x :: a ++ b) ++ y :: rest = (x :: a ++ (b ++ [y])) ++ rest := by
  simp

/-- Words that do not lie in the literal parts of a line do not lie in the line. -/
private theorem free_chars (hws : Wordy ws) (hforeign : Foreign ws)
    (hword : Free ws " transferred ".toList) (hin : Free ws "%) in ".toList)
    (hunits : ∀ unit ∈ sizeUnits, Free ws (' ' :: unit.toList ++ " of ".toList) ∧
      Free ws (' ' :: unit.toList ++ " (".toList))
    (h : ∀ unit ∈ ['h', 'm', 's'], Free ws [unit, ' ']) : Free ws line.chars := by
  refine line.free_upTo hws hforeign hword (fun unit hunit => (hunits unit hunit).1) ?_
  intro unit hunit
  have hgroup : (' ' :: unit.toList ++ " ".toList) ++ '(' :: line.fromPercent =
      (' ' :: unit.toList ++ " (".toList) ++ line.fromPercent :=
    regroup_cons ' ' unit.toList " ".toList '(' line.fromPercent
  rw [hgroup]
  exact line.free_fromPercent hws (hunits unit hunit).2 hin h

end free

/-- Nothing is found by an expression whose words do not lie in the parts of a line. -/
private theorem finditer_nil {r : Regex} {ws : List (List Char)} (hneeds : r.Needs shown ws)
    (hws : Wordy ws) (hforeign : Foreign ws) (hword : Free ws " transferred ".toList)
    (hin : Free ws "%) in ".toList)
    (hunits : ∀ unit ∈ sizeUnits, Free ws (' ' :: unit.toList ++ " of ".toList) ∧
      Free ws (' ' :: unit.toList ++ " (".toList))
    (h : ∀ unit ∈ ['h', 'm', 's'], Free ws [unit, ' ']) : r.finditer line.chars = [] :=
  finditer_eq_nil (hneeds.not_infix (line.free_chars hws hforeign hword hin hunits h))

theorem finditer_zeroes : zeroesRe.finditer line.chars = [] :=
  line.finditer_nil needs_zeroes (by decide) (by decide) (by decide) (by decide) (by decide)
    (by decide)

theorem finditer_duration : durationRe.finditer line.chars = [] :=
  line.finditer_nil starts_duration.needs (by decide) (by decide) (by decide) (by decide)
    (by decide) (by decide)

theorem finditer_complete : completeRe.finditer line.chars = [] :=
  line.finditer_nil starts_complete.needs (by decide) (by decide) (by decide) (by decide)
    (by decide) (by decide)

theorem finditer_network (rest : Regex) : (wordsThen networkRe rest).finditer line.chars = [] :=
  line.finditer_nil (starts_network rest).needs (by decide) (by decide) (by decide) (by decide)
    (by decide) (by decide)

/-- A percentage does not go over a parenthesis. -/
private theorem within_progress : progressPctRe.Within fun c => shown c ≠ '(' := by
  have hword (t : String) (h : ∀ y ∈ t.toList, shown y ≠ '(') :
      (word t).Within fun c => shown c ≠ '(' := by
    refine within_word t fun y hy x hx => ?_
    rw [← shown_toLower x, hx, shown_toLower]
    exact h y hy
  have hspace (c : Char) (hc : Text.isSpace c = true) : shown c ≠ '(' := by
    rw [shown_space hc]
    decide
  have hdigit (c : Char) (hc : c.isDigit = true) : shown c ≠ '(' := by
    rw [shown_numeric (.inl hc)]
    rintro rfl
    cases hc
  have hsign (c : Char) (hc : decide (c ∈ [':', '=']) = true) : shown c ≠ '(' := by
    rcases List.mem_pair.mp (of_decide_eq_true hc) with rfl | rfl <;> decide
  have hspaces := within_many hspace
  have hfraction := ((hword "." (by decide)).seq (within_plus hdigit)).opt
  have hnumber := (within_char hdigit).seq
    (((within_char hdigit).seq (within_char hdigit).opt).opt.seq hfraction)
  exact within_boundary.seq ((hword "progress" (by decide)).seq (hspaces.seq
    ((within_char hsign).opt.seq (hspaces.seq (hnumber.seq
      (hspaces.seq (hword "%" (by decide))))))))

/-- The one percentage is behind a parenthesis, and `progress` is not. -/
theorem finditer_progress : progressPctRe.finditer line.chars = [] := by
  refine finditer_eq_nil fun u hu hin => ?_
  have hleft : Free ["%".toList] (line.drive ++ (": ".toList ++ (line.sizes ++ []))) :=
    line.free_upTo (by decide) (by decide) (by decide) (by decide) (by decide)
  have hright : Free ["p".toList] ([] ++ line.fromPercent) :=
    line.free_fromPercent (by decide) (by decide) (by decide) (by decide)
  have hsign : progressPctRe.Needs shown ["%".toList] :=
    (shows_word shown_toLower "%").starts.needs.seq_right.seq_right.seq_right.seq_right.seq_right
      |>.seq_right.seq_right
  have hletter : progressPctRe.Needs shown ["p".toList] :=
    starts_progress.needs.mono (by decide)
  have hparenthesis : '(' ∉ u.map shown := by
    rintro hmem
    obtain ⟨x, hx, heq⟩ := List.mem_map.mp hmem
    exact within_progress u hu x hx heq
  have hsplit : line.chars =
      (line.drive ++ (": ".toList ++ (line.sizes ++ []))) ++ '(' :: line.fromPercent := by
    rw [List.append_nil]
    exact regroup_open _ _ _ _
  have hshown := hin.map shown
  rw [hsplit, List.map_append, List.map_cons] at hshown
  rcases (Text.infix_separated (c := shown '(') hparenthesis).mp hshown with h | h
  · obtain ⟨w, hw, hin⟩ := hsign u hu
    exact hleft w hw (hin.trans h)
  · obtain ⟨w, hw, hin⟩ := hletter u hu
    exact hright w hw (hin.trans h)

/-- **The match** is the text from `transferred` on. -/
theorem finditer_liveXfer : liveXferRe.finditer line.chars = [line.groups] := by
  have hsplit : line.chars = (line.drive ++ ": ".toList) ++
      ((line.sizes ++ '(' :: line.fromPercent) ++ []) := by
    rw [List.append_nil]
    exact (List.append_assoc _ _ _).symm
  rw [hsplit]
  refine finditer_once starts_liveXfer nofun ?_ line.reads_liveXfer (by decide)
  intro w hw
  obtain rfl := List.mem_singleton.mp hw
  have hfree : Free ["transferred ".toList] (line.drive ++ ':' :: " transferred".toList) :=
    line.free_drive (by decide) (by decide)
  have hgroup := List.append_assoc line.drive ": ".toList "transferred".toList
  exact hgroup ▸ hfree _ (List.mem_singleton_self _)

/-! The record -/

/-- What the line says. -/
def reading : Reading F where
  percent := fl.ofText line.percent.chars
  done := (sizeToBytes fl line.done.chars line.doneUnit.toList).getD 0
  total := sizeToBytes fl line.total.chars line.totalUnit.toList
  zeroes := none
  duration := (parseDurationToken fl line.elapsed.chars).getD (fl.ofInt 0)

/-- The units are known. -/
private theorem sizeToBytes_unit (fl : Floats F) (value : List Char) {unit : String}
    (h : unit ∈ sizeUnits) : ∃ n, sizeToBytes fl value unit.toList = some n := by
  have hknown : ∀ unit ∈ sizeUnits, (sizeUnitBytes.lookup (Text.lower (Text.strip
      (String.ofList unit.toList)))).isSome = true := by decide
  obtain ⟨mult, hmult⟩ := Option.isSome_iff_exists.mp (hknown unit h)
  rw [sizeToBytes, hmult]
  exact ⟨_, rfl⟩

theorem total_ne_none : line.reading.total ≠ none := by
  obtain ⟨n, hn⟩ := sizeToBytes_unit fl line.total.chars line.totalUnit_ok
  rw [reading, hn]
  exact Option.some_ne_none n

theorem strip_text : Text.strip line.text = line.text := by
  refine Text.strip_eq_self (fun c hc => ?_) fun c hc => ?_
  · rw [text, String.toList_ofList, chars] at hc
    obtain ⟨drive, hne, hdrive⟩ : ∃ drive, drive ≠ [] ∧ line.drive = drive :=
      ⟨_, line.drive_ne, rfl⟩
    rw [hdrive] at hc
    cases drive with
    | nil => exact absurd rfl hne
    | cons x drive =>
      obtain rfl := Option.some.inj hc
      exact (drive_shown (line.drive_chars x (hdrive ▸ List.mem_cons_self))).1
  · have hlast (a b c d e f : List Char) (x : Char) (hf : f ≠ []) :
        (a ++ (b ++ (c ++ x :: (d ++ (e ++ f))))).getLast? = f.getLast? := by
      obtain ⟨last, hlast⟩ := Option.isSome_iff_exists.mp (List.getLast?_isSome.mpr hf)
      simp [List.getLast?_append, List.getLast?_cons, hlast]
    rw [text, String.toList_ofList] at hc
    refine line.elapsed.getLast?_chars c ((hlast line.drive ": ".toList line.sizes line.percent.chars
      "%) in ".toList line.elapsed.chars '(' line.elapsed.chars_ne_nil).symm.trans hc)

/-- **A line of a live restore** makes the record what it says, if there are no zeroes in it. -/
theorem parseLine_text (r : ParsedProgress F) (hzeroes : r.zeroesBytes = none) :
    parseLine fl r line.text = line.reading.record fl r line.text := by
  have hne : line.text ≠ "" := by
    intro hempty
    have hchars := congrArg String.toList hempty
    rw [text, String.toList_ofList] at hchars
    exact line.drive_ne (List.append_eq_nil_iff.mp hchars).1
  obtain ⟨done, hdone⟩ := sizeToBytes_unit fl line.done.chars line.doneUnit_ok
  obtain ⟨total, htotal⟩ := sizeToBytes_unit fl line.total.chars line.totalUnit_ok
  obtain ⟨duration, hduration⟩ :=
    Option.ne_none_iff_exists'.mp (line.elapsed.parseDurationToken_ne_none fl)
  have hlive (r : ParsedProgress F) : r.liveXfer fl line.groups =
      { r with
        bytesDone := some done
        bytesTotal := some total
        percent := some (fl.ofText line.percent.chars)
        durationSec := some duration } := by
    rw [ParsedProgress.liveXfer, show groupOf line.groups 1 = line.done.chars from rfl,
      show groupOf line.groups 2 = line.doneUnit.toList from rfl, hdone,
      show groupOf line.groups 3 = line.total.chars from rfl,
      show groupOf line.groups 4 = line.totalUnit.toList from rfl, htotal,
      show groupOf line.groups 5 = line.percent.chars from rfl,
      show groupOf line.groups 6 = line.elapsed.chars from rfl, hduration]
    dsimp only
    rw [ParsedProgress.withPercent, if_pos line.percent_ok]
    rfl
  have hnetwork (r : ParsedProgress F) (h : r.zeroesBytes = none) : r.fillNetwork = r := by
    rw [ParsedProgress.fillNetwork, h]
    split
    · next hnever => cases hnever
    · rfl
  have hreading : line.reading = ⟨fl.ofText line.percent.chars, done, some total, none, duration⟩ := by
    rw [reading, hdone, htotal, hduration]
    rfl
  rw [parseLine, line.strip_text]
  dsimp only
  rw [if_neg hne]
  simp only [onMatches, unlessLive, text, String.toList_ofList, line.finditer_liveXfer,
    line.finditer_progress, line.finditer_zeroes, line.finditer_duration, line.finditer_complete,
    netBytesRe, netMibRe, line.finditer_network, List.foldl_nil, List.foldl_cons,
    List.cons_ne_nil, if_false, hlive]
  rw [hnetwork, fillSpeed_eq _ rfl rfl, hreading, Reading.record, String.toList_ofList]
  · cases r.networkBytesDone <;> rfl
  · exact hzeroes

end LiveLine

end Progress

end RestoreEngine
