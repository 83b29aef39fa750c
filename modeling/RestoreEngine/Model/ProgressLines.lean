import RestoreEngine.Model.Progress
import RestoreEngine.Texts.Regex

/-!
# `progress_parse.py`: the progress lines of a task log

`parse_restore_progress` goes over the lines of a poll and collects what it finds in one record.
Each line is searched by a dozen regular expressions one after the other; some overwrite fields, some
only fill in fields that are still empty.

Floating-point arithmetic is a parameter (`Floats`). A number that is too long for `int` or too
large for `float`, which a log does not hold, is not modelled.
-/

namespace RestoreEngine

namespace Progress

open Regex

/-- Floating-point numbers, as far as the parser computes with them. -/
structure Floats (F : Type) where
  /-- `float` of a decimal. -/
  ofText : List Char → F
  /-- `float` of an integer. -/
  ofInt : ℤ → F
  /-- `int` of a number. -/
  truncate : F → ℤ
  add : F → F → F
  mul : F → F → F
  div : F → F → F
  le : F → F → Bool
  lt : F → F → Bool

/-- `int` of decimal digits. -/
def intOfText (digits : List Char) : ℤ := Nat.ofDigitChars 10 digits 0

/-! ### The expressions -/

/-- `\d+` -/
def digitsRe : Regex := plus Char.isDigit

/-- `\s*` -/
def spacesRe : Regex := many Text.isSpace

/-- `\d+(?:\.\d+)?` -/
def decimalRe : Regex := all [digitsRe, opt (all [word ".", digitsRe])]

/-- `\d{1,3}(?:\.\d+)?` -/
def shortDecimalRe : Regex :=
  all [char Char.isDigit, opt (all [char Char.isDigit, opt (char Char.isDigit)]),
    opt (all [word ".", digitsRe])]

def progressPctRe : Regex :=
  all [boundary, word "progress", spacesRe, opt (char (· ∈ [':', '='])), spacesRe,
    group 1 shortDecimalRe, spacesRe, word "%"]

def zeroesRe : Regex :=
  all [word "zeroe", opt (word "s"), spacesRe, word "=", spacesRe, group 1 shortDecimalRe, spacesRe,
    word "%", spacesRe, word "(", group 2 digitsRe, spacesRe, word "bytes)"]

/-- One of the words, spaces, and what follows. -/
def wordsThen (words rest : Regex) : Regex := seq words (seq (plus Text.isSpace) rest)

def durationRe : Regex :=
  seq boundary (wordsThen (word "duration") (all [group 1 decimalRe, spacesRe, word "sec"]))

def bytesPairRe : Regex :=
  wordsThen (oneOf [word "read", word "transferred", word "written", word "restored",
      word "downloaded"])
    (all [group 1 digitsRe, spacesRe, opt (all [word "/", spacesRe, group 2 digitsRe]), spacesRe,
      word "bytes"])

/-- `(?:MiB|MB)` -/
def mibRe : Regex := oneOf [word "MiB", word "MB"]

def mibPairRe : Regex :=
  all [group 1 decimalRe, spacesRe, mibRe, spacesRe,
    opt (all [word "/", spacesRe, group 2 decimalRe, spacesRe, mibRe])]

/-- `(?:B|KiB|MiB|GiB|TiB|KB|MB|GB|TB)` -/
def sizeUnitRe : Regex :=
  oneOf [word "B", word "KiB", word "MiB", word "GiB", word "TiB", word "KB", word "MB", word "GB",
    word "TB"]

/-- `\d+\s*` and the letter of a unit of time. -/
def amountRe (unit : String) : Regex := all [digitsRe, spacesRe, word unit]

/-- `(?:\d+\s*h\s*)?(?:\d+\s*m\s*)?(?:\d+\s*s)?|\d+\s*s` -/
def elapsedRe : Regex :=
  alt (all [opt (seq (amountRe "h") spacesRe), opt (seq (amountRe "m") spacesRe),
    opt (amountRe "s")]) (amountRe "s")

def liveXferRe : Regex :=
  wordsThen (word "transferred")
    (all [group 1 decimalRe, spacesRe, group 2 sizeUnitRe, plus Text.isSpace, word "of",
      plus Text.isSpace, group 3 decimalRe, spacesRe, group 4 sizeUnitRe, spacesRe, word "(",
      group 5 decimalRe, word "%)",
      opt (all [plus Text.isSpace, word "in", plus Text.isSpace, group 6 elapsedRe]),
      opt (all [spacesRe, word "(", group 7 decimalRe, spacesRe,
        group 8 (oneOf [word "TiB", word "GiB", word "MiB", word "MB", word "KB"]), word "/s)"])])

def rateRe : Regex :=
  all [group 1 decimalRe, spacesRe,
    group 2 (oneOf [word "TiB", word "GiB", word "MiB", word "MB"]), word "/s"]

/-- `(?:download(?:ed)?|network|recv(?:eived)?|fetched)` -/
def networkRe : Regex :=
  oneOf [seq (word "download") (opt (word "ed")), word "network",
    seq (word "recv") (opt (word "eived")), word "fetched"]

def netMibRe : Regex := wordsThen networkRe (all [group 1 decimalRe, spacesRe, mibRe])

def netBytesRe : Regex := wordsThen networkRe (all [group 1 digitsRe, spacesRe, word "bytes"])

/-- `[^)]*` -/
def insideRe : Regex := many (· != ')')

def completeRe : Regex :=
  wordsThen (word "restore")
    (all [word "image", plus Text.isSpace, word "complete", spacesRe, word "(", insideRe,
      word "bytes", spacesRe, word "=", spacesRe, group 1 digitsRe, insideRe,
      opt (all [word "duration", spacesRe, word "=", spacesRe, group 2 decimalRe, insideRe]),
      opt (all [word "speed", spacesRe, word "=", spacesRe, group 3 decimalRe, spacesRe, mibRe,
        word "/s"])])

/-- `(\d+)\s*([hms])` -/
def durationTokenRe : Regex :=
  all [group 1 digitsRe, spacesRe, group 2 (char fun c => c.toLower ∈ ['h', 'm', 's'])]

/-! ### The numbers -/

variable {F : Type} (fl : Floats F)

/-- The text of a group that takes part in every match. -/
def groupOf (m : List (ℕ × List Char)) (i : ℕ) : List Char := (m.lookup i).getD []

/-- `_SIZE_UNIT_BYTES`. -/
def sizeUnitBytes : List (String × ℤ) :=
  [("b", 1), ("kib", 1024), ("kb", 1000), ("mib", 1024 ^ 2), ("mb", 1024 ^ 2), ("gib", 1024 ^ 3),
    ("gb", 1024 ^ 3), ("tib", 1024 ^ 4), ("tb", 1024 ^ 4)]

/-- `_size_to_bytes(float(value), unit)`; there is none for a unit that is not known. -/
def sizeToBytes (value unit : List Char) : Option ℤ :=
  (sizeUnitBytes.lookup (Text.lower (Text.strip (String.ofList unit)))).map fun mult =>
    fl.truncate (fl.mul (fl.ofText value) (fl.ofInt mult))

/-- `value * 1024 * 1024`. -/
def mib (value : List Char) : F := fl.mul (fl.mul (fl.ofText value) (fl.ofInt 1024)) (fl.ofInt 1024)

/-- `parse_duration_token`. -/
def parseDurationToken (text : List Char) : Option F :=
  match durationTokenRe.finditer (Text.strip (String.ofList text)).toList with
  | [] => none
  | tokens => some (tokens.foldl (fun total m =>
      let n := intOfText (groupOf m 1)
      let unit := Text.lower (String.ofList (groupOf m 2))
      fl.add total (fl.ofInt (if unit = "h" then n * 3600 else if unit = "m" then n * 60 else n)))
    (fl.ofInt 0))

/-- `0 <= pct <= 100`. -/
def isPercent (pct : F) : Bool := fl.le (fl.ofInt 0) pct && fl.le pct (fl.ofInt 100)

/-! ### The matches -/

namespace ParsedProgress

variable (r : ParsedProgress F) (m : List (ℕ × List Char))

/-- What a percentage does to the record. -/
def withPercent (pct : F) : ParsedProgress F :=
  if isPercent fl pct then { r with percent := some pct } else r

/-- What a match of `_LIVE_XFER_RE` does to the record. -/
def liveXfer : ParsedProgress F :=
  match sizeToBytes fl (groupOf m 1) (groupOf m 2) with
  | none => r
  | some done =>
    match sizeToBytes fl (groupOf m 3) (groupOf m 4) with
    | none => { r with bytesDone := some done }
    | some total =>
      let r := { r with bytesDone := some done, bytesTotal := some total }
      let r := r.withPercent fl (fl.ofText (groupOf m 5))
      let r := match parseDurationToken fl (groupOf m 6) with
        | some duration => { r with durationSec := some duration }
        | none => r
      match m.lookup 7, m.lookup 8 with
      | some value, some unit =>
        match sizeToBytes fl value unit with
        | some speed => { r with speedBps := some (fl.ofInt speed) }
        | none => r
      | _, _ => r

def progressPct : ParsedProgress F := r.withPercent fl (fl.ofText (groupOf m 1))

def zeroes : ParsedProgress F :=
  { r with
    zeroesPercent := some (fl.ofText (groupOf m 1))
    zeroesBytes := some (intOfText (groupOf m 2)) }

def duration : ParsedProgress F := { r with durationSec := some (fl.ofText (groupOf m 1)) }

def bytesPair : ParsedProgress F :=
  let r := { r with bytesDone := some (intOfText (groupOf m 1)) }
  match m.lookup 2 with
  | some total => { r with bytesTotal := some (intOfText total) }
  | none => r

/-- What a match of `_MIB_PAIR_RE` in the line does to the record. -/
def mibPair (line : String) : ParsedProgress F :=
  if Text.contains (Text.lower line) "zeroes" ∧ bytesPairRe.finditer line.toList ≠ [] then r
  else
    let r := { r with bytesDone := some (fl.truncate (mib fl (groupOf m 1))) }
    match m.lookup 2 with
    | some total => { r with bytesTotal := some (fl.truncate (mib fl total)) }
    | none => r

def complete : ParsedProgress F :=
  let r := { r with bytesDone := some (intOfText (groupOf m 1)) }
  let r := match m.lookup 2 with
    | some duration => { r with durationSec := some (fl.ofText duration) }
    | none => r
  match m.lookup 3 with
  | some speed => { r with speedBps := some (mib fl speed) }
  | none => r

def rate : ParsedProgress F :=
  match sizeToBytes fl (groupOf m 1) (groupOf m 2) with
  | some speed => { r with speedBps := some (fl.ofInt speed) }
  | none => r

def netBytes : ParsedProgress F := { r with networkBytesDone := some (intOfText (groupOf m 1)) }

def netMib : ParsedProgress F :=
  { r with networkBytesDone := some (fl.truncate (mib fl (groupOf m 1))) }

/-! ### What is filled in -/

/-- The wire payload: the bytes processed that are not zero. -/
def fillNetwork : ParsedProgress F :=
  match r.networkBytesDone, r.bytesDone, r.zeroesBytes with
  | none, some done, some zeroes => { r with networkBytesDone := some (max 0 (done - zeroes)) }
  | _, _, _ => r

/-- The average over the duration of the log. -/
def fillSpeed : ParsedProgress F :=
  match r.durationSec, r.bytesDone with
  | some duration, some done =>
    if fl.lt (fl.ofInt 0) duration ∧ r.speedBps.all (fl.le · (fl.ofInt 0)) then
      { r with speedBps := some (fl.div (fl.ofInt done) duration) }
    else r
  | _, _ => r

/-- The percentage, from the bytes. -/
def fillPercent : ParsedProgress F :=
  match r.percent, r.bytesDone, r.bytesTotal with
  | none, some done, some total =>
    if total ≠ 0 then
      let pct := fl.div (fl.mul (fl.ofInt 100) (fl.ofInt done)) (fl.ofInt total)
      { r with percent := some (if fl.lt pct (fl.ofInt 100) then pct else fl.ofInt 100) }
    else r
  | _, _, _ => r

end ParsedProgress

/-! ### The lines -/

/-- What the matches of an expression in a line do to the record. -/
def onMatches (re : Regex) (step : ParsedProgress F → List (ℕ × List Char) → ParsedProgress F)
    (line : String) (r : ParsedProgress F) : ParsedProgress F :=
  (re.finditer line.toList).foldl step r

/-- The expressions that a line of a live restore is not searched by. -/
def unlessLive (line : String)
    (step : ParsedProgress F → ParsedProgress F) (r : ParsedProgress F) : ParsedProgress F :=
  if liveXferRe.finditer line.toList = [] then step r else r

/-- The body of the loop of `parse_restore_progress`. -/
def parseLine (r : ParsedProgress F) (raw : String) : ParsedProgress F :=
  let line := Text.strip raw
  if line = "" then r
  else
    let r := { r with statusText := String.ofList (line.toList.take 240) }
    let r := onMatches liveXferRe (·.liveXfer fl) line r
    let r := onMatches progressPctRe (·.progressPct fl) line r
    let r := onMatches zeroesRe (·.zeroes fl) line r
    let r := onMatches durationRe (·.duration fl) line r
    let r := unlessLive line (fun r =>
      onMatches mibPairRe (·.mibPair fl · line) line (onMatches bytesPairRe (·.bytesPair) line r)) r
    let r := onMatches completeRe (·.complete fl) line r
    let r := unlessLive line (onMatches rateRe (·.rate fl) line) r
    let r := onMatches netBytesRe (·.netBytes) line r
    let r := onMatches netMibRe (·.netMib fl) line r
    ((r.fillNetwork).fillSpeed fl).fillPercent fl

/-- **`parse_restore_progress`.** -/
def parseRestoreProgress (logLines : List String) : ParsedProgress F :=
  logLines.foldl (parseLine fl) {}

/-- Rational numbers as floating-point numbers. -/
def rationals : Floats ℚ where
  ofText text :=
    let whole := text.takeWhile (· != '.')
    let fraction := (text.dropWhile (· != '.')).tail
    (intOfText (whole ++ fraction) : ℚ) / 10 ^ fraction.length
  ofInt n := n
  truncate := truncate
  add x y := x + y
  mul x y := x * y
  div x y := x / y
  le x y := decide (x ≤ y)
  lt x y := decide (x < y)

end Progress

end RestoreEngine
