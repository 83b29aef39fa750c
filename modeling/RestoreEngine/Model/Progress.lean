import Mathlib.Data.Rat.Floor

/-!
# `progress_parse.py`: the metrics of a restore, and `on_tick` of the worker

What the worker derives from the progress lines of a poll. Floating-point numbers are rational
numbers here. The elapsed times are what the clock gives at the two places where it is read, or
`none` if `parse_iso` does not read the start of the restore.
-/

namespace RestoreEngine

namespace Progress

/-- `ParsedProgress`, over the type of floating-point numbers. -/
structure ParsedProgress (F : Type) where
  percent : Option F := none
  bytesDone : Option ℤ := none
  bytesTotal : Option ℤ := none
  speedBps : Option F := none
  networkBytesDone : Option ℤ := none
  zeroesBytes : Option ℤ := none
  zeroesPercent : Option F := none
  durationSec : Option F := none
  statusText : String := ""
  deriving DecidableEq

/-- `int` of a floating-point number. -/
def truncate (q : ℚ) : ℤ := if 0 ≤ q then ⌊q⌋ else ⌈q⌉

/-- `round` of a floating-point number: a half goes to the even side. -/
def roundHalfEven (q : ℚ) : ℤ :=
  if Int.fract q < 1 / 2 then ⌊q⌋
  else if 1 / 2 < Int.fract q then ⌊q⌋ + 1
  else if ⌊q⌋ % 2 = 0 then ⌊q⌋ else ⌊q⌋ + 1

/-- `ema`. -/
def ema (previous : Option ℚ) (sample : ℚ) : ℚ :=
  match previous with
  | some previous => if previous ≤ 0 then sample else 35 / 100 * sample + (1 - 35 / 100) * previous
  | none => sample

/-- `max(0.0, min(1.0, x))` of a ratio that is given and not negative. -/
def clampRatio (ratio : Option ℚ) : Option ℚ := (ratio.filter (0 ≤ ·)).map fun x => max 0 (min 1 x)

/-- `estimate_network_bytes_done`. -/
def estimateNetworkBytesDone (backupSizeBytes : ℤ) (percent : Option ℚ)
    (bytesDone bytesTotal : Option ℤ) : Option ℤ :=
  if backupSizeBytes ≤ 0 then none
  else
    match percent.filter fun p => 0 ≤ p ∧ p ≤ 100, bytesDone, bytesTotal.filter (0 < ·) with
    | some p, _, _ => some (truncate (backupSizeBytes * (p / 100)))
    | none, some bytesDone, some bytesTotal =>
      some (truncate (backupSizeBytes * min 1 (max 0 ((bytesDone : ℚ) / bytesTotal))))
    | _, _, _ => none

/-- `compute_eta_sec`. -/
def computeEtaSec (progress : Option ℚ) (bytesDone bytesTotal : Option ℤ)
    (speedBps elapsed : Option ℚ) (sampleCount : ℕ) : Option ℚ :=
  let elapsed := elapsed.getD 0
  if elapsed < 15 ∧ sampleCount < 2 then none
  else
    match bytesTotal.filter (· ≠ 0), bytesDone, speedBps.filter (0 < ·) with
    | some bytesTotal, some bytesDone, some speed =>
      some ((max 0 (bytesTotal - bytesDone) : ℤ) / speed)
    | _, _, _ =>
      match progress.filter fun p => 0 < p ∧ p < 100 with
      | some p => if 0 < elapsed then some (elapsed * (100 - p) / p) else none
      | none => none

/-- The arguments of `estimate_network_speed_bps`. -/
structure SpeedArgs where
  grossSpeedBps : Option ℚ
  backupSizeBytes : ℤ
  bytesTotal : Option ℤ
  networkBytesDone : Option ℤ
  elapsed : Option ℚ
  logNetworkBytes : Option ℤ
  prevLogNetworkBytes : Option ℤ
  tickDtSec : ℚ
  prevNetworkSpeedBps : Option ℚ
  durationSec : Option ℚ
  fromZeroes : Bool
  diskSparsityRatio : Option ℚ

/-- 1) Non-zero bytes by the duration of the log. -/
def SpeedArgs.fromLog (a : SpeedArgs) : Option ℚ :=
  match a.networkBytesDone.filter (0 ≤ ·), a.durationSec.filter (0 < ·) with
  | some done, some duration =>
    if a.fromZeroes then
      let avg := (done : ℚ) / duration
      some (if 0 < avg then ema a.prevNetworkSpeedBps avg else 0)
    else none
  | _, _ => none

/-- 2) What the counters of the log grew by since the last tick. -/
def SpeedArgs.fromTicks (a : SpeedArgs) : Option ℚ :=
  match a.logNetworkBytes, a.prevLogNetworkBytes with
  | some done, some prev =>
    if 0 < a.tickDtSec ∧ prev ≤ done then
      let instant := ((done - prev : ℤ) : ℚ) / a.tickDtSec
      if 0 < instant then some (ema a.prevNetworkSpeedBps instant) else none
    else none
  | _, _ => none

/-- 3) The gross speed scaled by the sparsity. -/
def SpeedArgs.fromSparsity (a : SpeedArgs) : Option ℚ :=
  match a.diskSparsityRatio, a.grossSpeedBps.filter (0 < ·) with
  | some sparsity, some gross =>
    if a.fromZeroes then none
    else
      let scaled := gross * max 0 (min 1 sparsity)
      some (if 0 < scaled then ema a.prevNetworkSpeedBps scaled else 0)
  | _, _ => none

/-- 4) The gross speed scaled by the density of the backup. -/
def SpeedArgs.fromDensity (a : SpeedArgs) : Option ℚ :=
  match a.grossSpeedBps.filter (0 < ·), a.bytesTotal.filter (0 < ·) with
  | some gross, some total =>
    if a.fromZeroes ∨ a.backupSizeBytes ≤ 0 then none
    else
      let scaled := gross * min 1 ((a.backupSizeBytes : ℚ) / total)
      if 0 < scaled then some (ema a.prevNetworkSpeedBps scaled) else none
  | _, _ => none

/-- 5) The average of the session. -/
def SpeedArgs.fromSession (a : SpeedArgs) : Option ℚ :=
  match a.networkBytesDone.filter (0 < ·), a.elapsed.filter (8 ≤ ·) with
  | some done, some elapsed => some (done / elapsed)
  | _, _ => none

/-- `estimate_network_speed_bps`. -/
def estimateNetworkSpeedBps (a : SpeedArgs) : Option ℚ :=
  a.fromLog <|> a.fromTicks <|> a.fromSparsity <|> a.fromDensity <|> a.fromSession <|>
    a.prevNetworkSpeedBps.filter (0 < ·)

/-- The arguments of `metrics_mapping_from_tick`, and what the clock says there. -/
structure TickArgs where
  parsed : ParsedProgress ℚ
  prevBytesDone : Option ℤ
  prevSpeedBps : Option ℚ
  sampleCount : ℕ
  tickDtSec : ℚ
  backupSizeBytes : ℤ
  prevNetworkBytes : Option ℤ
  prevNetworkSpeedBps : Option ℚ
  wireCompressionRatio : Option ℚ
  diskSparsityRatio : Option ℚ
  networkElapsed : Option ℚ
  etaElapsed : Option ℚ

/-- The hash fields of one tick. -/
structure TickMetrics where
  pveStatusText : Option String
  zeroesBytes : Option ℤ
  zeroesPercent : Option ℚ
  bytesDone : Option ℤ
  bytesTotal : Option ℤ
  speedBps : Option ℤ
  progress : Option ℤ
  networkBytesDone : Option ℤ
  nonzeroBytesDone : Option ℤ
  nonzeroSpeedBps : Option ℤ
  networkSpeedBps : Option ℤ
  etaSec : Option ℤ

/-- The instantaneous rate: the bytes since the previous counter by the time of the tick. -/
def TickArgs.instant (a : TickArgs) : Option ℚ :=
  match a.parsed.bytesDone, a.prevBytesDone with
  | some done, some prev =>
    if 0 < a.tickDtSec ∧ prev ≤ done then some (((done - prev : ℤ) : ℚ) / a.tickDtSec) else none
  | _, _ => none

/-- The gross speed: the instantaneous rate, if it is plausible, goes into the average. -/
def TickArgs.speed (a : TickArgs) : Option ℚ :=
  let parsed := a.parsed
  let ceiling : ℚ := 2 * 1024 ^ 3
  let maxPlausible :=
    match parsed.speedBps.filter (0 < ·) with
    | some speed => max ceiling (speed * 4)
    | none => ceiling
  let speed :=
    match a.instant.filter fun rate => 0 < rate ∧ rate ≤ maxPlausible with
    | some rate => some (ema a.prevSpeedBps rate)
    | none => parsed.speedBps
  match speed.filter (0 < ·), parsed.durationSec.filter (0 < ·),
    parsed.bytesDone.filter (0 < ·) with
  | none, some duration, some done => some (done / duration)
  | _, _, _ => speed

/-- `metrics_mapping_from_tick`. -/
def metricsMappingFromTick (a : TickArgs) : TickMetrics :=
  let parsed := a.parsed
  let fromZeroes := parsed.zeroesBytes.isSome && parsed.bytesDone.isSome
  let speed := (a.speed.filter (0 < ·) <|> a.prevSpeedBps.filter (0 < ·)) <|> a.speed
  let seenBytes := parsed.bytesDone <|> a.prevBytesDone
  let sparsity := clampRatio a.diskSparsityRatio
  let logicalDone := parsed.networkBytesDone <|>
    if fromZeroes then none
    else
      match sparsity, parsed.bytesDone with
      | some sparsity, some done => some (truncate (done * sparsity))
      | _, _ =>
        estimateNetworkBytesDone a.backupSizeBytes parsed.percent seenBytes parsed.bytesTotal
  let ratio := clampRatio a.wireCompressionRatio
  let netDone :=
    match ratio with
    | some ratio => logicalDone.map fun done => truncate (done * ratio)
    | none => logicalDone
  let logicalSpeed := estimateNetworkSpeedBps
    { grossSpeedBps := speed
      backupSizeBytes := a.backupSizeBytes
      bytesTotal := parsed.bytesTotal
      networkBytesDone := logicalDone
      elapsed := a.networkElapsed
      logNetworkBytes := parsed.networkBytesDone
      prevLogNetworkBytes := if parsed.networkBytesDone.isSome then a.prevNetworkBytes else none
      tickDtSec := a.tickDtSec
      prevNetworkSpeedBps := if ratio.isSome then none else a.prevNetworkSpeedBps
      durationSec := parsed.durationSec
      fromZeroes := fromZeroes
      diskSparsityRatio := sparsity }
  let netSpeed :=
    match ratio with
    | some ratio => logicalSpeed.map fun x =>
      let scaled := x * ratio
      if (a.prevNetworkSpeedBps.filter (0 < ·)).isSome ∧ 0 < scaled then
        ema a.prevNetworkSpeedBps scaled
      else scaled
    | none => logicalSpeed
  let eta :=
    computeEtaSec parsed.percent seenBytes parsed.bytesTotal speed a.etaElapsed a.sampleCount
  { pveStatusText :=
      if parsed.statusText = "" then none else some (parsed.statusText.take 240).toString
    zeroesBytes := parsed.zeroesBytes
    zeroesPercent := parsed.zeroesPercent
    bytesDone := parsed.bytesDone
    bytesTotal := parsed.bytesTotal
    speedBps := (speed.filter (0 < ·)).map truncate
    progress := parsed.percent.map fun p => max 0 (min 100 (roundHalfEven p))
    networkBytesDone := netDone
    nonzeroBytesDone := logicalDone
    nonzeroSpeedBps := (logicalSpeed.filter (0 ≤ ·)).map truncate
    networkSpeedBps := (netSpeed.filter (0 ≤ ·)).map truncate
    etaSec := (eta.filter (0 ≤ ·)).map truncate }

/-! ### `on_tick` -/

/-- `tick_state`. -/
structure TickState where
  lastTick : ℚ
  prevBytes : Option ℤ := none
  prevSpeed : Option ℚ := none
  prevLogNetworkBytes : Option ℤ := none
  prevNetworkSpeed : Option ℚ := none
  samples : ℕ := 0

/-- What `on_tick` closes over: the size of the backup and the sampled ratios. -/
structure TickEnv where
  backupSizeBytes : ℤ := 0
  wireRatio : Option ℚ := none
  diskSparsity : Option ℚ := none

/-- A poll: when it is, its new log lines, and the times since the start of the restore. -/
structure Poll where
  now : ℚ
  newLines : List String
  networkElapsed : Option ℚ := none
  etaElapsed : Option ℚ := none

variable (parse : List String → Option (ParsedProgress ℚ)) (env : TickEnv)

/-- `on_tick`: the state afterwards, and what `metrics_mapping_from_tick` was called with. A parser
that raises ends the tick. -/
def onTick (tickState : TickState) (poll : Poll) : TickState × Option TickArgs :=
  let dt := max (1 / 1000) (poll.now - tickState.lastTick)
  let tickState := { tickState with lastTick := poll.now }
  if poll.newLines = [] then (tickState, none)
  else
    match parse poll.newLines with
    | none => (tickState, none)
    | some parsed =>
      let tickState := { tickState with samples := tickState.samples + 1 }
      let args : TickArgs :=
        { parsed := parsed
          prevBytesDone := tickState.prevBytes
          prevSpeedBps := tickState.prevSpeed
          sampleCount := tickState.samples
          tickDtSec := dt
          backupSizeBytes := env.backupSizeBytes
          prevNetworkBytes := tickState.prevLogNetworkBytes
          prevNetworkSpeedBps := tickState.prevNetworkSpeed
          wireCompressionRatio := env.wireRatio
          diskSparsityRatio := env.diskSparsity
          networkElapsed := poll.networkElapsed
          etaElapsed := poll.etaElapsed }
      let mapping := metricsMappingFromTick args
      ({ tickState with
          prevBytes := mapping.bytesDone <|> tickState.prevBytes
          prevSpeed := mapping.speedBps.map (↑) <|> tickState.prevSpeed
          prevLogNetworkBytes := parsed.networkBytesDone <|> tickState.prevLogNetworkBytes
          prevNetworkSpeed := mapping.networkSpeedBps.map (↑) <|> tickState.prevNetworkSpeed },
        some args)

/-- The state after the polls of `wait_for_task`. -/
def ticks (tickState : TickState) (polls : List Poll) : TickState :=
  polls.foldl (fun tickState poll => (onTick parse env tickState poll).1) tickState

end Progress

end RestoreEngine
