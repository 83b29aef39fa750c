import RestoreEngine.Model.Jobs
import RestoreEngine.Model.Teardown

/-!
# `plans.py`: plan runs

A plan run restores groups of guests one after the other. `startPlanRun` creates the run and
enqueues its first group; the ticks of `advancePlanRuns` wait for the jobs of a group, enqueue
the next, and end the run; `cancelPlanRun` ends it early. A run that has ended is finalized:
it gets a report, a drill is torn down if asked for, and the plan an assurance verdict.

`enqueue_fn` is a parameter, as in the source.
-/

namespace RestoreEngine

open Effects Prog

/-- An `enqueue_fn`. -/
abbrev EnqueueFn := EnqueueRequest → Prog EnqueueResult

/-! ### Finalizing -/

/-- `_send_plan_run_notification`. -/
def sendPlanRunNotification (run : PlanRun) : Prog Unit := do
  let _ ← aggregatePlanRun run
  issue (.notify run.id)
  let _ ← savePlanRun { run with notificationSent := true }
  return ()

/-- `get_plan_run(run["id"]) or run`. -/
def reload (run : PlanRun) : Prog PlanRun := do
  return (← getRun run.id).getD run

/-- The automatic teardown of a run that has not been torn down; its exceptions are
swallowed. -/
def autoTeardown (run : PlanRun) : Prog Unit :=
  if run.autoTeardown ∧ run.teardownStatus = .UNSET then do
    let _ ← (teardownPlanRun run).attempt
    return ()
  else return ()

/-- The notification of a run that has none yet. -/
def notifyOnce (run : PlanRun) : Prog Unit :=
  if run.notificationSent then return () else sendPlanRunNotification run

/-- The verdict on a run and its notification, each on a fresh copy of the record; the
exceptions of the verdict are swallowed. -/
def judgeRun (run : PlanRun) : Prog PlanRun := do
  let run ← reload run
  let _ ← (applyAssuranceFromRun run).attempt
  let run ← reload run
  notifyOnce run
  reload run

/-- The part of `_finalize_plan_run_report` that follows the report. -/
def settleRun (run : PlanRun) : Prog PlanRun := do
  autoTeardown run
  judgeRun run

/-- The report of a run, and its place in the run and in the plan. -/
def attachReport (cfg : Config) (run : PlanRun) : Prog PlanRun := do
  let aggregated ← aggregatePlanRun run
  let plan ← getPlan run.planId
  let rep ← saveRunReport cfg aggregated
  let run := { run with reportId := some rep.id, rtoSec := rep.rtoSec }
  let _ ← savePlanRun run
  match plan with
  | none => return run
  | some plan => do
    setPlan { plan with lastRunReportId := some rep.id }
    return run

/-- `_finalize_plan_run_report`. -/
def finalizePlanRunReport (cfg : Config) (run : PlanRun) : Prog PlanRun :=
  match run.reportId with
  | some _ => settleRun run
  | none => do settleRun (← attachReport cfg run)

/-! ### Requests of a plan run -/

/-- `_record_assigned_targets`. -/
def recordAssignedTargets (run : PlanRun) (result : EnqueueResult) : PlanRun :=
  let nodes := result.proxmoxNodesAssigned.map Text.strip
  let assigned := result.proxmoxVmidsAssigned.mapIdx fun i vmid =>
    { vmid, node := nodes.getD i "" : Target }
  let targets := run.assignedTargets ++ assigned
  let ids := (targets.map (·.vmid)).filter (· ≠ 0)
  { run with
    assignedTargets := targets
    nextVmid := match ids.max? with | some top => some (top + 1) | none => run.nextVmid }

/-- The jobs of an enqueued group, entered into the run. -/
def recordGroup (run : PlanRun) (idx : ℕ) (result : EnqueueResult) : PlanRun :=
  recordAssignedTargets { run with jobIdsByGroup := run.jobIdsByGroup.set idx result.jobIds }
    result

/-- `x or y` for numbers. -/
def orElse (x y : ℤ) : ℤ := if x ≠ 0 then x else y

namespace PlanRun

/-- The request by which a tick enqueues the group at `idx`. -/
def request (run : PlanRun) (idx : ℕ) (rows : List Row) : EnqueueRequest :=
  let nodes := if run.nodes = [] ∧ run.node ≠ "" then [run.node] else run.nodes
  { rows
    node := if run.node ≠ "" then run.node else nodes.headD ""
    nodes
    targetStorage := run.storage
    storageByNode := run.storageByNode
    vmidStart := orElse (run.nextVmid.getD 0) (orElse run.vmidStart 100)
    liveRestore := run.liveRestore
    bwlimit := run.bwlimit
    restoreMode := if run.restoreMode = "" then "normal" else run.restoreMode
    planRunId := some run.id
    planGroupIndex := some idx
    powerOn := run.powerOn
    qgaWaitSec := run.qgaWaitSec
    networkMode := if run.networkMode = "" then "none" else run.networkMode
    labBridge := run.labBridge
    overwrite := run.overwrite
    httpCheckUrl := run.httpCheckUrl }

/-- The jobs of the group at `idx`. -/
def jobsAt (run : PlanRun) (idx : ℕ) : List Uuid := run.jobIdsByGroup.getD idx []

/-- The rows of the group at `idx` that are stashed for enqueueing. -/
def rowsAt (run : PlanRun) (idx : ℕ) : List Row := run.pending.getD idx []

/-- The first group from `idx` on with jobs or stashed rows, among `fuel` groups. -/
def nextGroup (run : PlanRun) : (fuel idx : ℕ) → ℕ
  | 0, idx => idx
  | fuel + 1, idx =>
    if idx < run.jobIdsByGroup.length ∧ run.jobsAt idx = [] ∧ run.rowsAt idx = [] then
      run.nextGroup fuel (idx + 1)
    else idx

end PlanRun

/-! ### Starting a run -/

/-- The arguments of `start_plan_run` besides the plan, the location and the rows. -/
structure StartOptions where
  cutoff : String := ""
  drill : Bool := false
  autoTeardown : Bool := false
  poweredOff : Option Bool := none
  powerOn : Bool := false
  qgaWaitSec : ℤ := 0
  overwrite : Bool := false
  deriving DecidableEq

namespace StartOptions

/-- `qga_sec`: a recovery run that powers its guests on takes the location's default. -/
def qgaSec (opts : StartOptions) (location : Location) : ℤ :=
  let asked := max 0 opts.qgaWaitSec
  if !opts.drill && asked ≤ 0 && (opts.powerOn || location.powerOn) then
    max 0 location.qgaWaitSec
  else asked

/-- `do_power_on`: drills ignore the location's default. -/
def doPowerOn (opts : StartOptions) (location : Location) : Bool :=
  opts.powerOn || (!opts.drill && location.powerOn) || decide (0 < opts.qgaSec location)

/-- `powered_off`. -/
def off (opts : StartOptions) (location : Location) : Bool :=
  !opts.doPowerOn location && opts.poweredOff.getD opts.drill

/-- `live`. -/
def live (opts : StartOptions) (location : Location) : Bool :=
  location.liveRestore && !opts.off location

end StartOptions

/-- `_normalize_network_mode`. -/
def normalizeNetworkMode (raw : String) : String :=
  let mode := Text.lower (Text.strip (if raw = "" then "none" else raw))
  if mode ∈ ["none", "unlink", "remap"] then mode else "none"

namespace Location

/-- The nodes of a location. -/
def nodeList (location : Location) : List String :=
  if location.nodes = [] then [location.node] else location.nodes

/-- The restore mode of a location, as a run stores it. -/
def mode (location : Location) : String :=
  let mode := Text.lower
    (Text.strip (if location.restoreMode = "" then "normal" else location.restoreMode))
  if mode = "" then "normal" else mode

end Location

/-- The record of a run that is about to enqueue the group at `startIdx`. -/
def newRun (id : Uuid) (plan : Plan) (location : Location) (opts : StartOptions) (now : Instant)
    (startIdx : ℕ) : PlanRun :=
  { id
    planId := plan.id
    planName := plan.name
    cutoff := opts.cutoff
    status := .RUNNING
    locationId := location.id
    locationName := location.name
    node := location.node
    nodes := location.nodeList
    storage := location.storage
    storageByNode := location.storageByNode
    vmidStart := location.vmidStart
    bwlimit := location.bwlimit
    liveRestore := opts.live location
    poweredOff := opts.off location
    powerOn := opts.doPowerOn location
    qgaWaitSec := opts.qgaSec location
    networkMode := normalizeNetworkMode location.networkMode
    labBridge := Text.strip location.labBridge
    httpCheckUrl := Text.strip location.httpCheckUrl
    overwrite := opts.overwrite
    drill := opts.drill
    autoTeardown := opts.autoTeardown && opts.drill
    restoreMode := location.mode
    haltOnError := plan.haltOnError
    groupIds := plan.groupIds
    jobIdsByGroup := plan.groupIds.map fun _ => []
    currentGroupIndex := startIdx
    startedAt := some now }

/-- The request by which `start_plan_run` enqueues the group at `startIdx`. -/
def startRequest (run : PlanRun) (location : Location) (startIdx : ℕ) (rows : List Row) :
    EnqueueRequest :=
  { rows
    node := location.node
    nodes := location.nodeList
    targetStorage := location.storage
    storageByNode := location.storageByNode
    vmidStart := location.vmidStart
    liveRestore := run.liveRestore
    bwlimit := location.bwlimit
    restoreMode := if location.restoreMode = "" then "normal" else location.restoreMode
    planRunId := some run.id
    planGroupIndex := some startIdx
    powerOn := run.powerOn
    qgaWaitSec := run.qgaWaitSec
    networkMode := run.networkMode
    labBridge := run.labBridge
    overwrite := run.overwrite
    httpCheckUrl := run.httpCheckUrl }

/-- The checks of `start_plan_run`; the result is the index of the first group with rows. -/
def firstGroup (plan : Plan) (groupRows : List (List Row)) : Except Exn ℕ :=
  if groupRows.length ≠ plan.groupIds.length then
    .error (.valueError "group_rows length must match plan.group_ids")
  else
    match groupRows.findIdx? (· ≠ []) with
    | none => .error (.valueError "plan resolved to zero backups")
    | some startIdx => .ok startIdx

/-- A row as it is stashed on the run: it has no `source_id`, and everything else that a job is
made of. -/
def Row.stashed (row : Row) : Row :=
  { backupId := row.backupId
    vmid := row.vmid
    name := row.name
    timestamp := row.timestamp
    pveStorage := row.pveStorage
    voltail := row.voltail
    sourceLabel := row.sourceLabel
    sizeBytes := row.sizeBytes }

/-- The stashed rows of all groups. -/
def stashed (groupRows : List (List Row)) : List (List Row) := groupRows.map (·.map Row.stashed)

/-- The rows of all groups as they are stashed on the run. -/
def stashRows (groupRows : List (List Row)) : Except Exn (List (List Row)) :=
  if groupRows.flatten.all (·.vmid.isSome) then .ok (stashed groupRows)
  else .error (.keyError "'vmid'")

/-- The part of `start_plan_run` that follows the first save of the run. -/
def enqueueFirst (enqueueFn : EnqueueFn) (run : PlanRun) (location : Location)
    (startIdx : ℕ) (groupRows : List (List Row)) : Prog PlanRun := do
  let result ← enqueueFn (startRequest run location startIdx (groupRows.getD startIdx []))
  let run := recordGroup run startIdx result
  let run := { run with nextVmid := some (orElse (run.nextVmid.getD 0) location.vmidStart) }
  let _ ← savePlanRun run
  let stash ← Program.ofExcept (stashRows groupRows)
  savePlanRun { run with pendingGroupRows := some stash }

/-- **`start_plan_run`.** -/
def startPlanRun (enqueueFn : EnqueueFn) (plan : Plan) (location : Location)
    (groupRows : List (List Row)) (opts : StartOptions) : Prog PlanRun := do
  let startIdx ← Program.ofExcept (firstGroup plan groupRows)
  let runId ← uuid4
  let now ← utcNow
  let run ← savePlanRun (newRun runId plan location opts now startIdx)
  let run ← enqueueFirst enqueueFn run location startIdx groupRows
  setPlan { plan with
    lastRunAt := some now
    verification := if plan.verification = .VERIFIED then .NEEDS_VERIFIED else plan.verification }
  return run

/-! ### Advancing runs -/

/-- End a run: store its last record and finalize it. -/
def endRun (cfg : Config) (run : PlanRun) : Prog Bool := do
  let now ← utcNow
  let run ← savePlanRun { run with finishedAt := some now }
  let _ ← finalizePlanRunReport cfg run
  return true

/-- Enqueue the group at `idx` from the stashed rows. -/
def enqueueGroup (enqueueFn : EnqueueFn) (run : PlanRun) (idx : ℕ) : Prog Bool := do
  if run.rowsAt idx = [] then do
    let _ ← savePlanRun { run with currentGroupIndex := idx + 1 }
    return true
  else do
    let result ← enqueueFn (run.request idx (run.rowsAt idx))
    let _ ← savePlanRun { recordGroup run idx result with currentGroupIndex := idx }
    return true

/-- The states of jobs; a job that is not there counts as PENDING. -/
def jobStates : List Uuid → Prog (List RestoreState)
  | [] => return []
  | id :: rest => do
    let data := (← hgetall id).getD {}
    let states ← jobStates rest
    return data.stateOrPending :: states

/-- What to do with a run whose group at `idx` has ended with `states`: the record that ends
the run, or the index of the group to go on with. -/
def PlanRun.outcome (run : PlanRun) (idx : ℕ) (states : List RestoreState) : PlanRun ⊕ ℕ :=
  let failed := states.countP (· = .FAILED)
  if 0 < failed ∧ run.haltOnError then
    .inl { run with
      status := .FAILED
      error := s!"{failed} job(s) failed in group index {idx}" }
  else if .CANCELLED ∈ states ∧ .COMPLETED ∉ states ∧
      (∀ s ∈ states, s = .CANCELLED ∨ s = .FAILED) then
    .inl { run with status := .CANCELLED }
  else
    let nextIdx := run.nextGroup run.jobIdsByGroup.length (idx + 1)
    if run.jobIdsByGroup.length ≤ nextIdx then
      .inl { run with status := .COMPLETED, currentGroupIndex := nextIdx }
    else .inr nextIdx

/-- Advance a run whose current group, at `idx`, has jobs. -/
def awaitGroup (cfg : Config) (run : PlanRun) (idx : ℕ) : Prog Bool := do
  let states ← jobStates (run.jobsAt idx)
  if states.all (·.IsTerminal) then
    match run.outcome idx states with
    | .inl ended => endRun cfg ended
    | .inr nextIdx => do
      let _ ← savePlanRun { run with currentGroupIndex := nextIdx }
      return true
  else return false

/-- The body of `advance_plan_runs` for a RUNNING run. -/
def advanceRunning (cfg : Config) (enqueueFn : EnqueueFn) (run : PlanRun) : Prog Bool :=
  let idx := run.nextGroup run.jobIdsByGroup.length run.currentGroupIndex
  if run.jobIdsByGroup.length ≤ idx then
    endRun cfg { run with status := .COMPLETED, currentGroupIndex := idx }
  else if run.jobsAt idx = [] then enqueueGroup enqueueFn run idx
  else awaitGroup cfg run idx

/-- The body of `advance_plan_runs` for an id of the active set; the result tells whether the
run was touched. -/
def advanceRun (cfg : Config) (enqueueFn : EnqueueFn) (runId : Uuid) : Prog Bool := do
  match (← getRun runId).filter (·.status = .RUNNING) with
  | none => do
    issue (.dropActive runId)
    return false
  | some run => advanceRunning cfg enqueueFn run

/-- The loop of `advance_plan_runs`. -/
def advanceRuns (cfg : Config) (enqueueFn : EnqueueFn) : List Uuid → Prog ℕ
  | [] => return 0
  | runId :: rest => do
    let touched ← advanceRun cfg enqueueFn runId
    let others ← advanceRuns cfg enqueueFn rest
    return touched.toNat + others

/-- **`advance_plan_runs`.** -/
def advancePlanRuns (cfg : Config) (enqueueFn : EnqueueFn) : Prog ℕ := do
  advanceRuns cfg enqueueFn (← issue .activeRuns)

/-- The ticks of a worker, one after the other; an exception ends a tick, not the worker. -/
def workerTicks (cfg : Config) (enqueueFn : EnqueueFn) : ℕ → Prog Unit
  | 0 => return ()
  | n + 1 => do
    let _ ← (advancePlanRuns cfg enqueueFn).attempt
    workerTicks cfg enqueueFn n

/-! ### Cancelling -/

/-- The cancelling of one job: a PENDING one is cancelled and leaves the queue, a RESTORING
one is asked to stop. The result counts the two cases. -/
def cancelJob (id : Uuid) : Prog (ℕ × ℕ) := do
  match (← hgetall id).map Job.stateOrPending with
  | some .PENDING => do
    hsetLrem id fun now j =>
      { j with
        state := some .CANCELLED
        updatedAt := some now
        error := "Cancelled with plan run"
        cancelRequested := true }
    return (1, 0)
  | some .RESTORING => do
    hset id fun now j => { j with cancelRequested := true, updatedAt := some now }
    return (0, 1)
  | _ => return (0, 0)

/-- The loop of `cancel_plan_run` over the jobs. -/
def cancelJobs : List Uuid → Prog (ℕ × ℕ)
  | [] => return (0, 0)
  | id :: rest => do
    let one ← cancelJob id
    let others ← cancelJobs rest
    return (one.1 + others.1, one.2 + others.2)

/-- `cancel_plan_run`. -/
def cancelPlanRun (cfg : Config) (runId : Uuid) : Prog AggregatedRun := do
  match ← getRun runId with
  | none => .raise (.valueError s!"Plan run not found: {runId}")
  | some run =>
    if run.status ≠ .RUNNING then aggregatePlanRun run
    else do
      let stats ← cancelJobs run.jobIdsByGroup.flatten
      let now ← utcNow
      let run ← savePlanRun { run with
        pendingGroupRows := some []
        status := .CANCELLED
        finishedAt := some now
        error := if run.error = "" then "Cancelled by operator" else run.error
        cancelStats := some stats }
      let _ ← finalizePlanRunReport cfg run
      aggregatePlanRun (← reload run)

end RestoreEngine
