import RestoreEngine.Model.World
import RestoreEngine.Model.PveClient

/-!
# Run reports and the assurance verdict

`aggregate_plan_run` collects the jobs of a plan run into records, `save_run_report` stores
what a report says about them, and `apply_assurance_from_run` has `evaluate_assurance_policy`
judge a drill run on them and stores the verdict in the plan.

Of a report only its identity and its metadata are kept, not the rendered text.
-/

namespace RestoreEngine

open Effects Prog

/-! ### Records of jobs -/

/-- A job record as a dictionary: `none` is a missing key. -/
structure JobRecord where
  jobId : Uuid
  groupIndex : Option ℕ := none
  state : Option RestoreState := none
  vmName : String := ""
  sourceVmid : ℤ := 0
  /-- `proxmox_vmid` as text, empty where Python takes its value for false. -/
  proxmoxVmid : String := ""
  error : String := ""
  archive : String := ""
  backupId : String := ""
  powerOn : Bool := false
  qgaOk : Option String := none
  qgaWaitedSec : String := ""
  restoreStartedAt : Option Instant := none
  updatedAt : Option Instant := none
  httpCheckUrl : Option String := none
  httpCheckOk : Option String := none
  hostnameMatch : Option String := none
  hostnameWarning : Option String := none
  deriving DecidableEq

/-- The entry that `aggregate_plan_run` makes of a job hash. -/
def summaryOf (id : Uuid) (groupIndex : ℕ) (data : Job) : JobRecord :=
  { jobId := id
    groupIndex := some groupIndex
    state := data.state
    vmName := data.vmName
    sourceVmid := data.sourceVmid.getD 0
    proxmoxVmid := if data.proxmoxVmid.getD 0 = 0 then "" else toString (data.proxmoxVmid.getD 0)
    error := data.error
    archive := data.archive
    backupId := data.backupId.getD ""
    powerOn := data.powerOn
    qgaOk := some data.qgaOk
    qgaWaitedSec := data.qgaWaitedSec
    restoreStartedAt := data.restoreStartedAt
    updatedAt := data.updatedAt }

/-- A job hash as a record, with all that is stored in it. -/
def recordOf (id : Uuid) (data : Job) : JobRecord :=
  { jobId := id
    groupIndex := data.planGroupIndex
    state := data.state
    vmName := data.vmName
    sourceVmid := data.sourceVmid.getD 0
    proxmoxVmid := (data.proxmoxVmid.map toString).getD ""
    error := data.error
    archive := data.archive
    backupId := data.backupId.getD ""
    powerOn := data.powerOn
    qgaOk := some data.qgaOk
    qgaWaitedSec := data.qgaWaitedSec
    restoreStartedAt := data.restoreStartedAt
    updatedAt := data.updatedAt
    httpCheckUrl := some data.httpCheckUrl
    httpCheckOk := some data.httpCheckOk
    hostnameMatch := some data.hostnameMatch
    hostnameWarning := some data.hostnameWarning }

/-! ### The aggregated run -/

/-- `wall_clock_rto_sec`. -/
def wallClockRtoSec (startedAt finishedAt : Option Instant) : Option ℤ :=
  match startedAt, finishedAt with
  | some start, some finish => some (max 0 ((finish - start) / second))
  | _, _ => none

/-- A plan run with its jobs, as `aggregate_plan_run` returns it. -/
structure AggregatedRun where
  run : PlanRun
  jobs : List JobRecord
  jobCount : ℕ
  completedJobs : ℕ
  failedJobs : ℕ
  rtoSec : Option ℤ
  deriving DecidableEq

/-- The job ids of a run with the indices of their groups. -/
def groupedJobs : ℕ → List (List Uuid) → List (Uuid × ℕ)
  | _, [] => []
  | i, ids :: rest => ids.map (·, i) ++ groupedJobs (i + 1) rest

/-- The loop of `aggregate_plan_run` over the job hashes. -/
def summarize : List (Uuid × ℕ) → Prog (List JobRecord)
  | [] => return []
  | (id, i) :: rest => do
    let data := (← hgetall id).getD {}
    let jobs ← summarize rest
    return summaryOf id i data :: jobs

/-- `aggregate_plan_run`. -/
def aggregatePlanRun (run : PlanRun) : Prog AggregatedRun := do
  let jobs ← summarize (groupedJobs 0 run.jobIdsByGroup)
  return {
    run, jobs
    jobCount := jobs.length
    completedJobs := jobs.countP fun j => j.state = some .COMPLETED
    failedJobs := jobs.countP fun j => j.state = some .FAILED
    rtoSec := wallClockRtoSec run.startedAt run.finishedAt }

/-- `save_plan_run`: the record, and its place in the active set. -/
def savePlanRun (run : PlanRun) : Prog PlanRun := do
  setRun run
  return run

/-! ### Reports -/

/-- `_trim_reports`. -/
def trimReports (cfg : Config) : Prog Unit := do
  let limit := max 1 cfg.reportRetain
  let total := (← issue .reportIds).length
  if total ≤ limit then return ()
  else do
    let oldest := (← issue .reportIds).take (total - limit)
    if oldest = [] then return () else issue (.dropReports oldest)

/-- `save_report`. -/
def saveReport (cfg : Config) (planId : Uuid) (metadata : ReportMeta) : Prog Report := do
  let reportId ← uuid4
  let rep : Report := { id := reportId, planId, metadata }
  issue (.addReport rep)
  trimReports cfg
  return rep

/-- `save_run_report`. -/
def saveRunReport (cfg : Config) (run : AggregatedRun) : Prog Report :=
  saveReport cfg run.run.planId (.run run.run.id run.run.status
    (wallClockRtoSec run.run.startedAt run.run.finishedAt) run.jobCount run.completedJobs
    run.failedJobs run.run.drill run.run.teardownStatus)

/-- The time objective that a report records. -/
def Report.rtoSec (rep : Report) : Option ℤ :=
  match rep.metadata with
  | .run _ _ rtoSec _ _ _ _ _ => rtoSec
  | .check _ _ _ _ _ => none

/-! ### The policy -/

/-- The run must be COMPLETED. -/
def statusFailure (run : PlanRun) : Option String :=
  if run.status = .COMPLETED then none else some s!"run status {run.status.text}"

/-- A teardown that left a status must have completed. -/
def teardownFailure (run : PlanRun) : Option String :=
  if run.autoTeardown ∧ run.teardownStatus ≠ .UNSET ∧ run.teardownStatus ≠ .COMPLETED then
    some s!"teardown {run.teardownStatus.text}"
  else none

/-- The guest agent must have answered in every job. -/
def qgaFailure (plan : Plan) (jobs : List JobRecord) : Option String :=
  if !plan.assuranceRequireQga then none
  else if jobs = [] then some "no jobs to verify QGA"
  else if jobs.any fun j => j.qgaOk ≠ some "1" then
    some "QGA check failed or missing on one or more jobs"
  else none

/-- What the first job without a passed HTTP check lacks. -/
def httpFailureOf : List JobRecord → Option String
  | [] => none
  | j :: rest =>
    if Text.strip (j.httpCheckUrl.getD "") = "" then
      some "HTTP check required but no http_check_url on jobs"
    else if j.httpCheckOk ≠ some "1" then
      some "HTTP check failed or missing on one or more jobs"
    else httpFailureOf rest

/-- The HTTP check must have passed in every job. -/
def httpFailure (plan : Plan) (jobs : List JobRecord) : Option String :=
  if !plan.assuranceRequireHttp then none
  else if jobs = [] then some "no jobs to verify HTTP"
  else httpFailureOf jobs

/-- The run must have met the recovery time objective. -/
def rtoFailure (plan : Plan) (rto : Option ℤ) : Option String :=
  let maxRto := max 0 plan.assuranceMaxRtoSec
  if maxRto = 0 then none
  else
    match rto with
    | none => some s!"RTO unknowns exceeds max {maxRto}s"
    | some sec => if maxRto < sec then some s!"RTO {sec}s exceeds max {maxRto}s" else none

/-- The warning about the host name of one job. -/
def hostnameWarningOf (j : JobRecord) : Option String :=
  let warn := Text.strip (j.hostnameWarning.getD "")
  if warn ≠ "" then some warn
  else if j.hostnameMatch = some "0" then
    let shown := if j.proxmoxVmid = "" then toString j.jobId else j.proxmoxVmid
    some s!"hostname mismatch on VMID {shown}"
  else none

/-- The detail of a passed drill. -/
def passedDetail (jobs : List JobRecord) : String :=
  match jobs.filterMap hostnameWarningOf with
  | [] => "drill completed within policy"
  | warnings => "drill completed within policy" ++ "; warnings: " ++ Text.join "; " warnings

/-- The checks of the policy, in order. -/
def policyFailure (plan : Plan) (run : PlanRun) (jobs : List JobRecord) : Option String :=
  (statusFailure run).or <| (teardownFailure run).or <| (qgaFailure plan jobs).or <|
    (httpFailure plan jobs).or <|
      rtoFailure plan (wallClockRtoSec run.startedAt run.finishedAt)

/-- The verdict on a drill, given what the first failing check complains of. -/
def verdictFor (run : PlanRun) (jobs : List JobRecord) :
    Option String → PlanAssurance × String × Option ℤ
  | some detail => (.FAILED, detail, wallClockRtoSec run.startedAt run.finishedAt)
  | none => (.ASSURED, passedDetail jobs, wallClockRtoSec run.startedAt run.finishedAt)

/-- **`evaluate_assurance_policy`.** -/
def evaluateAssurancePolicy (plan : Plan) (run : PlanRun) (jobs : List JobRecord) :
    PlanAssurance × String × Option ℤ :=
  let rto := wallClockRtoSec run.startedAt run.finishedAt
  if !plan.assuranceEnabled then (.UNKNOWN, "assurance disabled", rto)
  else if !run.drill then (.UNKNOWN, "not a drill run", rto)
  else verdictFor run jobs (policyFailure plan run jobs)

/-- An instant, or the present one. -/
def orNow : Option Instant → Prog Instant
  | some t => return t
  | none => utcNow

/-- The storing half of `apply_assurance_from_run`. -/
def storeVerdict (plan : Plan) (run : PlanRun) (verdict : PlanAssurance × String × Option ℤ) :
    Prog Plan := do
  let now ← utcNow
  let lastRunAt ← orNow (plan.lastRunAt.or run.finishedAt)
  let updated : Plan :=
    { plan with
      assuranceStatus := verdict.1
      assuranceUpdatedAt := some now
      assuranceLastRunId := some run.id
      assuranceLastRtoSec := verdict.2.2
      assuranceDetail := verdict.2.1
      lastRunAt := some lastRunAt }
  setPlan updated
  let _ ← savePlanRun { run with
    assuranceEvaluated := true
    assuranceStatus := some verdict.1
    assuranceDetail := verdict.2.1 }
  return updated

/-- **`apply_assurance_from_run`.** -/
def applyAssuranceFromRun (run : PlanRun) : Prog (Option Plan) := do
  if run.assuranceEvaluated then getPlan run.planId
  else do
    let found ← getPlan run.planId
    match found.filter fun plan => plan.assuranceEnabled && run.drill with
    | none => do
      let _ ← savePlanRun { run with assuranceEvaluated := true }
      return found
    | some plan => do
      let aggregated ← aggregatePlanRun run
      some <$> storeVerdict plan run (evaluateAssurancePolicy plan aggregated.run aggregated.jobs)

end RestoreEngine
