import Mathlib.Data.Int.Notation
import Mathlib.Data.Nat.Notation

/-!
# States and stored records

The enumerations of `states.py` and the records the program keeps in Redis: job hashes, plan
runs, plans, reports, and the inputs they are built from (inventory rows, locations).

A record carries the fields that some modelled function reads or writes. Job hashes are
written field by field, so a hash may lack fields: a missing field has the value that the
reader's `data.get(field, default)` supplies, and `none` where the reader tells absence from
presence. Instants are microseconds; `none` is the empty timestamp. Identifiers made by
`uuid4` are natural numbers.
-/

namespace RestoreEngine

/-- A value of `uuid4`. -/
abbrev Uuid := ℕ

/-- A point in time, in microseconds. -/
abbrev Instant := ℤ

/-! ### Enumerations -/

inductive RestoreState
  | PENDING | RESTORING | COMPLETED | FAILED | CANCELLED
  deriving DecidableEq

namespace RestoreState

/-- `TERMINAL_JOB_STATES`. -/
def IsTerminal : RestoreState → Bool
  | COMPLETED | FAILED | CANCELLED => true
  | PENDING | RESTORING => false

end RestoreState

inductive PlanVerification
  | NOT_VERIFIED | NEEDS_VERIFIED | VERIFIED
  deriving DecidableEq

inductive PlanAssurance
  | UNKNOWN | IN_PROGRESS | ASSURED | FAILED
  deriving DecidableEq

inductive PlanRunStatus
  | RUNNING | COMPLETED | FAILED | CANCELLED
  deriving DecidableEq

def PlanRunStatus.text : PlanRunStatus → String
  | RUNNING => "RUNNING"
  | COMPLETED => "COMPLETED"
  | FAILED => "FAILED"
  | CANCELLED => "CANCELLED"

/-- The values of `teardown_status`; the text of `PARTLY` is `partial`. -/
inductive TeardownStatus
  | UNSET | COMPLETED | FAILED | PARTLY
  deriving DecidableEq

def TeardownStatus.text : TeardownStatus → String
  | UNSET => ""
  | COMPLETED => "completed"
  | FAILED => "failed"
  | PARTLY => "partial"

/-- The exceptions the program tells apart, each with the text that `str(exc)` gives. -/
inductive Exn
  | runtimeError (text : String)
  | valueError (text : String)
  | typeError (text : String)
  | keyError (text : String)
  | guestOwnershipError (text : String)
  | taskCancelled (text : String)
  | timeoutError (text : String)
  | httpException (status : ℕ) (detail : String)
  /-- Whatever a client library raises. -/
  | api (text : String)
  deriving DecidableEq

def Exn.text : Exn → String
  | runtimeError t | valueError t | typeError t | keyError t | guestOwnershipError t
  | taskCancelled t | timeoutError t | api t => t
  | httpException status detail => s!"{status}: {detail}"

/-! ### Inputs -/

/-- The settings of `config.yaml` that the modelled functions read. -/
structure Config where
  jobTtlSec : ℤ := 14 * 86400
  taskTimeoutSec : ℤ := 0
  reportRetain : ℕ := 20
  /-- `worker.plan_check_interval_sec`. -/
  planCheckIntervalSec : ℤ := 86400
  /-- `proxmox.default_node`. -/
  defaultNode : String := ""
  /-- `worker.qga_wait_sec_default`. -/
  qgaWaitSecDefault : ℤ := 120
  /-- `plans.require_verified_to_run`, and the older place of that setting. -/
  plansRequireVerified : Option Bool := none
  workerRequireVerified : Option Bool := none

/-- A backup of the inventory, as a restore consumes it. `vmid` is `none` where the row has no
source VMID. -/
structure Row where
  backupId : String
  vmid : Option ℤ
  name : String := ""
  timestamp : String := ""
  pveStorage : String
  voltail : String
  sourceId : String := ""
  sourceLabel : String := ""
  sizeBytes : ℤ := 0
  deriving DecidableEq

/-- A recovery location. -/
structure Location where
  id : Uuid
  name : String := ""
  node : String
  nodes : List String := []
  storage : String
  storageByNode : List (String × String) := []
  vmidStart : ℤ := 100
  bwlimit : ℤ := 0
  liveRestore : Bool := false
  restoreMode : String := "normal"
  powerOn : Bool := false
  qgaWaitSec : ℤ := 0
  networkMode : String := "none"
  labBridge : String := ""
  isolated : Bool := false
  httpCheckUrl : String := ""
  deriving DecidableEq

/-- An inclusive range of VMIDs. -/
structure VmidRange where
  first : ℤ
  last : ℤ
  deriving DecidableEq

/-- An inventory group: the selectors of its members, and what is left out again. -/
structure Group where
  id : Uuid
  name : String
  tags : List String := []
  sourceIds : List String := []
  vmids : List ℤ := []
  namePatterns : List String := []
  vmidRanges : List VmidRange := []
  excludeVmids : List ℤ := []
  excludeNamePatterns : List String := []
  deriving DecidableEq

/-! ### Job hashes -/

/-- A job hash. `{}` is the hash without fields. -/
structure Job where
  state : Option RestoreState := none
  backupId : Option String := none
  vmName : String := ""
  sourceVmid : Option ℤ := none
  sourceLabel : String := ""
  proxmoxVmid : Option ℤ := none
  proxmoxNode : Option String := none
  proxmoxStorage : Option String := none
  liveRestore : Bool := false
  poweredOff : Bool := false
  powerOn : Bool := false
  qgaWaitSec : ℤ := 0
  qgaOk : String := ""
  qgaWaitedSec : String := ""
  networkMode : String := "none"
  labBridge : String := ""
  overwrite : Bool := false
  httpCheckUrl : String := ""
  httpCheckOk : String := ""
  bwlimit : ℤ := 0
  restoreMode : String := "normal"
  unique : Bool := true
  force : Bool := true
  archive : String := ""
  backupSizeBytes : ℤ := 0
  error : String := ""
  createdAt : Option Instant := none
  updatedAt : Option Instant := none
  planRunId : Option Uuid := none
  planGroupIndex : Option ℕ := none
  cancelRequested : Bool := false
  pveUpid : String := ""
  restoreStartedAt : Option Instant := none
  managedMarked : String := ""
  pveName : String := ""
  guestHostname : String := ""
  hostnameMatch : String := ""
  hostnameWarning : String := ""
  deriving DecidableEq

namespace Job

/-- The state that `data.get("state") or PENDING` reads. -/
def stateOrPending (j : Job) : RestoreState := j.state.getD .PENDING

/-- The job is in one of the states COMPLETED, FAILED, CANCELLED. -/
def IsTerminal (j : Job) : Prop := ∃ s, j.state = some s ∧ s.IsTerminal = true

/-- The job is PENDING or RESTORING. -/
def IsLive (j : Job) : Prop := j.state = some .PENDING ∨ j.state = some .RESTORING

instance (j : Job) : Decidable j.IsLive := inferInstanceAs (Decidable (_ ∨ _))

end Job

/-! ### Plan runs, plans and reports -/

/-- A restored guest that a plan run remembers for its teardown. -/
structure Target where
  vmid : ℤ
  node : String
  deriving DecidableEq

/-- What a teardown did with one target. -/
structure TeardownEntry where
  vmid : ℤ
  node : String
  ok : Bool := false
  error : String := ""
  deriving DecidableEq

/-- A plan run. `pendingGroupRows` and `nextVmid` are absent from the first record of a
run. -/
structure PlanRun where
  id : Uuid
  planId : Uuid
  planName : String := ""
  cutoff : String := ""
  status : PlanRunStatus
  locationId : Uuid
  locationName : String := ""
  node : String
  nodes : List String
  storage : String
  storageByNode : List (String × String) := []
  vmidStart : ℤ
  bwlimit : ℤ := 0
  liveRestore : Bool := false
  poweredOff : Bool := false
  powerOn : Bool := false
  qgaWaitSec : ℤ := 0
  networkMode : String := "none"
  labBridge : String := ""
  httpCheckUrl : String := ""
  overwrite : Bool := false
  drill : Bool := false
  autoTeardown : Bool := false
  restoreMode : String := "normal"
  haltOnError : Bool := true
  groupIds : List Uuid
  jobIdsByGroup : List (List Uuid)
  assignedTargets : List Target := []
  teardownStatus : TeardownStatus := .UNSET
  teardownResults : List TeardownEntry := []
  currentGroupIndex : ℕ := 0
  startedAt : Option Instant := none
  finishedAt : Option Instant := none
  error : String := ""
  nextVmid : Option ℤ := none
  pendingGroupRows : Option (List (List Row)) := none
  reportId : Option Uuid := none
  rtoSec : Option ℤ := none
  notificationSent : Bool := false
  assuranceEvaluated : Bool := false
  assuranceStatus : Option PlanAssurance := none
  assuranceDetail : String := ""
  cancelStats : Option (ℕ × ℕ) := none
  teardownAt : Option Instant := none
  deriving DecidableEq

/-- The rows still to be enqueued, `run.get("pending_group_rows") or []`. -/
def PlanRun.pending (run : PlanRun) : List (List Row) := run.pendingGroupRows.getD []

/-- The text of a point in time: what `fromisoformat` makes of it. -/
inductive IsoTime
  | empty
  | malformed
  /-- Without an offset. -/
  | naive (t : Instant)
  /-- With an offset. -/
  | zoned (t : Instant)
  deriving DecidableEq

/-- How a readiness check comments on one of its points. -/
inductive CheckLevel
  | ok | warn | error
  deriving DecidableEq

/-- A point of a readiness check. -/
structure CheckItem where
  level : CheckLevel
  code : String
  message : String
  detail : String := ""
  deriving DecidableEq

/-- The result of a readiness check. -/
structure Check where
  ok : Bool
  checkedAt : Instant
  cutoff : String
  summary : String
  memberCount : ℕ
  items : List CheckItem
  deriving DecidableEq

/-- A recovery plan. -/
structure Plan where
  id : Uuid
  name : String := ""
  groupIds : List Uuid
  locationId : Uuid
  haltOnError : Bool := true
  enabled : Bool := true
  verification : PlanVerification := .NOT_VERIFIED
  scheduleEnabled : Bool := false
  scheduleIntervalHours : ℕ := 0
  scheduleDrill : Bool := true
  lastScheduledRunAt : IsoTime := .empty
  assuranceEnabled : Bool := false
  assuranceRequireQga : Bool := false
  assuranceRequireHttp : Bool := false
  assuranceMaxRtoSec : ℤ := 0
  assuranceStatus : PlanAssurance := .UNKNOWN
  assuranceUpdatedAt : Option Instant := none
  assuranceLastRunId : Option Uuid := none
  assuranceLastRtoSec : Option ℤ := none
  assuranceDetail : String := ""
  lastRunAt : Option Instant := none
  lastRunReportId : Option Uuid := none
  lastCheckAt : IsoTime := .empty
  lastCheck : Option Check := none
  lastCheckReportId : Option Uuid := none
  deriving DecidableEq

/-- The metadata of a report: of the run that it describes, or of the readiness check. -/
inductive ReportMeta
  | run (runId : Uuid) (status : PlanRunStatus) (rtoSec : Option ℤ)
      (jobCount completedJobs failedJobs : ℕ) (drill : Bool) (teardownStatus : TeardownStatus)
  | check (ok : Bool) (verification : PlanVerification) (checkedAt : Instant)
      (memberCount : ℕ) (summary : String)
  deriving DecidableEq

/-- A stored report: its identity and its metadata. -/
structure Report where
  id : Uuid
  planId : Uuid
  metadata : ReportMeta
  deriving DecidableEq

end RestoreEngine
