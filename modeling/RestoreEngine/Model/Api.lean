import RestoreEngine.Model.Plans

/-!
# `main.py`: requests to the API

The handlers that act on jobs and plan runs. They add the translation of exceptions and the
checks of the request to what `jobs.py` and `plans.py` do.

Which backups there are, which tags a guest had, and which backups the groups of a plan come down
to is not followed here: the handlers take the programs that find it out as `Readers`. The audit
log is left out.
-/

namespace RestoreEngine

open Effects Prog

/-- `_enqueue_restores`: the runtime errors of `enqueue_restores` become HTTP errors. -/
def apiEnqueueRestores (req : EnqueueRequest) : Prog EnqueueResult := do
  match ← (enqueueRestores req).attempt with
  | .ok result => return result
  | .error (.runtimeError msg) =>
    .raise (.httpException (if Text.startsWith msg "Cannot list QEMU" then 503 else 400) msg)
  | .error exc => .raise exc

/-- `stop_job`. -/
def stopJob (id : Uuid) : Prog (Option Job) := do
  match ← hgetall id with
  | none => .raise (.httpException 404 "Job not found")
  | some data =>
    if data.stateOrPending.IsTerminal then return some data
    else do
      hsetLrem id fun _ j => { j with cancelRequested := true }
      if ((← hgetall id).getD {}).state = some .PENDING then
        hset id fun now j => { j with state := some .CANCELLED, updatedAt := some now }
        hgetall id
      else hgetall id

/-! ### Requests -/

/-- What `RestoreSelectedRequest` and `RestoreTagGroupRequest` have in common. -/
structure RestoreRequest where
  proxmoxNode : Option String := none
  proxmoxNodes : List String := []
  proxmoxStorage : Option String := none
  proxmoxStorageByNode : List (String × String) := []
  proxmoxVmidStart : ℕ := 100
  vmidStart_ge : 100 ≤ proxmoxVmidStart := by decide
  liveRestore : Bool := false
  bwlimit : ℕ := 0
  restoreMode : String := "normal"
  powerOn : Bool := false
  qgaWaitSec : ℕ := 0
  qgaWaitSec_le : qgaWaitSec ≤ 3600 := by decide
  networkMode : String := "none"
  labBridge : String := ""
  overwrite : Bool := false
  httpCheckUrl : String := ""
  confirmOverwrite : Bool := false
  allowNonIsolated : Bool := false

/-- `RestoreSelectedRequest`. -/
structure RestoreSelectedRequest extends RestoreRequest where
  backupIds : List String
  backupIds_ne : backupIds ≠ []

/-- `RestoreTagGroupRequest`. -/
structure RestoreTagGroupRequest extends RestoreRequest where
  tag : String
  atOrBefore : String := ""

/-- `PlanRunRequest`. -/
structure PlanRunRequest where
  atOrBefore : String := ""
  locationId : Option Uuid := none
  drill : Bool := false
  autoTeardown : Bool := false
  poweredOff : Option Bool := none
  powerOn : Bool := false
  qgaWaitSec : ℕ := 0
  qgaWaitSec_le : qgaWaitSec ≤ 3600 := by decide
  allowUnverified : Bool := false
  confirmDr : Bool := false
  overwrite : Bool := false
  confirmOverwrite : Bool := false
  allowNonIsolated : Bool := false

/-- `PlanAssureRequest`. -/
structure PlanAssureRequest where
  atOrBefore : String := ""
  allowUnverified : Bool := false
  confirmDr : Bool := false
  allowNonIsolated : Bool := false
  overwrite : Bool := false
  confirmOverwrite : Bool := false

/-- The programs by which the handlers read the inventory and the tags of guests. -/
structure Readers where
  /-- `str.lower`. -/
  lower : String → String
  /-- `list_vm_backups`. -/
  listVmBackups : Prog (List Row)
  /-- `_resolve_tags`: the tags by backup id, with a node that can read them. -/
  resolveTags : List Row → String → Prog (List (String × List String))
  /-- `_resolve_plan_group_rows`: the rows of the groups, for a cutoff and a node. -/
  resolvePlanGroupRows : List Uuid → String → String → Prog (List (List Row))
  /-- The same for a scheduled start, as `_start_scheduled` does it. -/
  resolveScheduledRows : List Uuid → String → Location → Prog (List (List Row))

/-! ### Checks of a request -/

/-- An HTTP error 400. -/
def badRequest (detail : String) : Exn := .httpException 400 detail

/-- The loop of `_dedupe_nodes`. -/
def dedupeFrom (seen : List String) : List String → List String
  | [] => []
  | raw :: rest =>
    let name := Text.strip raw
    if name = "" ∨ name ∈ seen then dedupeFrom seen rest else name :: dedupeFrom (name :: seen) rest

/-- `_dedupe_nodes`. -/
def dedupeNodes (nodes : List String) : List String := dedupeFrom [] nodes

/-- `_resolve_restore_nodes`. -/
def resolveRestoreNodes (cfg : Config) (body : RestoreRequest) : Except Exn (List String) :=
  match dedupeNodes body.proxmoxNodes with
  | [] =>
    let given := body.proxmoxNode.getD ""
    let single := Text.strip (if given = "" then cfg.defaultNode else given)
    if single = "" then
      .error (badRequest "proxmox.default_node, proxmox_node, or proxmox_nodes is required")
    else .ok [single]
  | multi => .ok multi

/-- `_normalize_storage_by_node`. -/
def normalizeStorageByNode (raw : List (String × String)) : List (String × String) :=
  (raw.map fun e => (Text.strip e.1, Text.strip e.2)).filter fun e => e.1 ≠ "" ∧ e.2 ≠ ""

/-- `_require_storage_selection`. -/
def requireStorageSelection (nodes : List String) (body : RestoreRequest) :
    Except Exn (String × List (String × String)) :=
  let byNode := normalizeStorageByNode body.proxmoxStorageByNode
  let default := Text.strip (body.proxmoxStorage.getD "")
  let missing := nodes.filter fun n => n ∉ byNode.map Prod.fst ∧ default = ""
  if missing ≠ [] then
    .error (badRequest ("Select storage for node(s): " ++ Text.join ", " missing))
  else if byNode = [] ∧ default = "" then
    .error (badRequest "proxmox_storage or proxmox_storage_by_node is required")
  else .ok (default, byNode)

/-- `_normalize_net_mode`. -/
def normalizeNetMode (raw : String) : String := normalizeNetworkMode raw

/-- `_assert_overwrite_confirm`. -/
def assertOverwriteConfirm (overwrite confirmOverwrite : Bool) (restoreMode : String) :
    Except Exn Unit :=
  if !overwrite then .ok ()
  else if Text.lower (Text.strip restoreMode) ≠ "dr" then
    .error (badRequest "overwrite is only valid with restore_mode=dr")
  else if !confirmOverwrite then
    .error (badRequest ("DR overwrite requires confirm_overwrite=true. " ++
      "Only guests previously restored by restore-engine can be reclaimed; " ++
      "foreign VMs/LXCs are never deleted."))
  else .ok ()

/-- `_assert_power_on_isolation`. -/
def assertPowerOnIsolation (powerOn : Bool) (qgaWaitSec : ℤ) (liveRestore : Bool)
    (networkMode : String) (isolated allowNonIsolated : Bool) : Except Exn Unit :=
  let wantsBoot := powerOn || decide (0 < qgaWaitSec) || liveRestore
  if !wantsBoot || allowNonIsolated then .ok ()
  else if isolated || decide (normalizeNetMode networkMode ∈ ["unlink", "remap"]) then .ok ()
  else
    .error (badRequest ("Power-on / live-restore / QGA require network isolation " ++
      "(network_mode=unlink|remap or an isolated location), " ++
      "or pass allow_non_isolated=true"))

/-- `normalize_cutoff`. -/
def normalizeCutoff (value : String) : String :=
  let v := Text.strip value
  if v = "" then "9999-12-31T23:59:59Z"
  else if v.length = 10 then v ++ "T23:59:59Z"
  else if v.length = 16 then v ++ ":59Z"
  else if v.toList.getLast? ≠ some 'Z' then v ++ "Z"
  else v

/-! ### Ad hoc restores -/

/-- The request that both handlers make. -/
def RestoreRequest.enqueueRequest (body : RestoreRequest) (rows : List Row) (nodes : List String)
    (storage : String × List (String × String)) : EnqueueRequest :=
  { rows
    nodes
    targetStorage := storage.1
    storageByNode := storage.2
    vmidStart := body.proxmoxVmidStart
    liveRestore := body.liveRestore
    bwlimit := body.bwlimit
    restoreMode := body.restoreMode
    powerOn := body.powerOn
    qgaWaitSec := body.qgaWaitSec
    networkMode := body.networkMode
    labBridge := body.labBridge
    overwrite := body.overwrite
    httpCheckUrl := body.httpCheckUrl }

/-- The two gates of both handlers. -/
def RestoreRequest.gates (body : RestoreRequest) : Except Exn Unit := do
  assertOverwriteConfirm body.overwrite body.confirmOverwrite body.restoreMode
  assertPowerOnIsolation body.powerOn body.qgaWaitSec body.liveRestore body.networkMode false
    body.allowNonIsolated

/-- The loop of `restore_selected` over the backup ids. -/
def selectRows (backups : List Row) (seen : List String) : List String → Except Exn (List Row)
  | [] => .ok []
  | raw :: rest =>
    let bid := Text.strip raw
    if bid = "" ∨ bid ∈ seen then selectRows backups seen rest
    else
      -- a later backup of the same id replaces an earlier one
      match backups.reverse.find? fun row => row.backupId = bid with
      | none => .error (badRequest s!"Backup not found: {bid}")
      | some row => do
        let ordered ← selectRows backups (bid :: seen) rest
        return row :: ordered

/-- The checks of `restore_selected` on the selected rows. -/
def checkSelected (ordered : List Row) : Except Exn Unit :=
  if ordered = [] then .error (badRequest "No valid backup IDs after deduplication")
  else ordered.forM fun row =>
    if Text.strip row.pveStorage = "" then
      .error (badRequest
        s!"Backup {row.backupId} has no PVE storage mapping for its PBS source")
    else .ok ()

/-- **`restore_selected`.** -/
def restoreSelected (cfg : Config) (rd : Readers) (body : RestoreSelectedRequest) :
    Prog EnqueueResult := do
  let nodes ← Program.ofExcept (resolveRestoreNodes cfg body.toRestoreRequest)
  let storage ← Program.ofExcept (requireStorageSelection nodes body.toRestoreRequest)
  let backups ← rd.listVmBackups
  let ordered ← Program.ofExcept (selectRows backups [] body.backupIds)
  Program.ofExcept (checkSelected ordered)
  Program.ofExcept body.gates
  apiEnqueueRestores (body.enqueueRequest ordered nodes storage)

/-- Enter a row into the newest rows by VMID. -/
def enterNewest (row : Row) : List Row → List Row
  | [] => [row]
  | cur :: rest =>
    if cur.vmid = row.vmid then (if cur.timestamp < row.timestamp then row else cur) :: rest
    else cur :: enterNewest row rest

/-- `_latest_per_vmid`. The timestamps compare as texts. -/
def latestPerVmid (rows : List Row) (cutoff : String) : List Row :=
  rows.foldl (fun best row => if cutoff < row.timestamp then best else enterNewest row best) []

/-- The tag is one of the backup, whatever the case. -/
def hasTag (lower : String → String) (tags : List (String × List String)) (wanted : String)
    (row : Row) : Bool :=
  wanted ∈ ((tags.lookup row.backupId).getD []).map lower

/-- **`restore_tag_group`.** `none` is the reply that nothing matched. -/
def restoreTagGroup (cfg : Config) (rd : Readers) (body : RestoreTagGroupRequest) :
    Prog (Option (EnqueueResult × List (Option ℤ))) := do
  let nodes ← Program.ofExcept (resolveRestoreNodes cfg body.toRestoreRequest)
  let storage ← Program.ofExcept (requireStorageSelection nodes body.toRestoreRequest)
  let backups ← rd.listVmBackups
  let candidates := latestPerVmid backups (normalizeCutoff body.atOrBefore)
  if candidates = [] then return none
  else do
    let tags ← rd.resolveTags candidates (nodes.headD "")
    let selected := candidates.filter (hasTag rd.lower tags (rd.lower (Text.strip body.tag)))
    if selected = [] then return none
    else do
      Program.ofExcept body.gates
      let selected := selected.mergeSort fun a b => a.vmid.getD 0 ≤ b.vmid.getD 0
      let result ← apiEnqueueRestores (body.enqueueRequest selected nodes storage)
      return some (result, selected.map (·.vmid))

/-! ### Plan runs -/

/-- `require_verified_to_run`. -/
def requireVerifiedToRun (cfg : Config) : Bool :=
  cfg.plansRequireVerified.getD (cfg.workerRequireVerified.getD false)

/-- The gate on the verification of the plan. -/
def verifiedGate (cfg : Config) (plan : Plan) (allowUnverified : Bool) : Except Exn Unit :=
  if requireVerifiedToRun cfg ∧ plan.verification ≠ .VERIFIED ∧ !allowUnverified then
    .error (badRequest "Plan is not VERIFIED; run Check first or pass allow_unverified=true")
  else .ok ()

/-- The restore mode of a location, as the handlers read it. -/
def Location.restoreModeText (location : Location) : String :=
  Text.lower (Text.strip (if location.restoreMode = "" then "normal" else location.restoreMode))

/-- The gates on the restore mode: a DR location needs a confirmation, and so does an
overwriting. -/
def modeGates (location : Location) (confirmDr : Bool) (unconfirmed : String)
    (overwrite confirmOverwrite : Bool) : Except Exn Unit :=
  if location.restoreModeText = "dr" ∧ !confirmDr then .error (badRequest unconfirmed)
  else assertOverwriteConfirm overwrite confirmOverwrite location.restoreModeText

/-- The isolation gate of `api_run_plan`. -/
def runIsolationGate (location : Location) (body : PlanRunRequest) : Except Exn Unit :=
  let wantsPower := body.powerOn || (!body.drill && location.powerOn)
  let live := location.liveRestore && !body.drill && decide (body.poweredOff ≠ some true)
  if wantsPower || live || decide (0 < body.qgaWaitSec) then
    assertPowerOnIsolation wantsPower (orElse body.qgaWaitSec location.qgaWaitSec) live
      location.networkMode location.isolated body.allowNonIsolated
  else .ok ()

/-- `start_plan_run` with `_enqueue_restores`; a value error becomes an HTTP error. -/
def apiStartPlanRun (plan : Plan) (location : Location) (groupRows : List (List Row))
    (opts : StartOptions) : Prog AggregatedRun := do
  match ← (startPlanRun apiEnqueueRestores plan location groupRows opts).attempt with
  | .ok run => aggregatePlanRun run
  | .error (.valueError text) => .raise (badRequest text)
  | .error exc => .raise exc

/-- The part of a handler that follows the gates: the rows are found, and the run started. -/
def startResolved (rd : Readers) (plan : Plan) (location : Location) (opts : StartOptions) :
    Prog AggregatedRun := do
  let groupRows ← rd.resolvePlanGroupRows plan.groupIds opts.cutoff location.node
  if groupRows.all (· = []) then
    .raise (badRequest "Plan resolved to zero backups at this point in time")
  else apiStartPlanRun plan location groupRows opts

/-- The plan of a request, which must be there and enabled. -/
def enabledPlan (planId : Uuid) : Prog Plan := do
  match ← getPlan planId with
  | none => .raise (.httpException 404 "Plan not found")
  | some plan => if plan.enabled then return plan else .raise (badRequest "Plan is disabled")

/-- **`api_run_plan`.** -/
def apiRunPlan (cfg : Config) (rd : Readers) (planId : Uuid) (body : PlanRunRequest) :
    Prog AggregatedRun := do
  let plan ← enabledPlan planId
  Program.ofExcept (verifiedGate cfg plan body.allowUnverified)
  let locationId := body.locationId.getD plan.locationId
  match ← getLocation locationId with
  | none => .raise (badRequest s!"Unknown location_id: {locationId}")
  | some location => do
    Program.ofExcept (modeGates location body.confirmDr
      "DR location requires confirm_dr=true (keeps source VMIDs/MACs/UUIDs)"
      body.overwrite body.confirmOverwrite)
    Program.ofExcept (runIsolationGate location body)
    startResolved rd plan location
      { cutoff := normalizeCutoff body.atOrBefore
        drill := body.drill
        autoTeardown := body.autoTeardown
        poweredOff := body.poweredOff
        powerOn := body.powerOn
        qgaWaitSec := body.qgaWaitSec
        overwrite := body.overwrite }

/-- The seconds that an assurance drill waits for the guest agent, if it is to. -/
def assureQgaSec (cfg : Config) (plan : Plan) (location : Location) : ℤ :=
  if plan.assuranceRequireQga || plan.assuranceRequireHttp then
    if 0 < location.qgaWaitSec then location.qgaWaitSec
    else max 30 (orElse cfg.qgaWaitSecDefault 120)
  else 0

/-- The options of an assurance drill. -/
def assureOptions (cfg : Config) (plan : Plan) (location : Location) (body : PlanAssureRequest) :
    StartOptions :=
  let powerOn := plan.assuranceRequireQga || plan.assuranceRequireHttp
  { cutoff := normalizeCutoff body.atOrBefore
    drill := true
    autoTeardown := true
    poweredOff := some !powerOn
    powerOn
    qgaWaitSec := assureQgaSec cfg plan location
    overwrite := body.overwrite }

/-- The checks of `api_assure_plan` that concern the location. -/
def assureGates (cfg : Config) (plan : Plan) (location : Location) (body : PlanAssureRequest) :
    Except Exn Unit := do
  modeGates location body.confirmDr "DR location requires confirm_dr=true for assurance runs"
    body.overwrite body.confirmOverwrite
  if plan.assuranceRequireHttp ∧ Text.strip location.httpCheckUrl = "" then
    .error (badRequest "assurance_require_http is set but location has no http_check_url")
  else if plan.assuranceRequireQga || plan.assuranceRequireHttp then
    assertPowerOnIsolation true (assureQgaSec cfg plan location) false location.networkMode
      location.isolated body.allowNonIsolated
  else .ok ()

/-- **`api_assure_plan`.** -/
def apiAssurePlan (cfg : Config) (rd : Readers) (planId : Uuid) (body : PlanAssureRequest) :
    Prog AggregatedRun := do
  let plan ← enabledPlan planId
  if !plan.assuranceEnabled then .raise (badRequest "Enable assurance on the plan first")
  else do
    Program.ofExcept (verifiedGate cfg plan body.allowUnverified)
    match ← getLocation plan.locationId with
    | none => .raise (badRequest "Plan location not found")
    | some location => do
      Program.ofExcept (assureGates cfg plan location body)
      startResolved rd plan location (assureOptions cfg plan location body)

end RestoreEngine
