import Mathlib.Algebra.GroupWithZero.Nat
import RestoreEngine.Model.Members
import RestoreEngine.Model.Schedule

/-!
# `plans.py`: readiness checks

A readiness check asks whether a plan could run now: whether the backup servers and the cluster
answer, the nodes and storages of its location exist, its groups come down to backups, and there
are VMIDs for them. `runPlanReadiness` puts its questions to the injected probes, collects its
findings as items, and passes if none of them is an error; `applyCheckResult` stores the result
and the verification in the plan.

The notification about a failed check is left out.
-/

namespace RestoreEngine

open Effects Prog

/-! ### Texts -/

/-- `public_error_message`: the class of the exception. For the exceptions of client libraries,
whose classes are not told apart, their text stands for it. -/
def Exn.publicMessage : Exn → String
  | runtimeError _ => "RuntimeError"
  | valueError _ => "ValueError"
  | typeError _ => "TypeError"
  | keyError _ => "KeyError"
  | guestOwnershipError _ => "GuestOwnershipError"
  | taskCancelled _ => "TaskCancelled"
  | timeoutError _ => "TimeoutError"
  | httpException _ _ => "HTTPException"
  | api text => text

/-- A fraction in tenths, ties to even. -/
def tenths (n d : ℕ) : ℕ :=
  let q := 10 * n / d
  let r := 10 * n % d
  if d < 2 * r ∨ 2 * r = d ∧ q % 2 = 1 then q + 1 else q

/-- The loop of `_format_bytes`: `d` bytes are one unit. -/
def formatScaled (n d : ℕ) (unit : String) : List String → String
  | [] => s!"{tenths n d / 10}.{tenths n d % 10} {unit}"
  | next :: rest =>
    if 1024 * d ≤ n then formatScaled n (1024 * d) next rest
    else if d = 1 then s!"{n} {unit}"
    else s!"{tenths n d / 10}.{tenths n d % 10} {unit}"

/-- `_format_bytes`. -/
def formatBytes (n : ℕ) : String :=
  formatScaled n 1 "B" ["KiB", "MiB", "GiB", "TiB", "PiB"]

/-! ### Items -/

/-- `fail`. -/
def failed (code message : String) (detail : String := "") : CheckItem :=
  { level := .error, code, message, detail }

/-- `warn`. -/
def warned (code message : String) (detail : String := "") : CheckItem :=
  { level := .warn, code, message, detail }

/-- `ok_item`. -/
def passed (code message : String) (detail : String := "") : CheckItem :=
  { level := .ok, code, message, detail }

/-- No item is an error. -/
def noErrors (items : List CheckItem) : Bool := items.all (·.level ≠ .error)

/-! ### The plan itself -/

/-- The loop over the groups: those that are there, and an error for each that is not. -/
def checkGroups : List Uuid → Prog (List Group × List CheckItem)
  | [] => return ([], [])
  | id :: rest => do
    let found ← issue (.getGroup id)
    let (groups, items) ← checkGroups rest
    return match found with
      | none => (groups, failed "plan.group_missing" s!"Missing group in plan: {id}" :: items)
      | some group => (group :: groups, items)

/-- The first part of the check: the plan, its location and its groups. -/
def checkPlan (plan : Plan) : Prog (Option Location × List Group × List CheckItem) := do
  let location ← getLocation plan.locationId
  let (groups, missing) ← checkGroups plan.groupIds
  let empty := if plan.groupIds = [] then [failed "plan.groups" "Plan has no inventory groups"]
    else []
  let unknown := if location.isNone then
      [failed "plan.location" s!"Location not found: {plan.locationId}"]
    else []
  return (location, groups, empty ++ unknown ++ missing)

/-! ### Connectivity -/

/-- What is wrong with the sources that do not answer. -/
def pbsDetail (results : List PbsResult) : String :=
  Text.join "; " ((results.filter (!·.ok)).map fun r =>
    let name := if r.label ≠ "" then r.label else if r.sourceId ≠ "" then r.sourceId else "?"
    s!"{name}: {r.detail}")

/-- The backup servers. -/
def checkPbs : Prog CheckItem := do
  let unreachable (results : List PbsResult) :=
    failed "pbs.connectivity" "One or more PBS sources unreachable" (pbsDetail results)
  match ← (ask .pbs).attempt with
  | .ok (true, results) =>
    return passed "pbs.connectivity" s!"{results.length} PBS source(s) reachable"
  | .ok (false, results) => return unreachable results
  | .error exc => return unreachable [{ ok := false, detail := exc.publicMessage }]

/-- The cluster, and whether there is a session with it. -/
def checkPve : Prog (Bool × List CheckItem) := do
  let unreachable (text : String) := failed "pve.connectivity" "Proxmox VE unreachable" text
  match ← (ask .pve).attempt with
  | .error exc => return (false, [unreachable exc.publicMessage])
  | .ok (false, text) => return (false, [unreachable text])
  | .ok (true, text) => do
    let reachable := passed "pve.connectivity"
      (if text ≠ "" then text else "Proxmox VE reachable")
    match ← (ask .session).attempt with
    | .ok session => return (session, [reachable])
    | .error exc =>
      return (false,
        [reachable, failed "pve.connect" "Failed to open Proxmox API session" exc.publicMessage])

/-! ### Nodes and storages -/

/-- The nodes of the cluster; none if they cannot be listed. -/
def knownNodes : Prog (List String × List CheckItem) := do
  match ← (ask .nodes).attempt with
  | .ok names => return ((names.map Text.strip).filter (· ≠ ""), [])
  | .error exc => return ([], [failed "pve.nodes" "Failed to list cluster nodes" exc.publicMessage])

namespace Location

/-- The nodes that a check looks at. -/
def checkedNodes (location : Location) : List String :=
  if location.nodes = [] ∧ location.node ≠ "" then [location.node] else location.nodes

/-- The storage of a node. -/
def storageOn (location : Location) (node : String) : Except Exn String :=
  resolveStorageForNode node location.storageByNode location.storage

end Location

/-- The storage of a node among those that the node has. Of storages with one id the last
counts. -/
def storageItem (location : Location) (node : String) (storages : List NodeStorage) :
    CheckItem :=
  match location.storageOn node with
  | .error exc =>
    failed "pve.storage_map" s!"No storage mapped for node {node}" exc.publicMessage
  | .ok sid =>
    match storages.reverse.find? (·.id = sid) with
    | none => failed "pve.storage_missing" s!"Storage '{sid}' not found on node {node}"
    | some found =>
      if !found.usableForVmDisks then
        failed "pve.storage_unusable" s!"Storage '{sid}' on {node} cannot hold VM disks"
      else if !found.enabled then
        failed "pve.storage_disabled" s!"Storage '{sid}' on {node} is disabled"
      else passed "pve.storage" s!"{node}: {sid} usable for VM disks"

/-- One node of the location. -/
def checkNode (location : Location) (known : List String) (node : String) : Prog CheckItem := do
  if known ≠ [] ∧ node ∉ known then
    return failed "pve.node_missing" s!"Location node not in cluster: {node}"
  else
    match ← (ask (.storages node)).attempt with
    | .ok storages => return storageItem location node storages
    | .error exc =>
      return failed "pve.storage_list" s!"Failed listing storages on {node}" exc.publicMessage

/-- The loop over the nodes of the location. -/
def checkNodes (location : Location) (known : List String) : List String → Prog (List CheckItem)
  | [] => return []
  | node :: rest => do
    let item ← checkNode location known node
    let items ← checkNodes location known rest
    return item :: items

/-! ### Members -/

/-- The backups; none if they cannot be listed. -/
def listBackups : Prog (List Row × List CheckItem) := do
  match ← (ask .backups).attempt with
  | .ok backups => return (backups, [])
  | .error exc => return ([], [failed "pbs.backups" "Failed to list PBS backups" exc.publicMessage])

/-- The node on which a check has tags read. -/
def checkTagNode (location : Location) : String :=
  location.checkedNodes.headD location.node

/-- The tags of the candidates, as far as they can be read. -/
def readTags (candidates : List Row) (node : String) : Prog (TagMap × List CheckItem) := do
  if node = "" then
    return ([], [warned "tags.resolve" "Tag resolution skipped (no location node)"])
  else
    match ← (ask (.tags candidates node)).attempt with
    | .ok (tags, errors) =>
      if errors = [] then return (tags, [])
      else
        let shown := (errors.take 5).map fun e => s!"{e.1}: {e.2}"
        return (tags, [warned "tags.resolve"
          s!"Tag resolve failed for {errors.length} backup(s)" (Text.join "; " shown)])
    | .error exc =>
      return ([], [failed "tags.resolve" "Failed to resolve guest tags for plan groups"
        exc.publicMessage])

/-- The tags that the groups need. -/
def checkTags (location : Location) (groups : List Group) (backups : List Row)
    (cutoff : String) : Prog (TagMap × List CheckItem) := do
  if needTags groups ∧ backups ≠ [] then do
    let candidates ← Program.ofExcept (tagCandidates backups cutoff)
    readTags candidates (checkTagNode location)
  else return ([], [])

/-- What a group came down to. -/
def memberItem (group : Group) (rows : List Row) : CheckItem :=
  let shown := if group.name ≠ "" then group.name else toString group.id
  if rows = [] then failed "group.empty" s!"Group {shown} resolved to zero backups"
  else passed "group.members" s!"Group {shown}: {rows.length} VM(s)"

/-! ### VMIDs -/

/-- An error for every VMID that occurred before. -/
def duplicateItems (seen : List ℤ) : List ℤ → List CheckItem
  | [] => []
  | src :: rest =>
    let later := duplicateItems (src :: seen) rest
    if src ∈ seen then
      failed "vmid.dr_duplicate" s!"Duplicate source VMID in plan batch: {src}" :: later
    else later

/-- The source VMIDs of rows. -/
def sourceIds (rows : List Row) : List ℤ := rows.map fun row => row.vmid.getD 0

/-- The VMIDs of a disaster recovery: the source VMIDs must differ and be free. -/
def drItems (inUse : Finset ℤ) (vmids : List ℤ) : List CheckItem :=
  let conflicts := vmids.filter (· ∈ inUse)
  duplicateItems [] vmids ++
    if conflicts ≠ [] then
      [failed "vmid.dr_in_use" "DR mode: source VMID(s) already exist on cluster"
        (Text.join ", " ((conflicts.take 20).map toString))]
    else [passed "vmid.dr" s!"DR: {vmids.length} source VMID(s) free on cluster"]

/-- The VMIDs of a normal restore: enough of them must be free. -/
def normalItem (location : Location) (inUse : Finset ℤ) (count : ℕ) : CheckItem :=
  match allocateSequentialFreeVmids inUse (orElse location.vmidStart 100) count with
  | .ok (allocated, _) =>
    passed "vmid.normal"
      (s!"Normal: can allocate {allocated.length} free VMID(s) from " ++
        s!"{location.vmidStart}")
  | .error exc =>
    failed "vmid.normal" "Cannot allocate enough free VMIDs for plan members" exc.publicMessage

/-- The VMIDs of the members. -/
def vmidItems (location : Location) (inUse : Finset ℤ) (rows : List Row) : List CheckItem :=
  if location.mode = "dr" then drItems inUse (sourceIds rows)
  else [normalItem location inUse rows.length]

/-- The VMIDs in use, and what that means for the members. -/
def checkVmids (location : Location) (rows : List Row) : Prog (List CheckItem) := do
  if rows = [] then return []
  else
    match ← (ask .vmids).attempt with
    | .ok inUse => return vmidItems location inUse rows
    | .error exc =>
      return failed "pve.vmids" "Failed to list cluster VMIDs in use" exc.publicMessage ::
        vmidItems location ∅ rows

/-- The part of the check that needs the location and a session with the cluster: the rows of
the groups, and the items. -/
def checkPlacement (mt : Matching) (location : Location) (groups : List Group)
    (cutoff : String) : Prog (List (List Row) × List CheckItem) := do
  let (known, nodesItems) ← knownNodes
  let nodeItems ← checkNodes location known location.checkedNodes
  let (backups, backupsItems) ← listBackups
  let (tags, tagsItems) ← checkTags location groups backups cutoff
  let groupRows ← Program.ofExcept
    (groups.mapM fun group => resolveGroupRows mt group backups cutoff tags)
  let vmidsItems ← checkVmids location groupRows.flatten
  return (groupRows, nodesItems ++ nodeItems ++ backupsItems ++ tagsItems ++
    groups.zipWith memberItem groupRows ++ vmidsItems)

/-! ### Sizes -/

/-- `summarize_member_sizes`. -/
structure SizeSummary where
  grossBytes : ℕ
  nonzeroBytes : ℕ := 0
  estimated : ℕ := 0
  missing : ℕ := 0
  errors : List String := []

/-- The rows with a backup id, one for each id. -/
def rowsById (seen : List String) : List Row → List Row
  | [] => []
  | row :: rest =>
    let bid := Text.strip row.backupId
    if bid = "" ∨ bid ∈ seen then rowsById seen rest else row :: rowsById (bid :: seen) rest

/-- The loop that estimates the sizes. -/
def estimateSizes (sum : SizeSummary) : List Row → Prog SizeSummary
  | [] => return sum
  | row :: rest => do
    let bid := Text.strip row.backupId
    match ← (ask (.size bid)).attempt with
    | .ok (some bytes) =>
      estimateSizes { sum with
        nonzeroBytes := sum.nonzeroBytes + bytes.toNat
        estimated := sum.estimated + 1 } rest
    | .ok none => estimateSizes { sum with missing := sum.missing + 1 } rest
    | .error exc =>
      let errors := if sum.errors.length < 8 then sum.errors ++ [s!"{bid}: {exc.publicMessage}"]
        else sum.errors
      estimateSizes { sum with missing := sum.missing + 1, errors } rest

/-- The item on the sizes. -/
def SizeSummary.item (sum : SizeSummary) : CheckItem :=
  let gross := formatBytes sum.grossBytes
  let errors := Text.join "; " sum.errors
  if 0 < sum.estimated then
    let message := s!"Restore size: {gross} gross, ~{formatBytes sum.nonzeroBytes} approx net"
    let detail := s!"{sum.estimated}/{sum.estimated + sum.missing} backup(s) estimated via " ++
      "fidx non-zero chunks"
    if 0 < sum.missing then
      warned "plan.sizes" message
        (detail ++ if sum.errors = [] then "" else "; missing: " ++ errors)
    else passed "plan.sizes" message detail
  else
    warned "plan.sizes" s!"Restore size: {gross} gross; approx net unavailable"
      (if errors = "" then "fidx estimate failed for all members" else errors)

/-- The part of the summary that tells the sizes. -/
def SizeSummary.hint (sum : SizeSummary) : String :=
  let gross := s!" · {formatBytes sum.grossBytes} gross"
  if 0 < sum.estimated then gross ++ s!" · ~{formatBytes sum.nonzeroBytes} approx net" else gross

/-- The sizes of the members, if there are any. -/
def checkSizes (rows : List Row) : Prog (Option SizeSummary) := do
  if rows = [] then return none
  else
    let members := rowsById [] rows
    let gross := (members.map fun row => row.sizeBytes.toNat).sum
    some <$> estimateSizes { grossBytes := gross } members

/-! ### The result -/

/-- The error of a plan whose groups came down to nothing without an error of their own. -/
def emptyItems (location : Option Location) (groups : List Group) (members : ℕ)
    (items : List CheckItem) : List CheckItem :=
  if noErrors items ∧ members = 0 ∧ location.isSome ∧ groups ≠ [] ∧
      items.all (·.code ≠ "group.empty") then
    [failed "plan.empty" "Plan resolved to zero backups"]
  else []

/-- The check that the items amount to. -/
def checkOf (checkedAt : Instant) (cutoff : String) (members : ℕ) (sizes : Option SizeSummary)
    (items : List CheckItem) : Check :=
  let hint := (sizes.map (·.hint)).getD ""
  let errors := items.countP (·.level = .error)
  { ok := noErrors items
    checkedAt, cutoff
    summary :=
      if noErrors items then s!"Readiness OK ({members} VM(s){hint})"
      else s!"Readiness FAILED ({errors} error(s), {members} VM(s) resolved{hint})"
    memberCount := members
    items }

/-- `save_check_report`. -/
def saveCheckReport (cfg : Config) (plan : Plan) (check : Check) : Prog Report :=
  saveReport cfg plan.id
    (.check check.ok plan.verification check.checkedAt check.memberCount check.summary)

/-- The plan with the result of a check. -/
def Plan.checked (plan : Plan) (check : Check) : Plan :=
  { plan with
    lastCheck := some check
    lastCheckAt := .zoned check.checkedAt
    verification := if check.ok then .VERIFIED else .NOT_VERIFIED }

/-- **`apply_check_result`.** -/
def applyCheckResult (cfg : Config) (plan : Plan) (check : Check) : Prog Plan := do
  let saved := plan.checked check
  setPlan saved
  let rep ← saveCheckReport cfg saved check
  let saved := { saved with lastCheckReportId := some rep.id }
  setPlan saved
  return saved

/-- The part of the check that is skipped without a location or a session. -/
def checkPlaced (mt : Matching) (location : Option Location) (session : Bool)
    (groups : List Group) (cutoff : String) : Prog (List (List Row) × List CheckItem) :=
  match location, session with
  | some location, true => checkPlacement mt location groups cutoff
  | _, _ => return ([], [])

/-- The check proper, without the storing of its result. -/
def readinessCheck (mt : Matching) (plan : Plan) (cutoff : String) : Prog Check := do
  let checkedAt ← utcNow
  let cutoff := normalizeCutoff cutoff
  let (location, groups, planItems) ← checkPlan plan
  let pbsItem ← checkPbs
  let (session, pveItems) ← checkPve
  let (groupRows, placementItems) ← checkPlaced mt location session groups cutoff
  let members := groupRows.flatten.length
  let sizes ← checkSizes groupRows.flatten
  let items := planItems ++ pbsItem :: pveItems ++ placementItems ++
    (sizes.map SizeSummary.item).toList
  return checkOf checkedAt cutoff members sizes
    (items ++ emptyItems location groups members items)

/-- **`run_plan_readiness`.** -/
def runPlanReadiness (cfg : Config) (mt : Matching) (plan : Plan) (cutoff : String)
    (persist : Bool := true) : Prog (Plan × Check) := do
  let check ← readinessCheck mt plan cutoff
  if persist then do
    let plan ← applyCheckResult cfg plan check
    return (plan, check)
  else return (plan, check)

/-! ### The tick and the request -/

/-- Whether the plan is due for a check. A time without an offset cannot be compared. -/
def Plan.dueForCheck (plan : Plan) (intervalSec : ℤ) (now : Instant) : Except Exn Bool :=
  if !plan.enabled then .ok false
  else
    match plan.lastCheckAt with
    | .empty | .malformed => .ok true
    | .naive _ => .error (.typeError "can't subtract offset-naive and offset-aware datetimes")
    | .zoned t => .ok (intervalSec * second ≤ now - t)

/-- `plans_due_for_check`. -/
def plansDueForCheck (plans : List Plan) (intervalSec : ℤ) (now : Instant) :
    Except Exn (List Plan) :=
  plans.filterM fun plan => plan.dueForCheck intervalSec now

/-- The check that stands for one that crashed. -/
def crashedCheck (exc : Exn) (now : Instant) : Check :=
  { ok := false
    checkedAt := now
    cutoff := normalizeCutoff ""
    summary := s!"Readiness check crashed: {exc.publicMessage}"
    memberCount := 0
    items := [failed "check.crash" "Readiness check crashed" exc.publicMessage] }

/-- The check of a due plan; its exceptions are logged. -/
def checkDue (cfg : Config) (mt : Matching) (plan : Plan) : Prog Check := do
  match ← (runPlanReadiness cfg mt plan "").attempt with
  | .ok (_, check) => return check
  | .error exc => do
    let crashed := crashedCheck exc (← utcNow)
    let _ ← applyCheckResult cfg plan crashed
    return crashed

/-- The loop of `tick_plan_readiness`: the plans that it checked, with the results. -/
def checkDuePlans (cfg : Config) (mt : Matching) : List Plan → Prog (List (Uuid × Bool))
  | [] => return []
  | plan :: rest => do
    let check ← checkDue cfg mt plan
    let checks ← checkDuePlans cfg mt rest
    return (plan.id, check.ok) :: checks

/-- What `tick_plan_readiness` does, with the results of its checks. -/
def readinessTick (cfg : Config) (mt : Matching) : Prog (List (Uuid × Bool)) := do
  if cfg.planCheckIntervalSec ≤ 0 then return []
  else do
    let plans ← listPlans
    let now ← utcNow
    checkDuePlans cfg mt (← Program.ofExcept (plansDueForCheck plans cfg.planCheckIntervalSec now))

/-- **`tick_plan_readiness`**, as the worker calls it: how many plans were checked. -/
def tickPlanReadiness (cfg : Config) (mt : Matching) : Prog ℕ :=
  List.length <$> readinessTick cfg mt

/-- **`api_check_plan`.** -/
def apiCheckPlan (cfg : Config) (mt : Matching) (planId : Uuid) (atOrBefore : String) :
    Prog (Plan × Check) := do
  match ← getPlan planId with
  | none => .raise (.httpException 404 "Plan not found")
  | some plan =>
    match ← (runPlanReadiness cfg mt plan (normalizeCutoff atOrBefore)).attempt with
    | .ok result => return result
    | .error exc =>
      .raise (.httpException 500 s!"Readiness check failed: {exc.publicMessage}")

end RestoreEngine
