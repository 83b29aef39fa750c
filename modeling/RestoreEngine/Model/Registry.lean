import RestoreEngine.Model.Members

/-!
# `plans.py`: plans, groups and locations

Creating, updating and deleting the records that an operator keeps. A request gives some of the
fields of a record: an update lays them over the stored record, and both are normalized before
anything is stored. A field that a request leaves out is `none`; one that it sets to null counts
like an empty one.

The timestamps `created_at` and `updated_at` are left out, and the order of the entries of
`storage_by_node` is that of the dictionary.
-/

namespace RestoreEngine

open Effects Prog

/-! ### Groups -/

/-- The fields of a group that a request gives. -/
structure GroupPayload where
  name : Option String := none
  tags : Option (List String) := none
  sourceIds : Option (List String) := none
  vmids : Option (List ℤ) := none
  namePatterns : Option (List String) := none
  vmidRanges : Option (List VmidRange) := none
  excludeVmids : Option (List ℤ) := none
  excludeNamePatterns : Option (List String) := none

/-- The payload laid over a stored group. -/
def GroupPayload.over (payload : GroupPayload) (group : Group) : GroupPayload where
  name := payload.name.or (some group.name)
  tags := payload.tags.or (some group.tags)
  sourceIds := payload.sourceIds.or (some group.sourceIds)
  vmids := payload.vmids.or (some group.vmids)
  namePatterns := payload.namePatterns.or (some group.namePatterns)
  vmidRanges := payload.vmidRanges.or (some group.vmidRanges)
  excludeVmids := payload.excludeVmids.or (some group.excludeVmids)
  excludeNamePatterns := payload.excludeNamePatterns.or (some group.excludeNamePatterns)

/-- `normalize_name_patterns`. -/
def normalizeNamePatterns (mt : Matching) : List String → Except Exn (List String)
  | [] => .ok []
  | raw :: rest =>
    let p := Text.strip raw
    if p = "" then normalizeNamePatterns mt rest
    else if isRegex p ∧ !mt.compiles (regexBody p) then
      .error (.valueError s!"invalid name pattern regex: '{p}'")
    else do
      let patterns ← normalizeNamePatterns mt rest
      return p :: patterns

/-- The texts of a list that are not empty. -/
def stripped (raw : Option (List String)) : List String :=
  ((raw.getD []).map Text.strip).filter (· ≠ "")

/-- `sorted(set(...))`. -/
def sortedVmids (raw : Option (List ℤ)) : List ℤ :=
  (raw.getD []).dedup.mergeSort fun a b => a ≤ b

/-- `normalize_group`: the group, but for its id. -/
def normalizeGroup (mt : Matching) (payload : GroupPayload) : Except Exn (Uuid → Group) := do
  let name := Text.strip (payload.name.getD "")
  if name = "" then .error (.valueError "name is required")
  else do
    let tags := stripped payload.tags
    let vmids := sortedVmids payload.vmids
    let namePatterns ← normalizeNamePatterns mt (payload.namePatterns.getD [])
    let vmidRanges ← normalizeVmidRanges (payload.vmidRanges.getD [])
    let excludeNamePatterns ← normalizeNamePatterns mt (payload.excludeNamePatterns.getD [])
    if tags = [] ∧ vmids = [] ∧ namePatterns = [] ∧ vmidRanges = [] then
      .error (.valueError
        "group needs at least one of: tags, vmids, name_patterns, or vmid_ranges")
    else
      return fun id =>
        { id, name, tags, vmids, namePatterns, vmidRanges, excludeNamePatterns
          sourceIds := stripped payload.sourceIds
          excludeVmids := sortedVmids payload.excludeVmids }

/-- **`create_group`.** -/
def createGroup (mt : Matching) (payload : GroupPayload) : Prog Group := do
  let data ← Program.ofExcept (normalizeGroup mt payload)
  let group := data (← uuid4)
  issue (.setGroup group)
  return group

/-- **`update_group`.** -/
def updateGroup (mt : Matching) (groupId : Uuid) (payload : GroupPayload) : Prog Group := do
  match ← issue (.getGroup groupId) with
  | none => .raise (.keyError s!"'{groupId}'")
  | some existing => do
    let data ← Program.ofExcept (normalizeGroup mt (payload.over existing))
    let group := data groupId
    issue (.setGroup group)
    return group

/-- **`delete_group`.** -/
def deleteGroup (groupId : Uuid) : Prog Bool := issue (.delGroup groupId)

/-! ### Locations -/

/-- The fields of a location that a request gives. -/
structure LocationPayload where
  name : Option String := none
  node : Option String := none
  nodes : Option (List String) := none
  storage : Option String := none
  storageByNode : Option (List (String × String)) := none
  vmidStart : Option ℤ := none
  bwlimit : Option ℤ := none
  liveRestore : Option Bool := none
  restoreMode : Option String := none
  powerOn : Option Bool := none
  qgaWaitSec : Option ℤ := none
  networkMode : Option String := none
  labBridge : Option String := none
  isolated : Option Bool := none
  httpCheckUrl : Option String := none

/-- The payload laid over a stored location. -/
def LocationPayload.over (payload : LocationPayload) (location : Location) :
    LocationPayload where
  name := payload.name.or (some location.name)
  node := payload.node.or (some location.node)
  nodes := payload.nodes.or (some location.nodes)
  storage := payload.storage.or (some location.storage)
  storageByNode := payload.storageByNode.or (some location.storageByNode)
  vmidStart := payload.vmidStart.or (some location.vmidStart)
  bwlimit := payload.bwlimit.or (some location.bwlimit)
  liveRestore := payload.liveRestore.or (some location.liveRestore)
  restoreMode := payload.restoreMode.or (some location.restoreMode)
  powerOn := payload.powerOn.or (some location.powerOn)
  qgaWaitSec := payload.qgaWaitSec.or (some location.qgaWaitSec)
  networkMode := payload.networkMode.or (some location.networkMode)
  labBridge := payload.labBridge.or (some location.labBridge)
  isolated := payload.isolated.or (some location.isolated)
  httpCheckUrl := payload.httpCheckUrl.or (some location.httpCheckUrl)

/-- The nodes of a location, its first node in front. -/
def normalizeNodes (node : String) (nodes : List String) : Except Exn (List String) :=
  match dedupeNodes nodes, node with
  | [], "" => .error (.valueError "node (or nodes) is required")
  | nodes, "" => .ok nodes
  | nodes, node => .ok (node :: nodes.filter (· ≠ node))

/-- An entry of a dictionary is set. -/
def setEntry (key val : String) : List (String × String) → List (String × String)
  | [] => [(key, val)]
  | e :: rest => if e.1 = key then (key, val) :: rest else e :: setEntry key val rest

/-- `storage_by_node`: the given entries, and the default for the nodes that have none. -/
def normalizeStorages (nodes : List String) (raw : List (String × String)) (storage : String) :
    List (String × String) :=
  let given := (normalizeStorageByNode raw).foldl (fun d e => setEntry e.1 e.2 d) []
  if storage = "" then given
  else nodes.foldl (fun d n => if n ∈ d.map Prod.fst then d else setEntry n storage d) given

/-- The numbers of a location and its restore mode are allowed. -/
def checkLocationValues (vmidStart bwlimit : ℤ) (mode : String) : Except Exn Unit :=
  if vmidStart < 100 then .error (.valueError "vmid_start must be >= 100")
  else if bwlimit < 0 then .error (.valueError "bwlimit must be >= 0")
  else if mode ∉ ["normal", "dr"] then
    .error (.valueError "restore_mode must be 'normal' or 'dr'")
  else .ok ()

/-- The storages of a location: one for each node. -/
def checkStorages (nodes : List String) (storageByNode : List (String × String)) :
    Except Exn Unit :=
  let missing := nodes.filter fun n => n ∉ storageByNode.map Prod.fst
  if missing ≠ [] then
    .error (.valueError ("storage required for node(s): " ++ Text.join ", " missing))
  else .ok ()

/-- `normalize_location`: the location, but for its id. -/
def normalizeLocation (payload : LocationPayload) : Except Exn (Uuid → Location) := do
  let name := Text.strip (payload.name.getD "")
  if name = "" then .error (.valueError "name is required")
  else do
    let nodes ← normalizeNodes (Text.strip (payload.node.getD "")) (payload.nodes.getD [])
    let node := nodes.headD ""
    let vmidStart := payload.vmidStart.getD 100
    let bwlimit := payload.bwlimit.getD 0
    let given := payload.restoreMode.getD ""
    let restoreMode := Text.lower (Text.strip (if given = "" then "normal" else given))
    checkLocationValues vmidStart bwlimit restoreMode
    let default := Text.strip (payload.storage.getD "")
    let storageByNode := normalizeStorages nodes (payload.storageByNode.getD []) default
    checkStorages nodes storageByNode
    let storage := (storageByNode.lookup node).getD default
    if storage = "" then .error (.valueError "storage is required")
    else do
      let networkMode := normalizeNetworkMode (payload.networkMode.getD "")
      let labBridge := Text.strip (payload.labBridge.getD "")
      if networkMode = "remap" ∧ labBridge = "" then
        .error (.valueError "lab_bridge is required when network_mode=remap")
      else
        return fun id =>
          { id, name, node, nodes, storage, storageByNode, vmidStart, bwlimit, restoreMode
            networkMode, labBridge
            liveRestore := payload.liveRestore.getD false
            powerOn := payload.powerOn.getD false
            qgaWaitSec := max 0 (min 3600 (payload.qgaWaitSec.getD 0))
            isolated := payload.isolated.getD false || networkMode ∈ ["unlink", "remap"]
            httpCheckUrl := Text.strip (payload.httpCheckUrl.getD "") }

/-- **`create_location`.** -/
def createLocation (payload : LocationPayload) : Prog Location := do
  let data ← Program.ofExcept (normalizeLocation payload)
  let location := data (← uuid4)
  issue (.setLocation location)
  return location

/-- **`update_location`.** -/
def updateLocation (locationId : Uuid) (payload : LocationPayload) : Prog Location := do
  match ← getLocation locationId with
  | none => .raise (.keyError s!"'{locationId}'")
  | some existing => do
    let data ← Program.ofExcept (normalizeLocation (payload.over existing))
    let location := data locationId
    issue (.setLocation location)
    return location

/-- **`delete_location`.** -/
def deleteLocation (locationId : Uuid) : Prog Bool := issue (.delLocation locationId)

/-! ### Plans -/

/-- The fields of a plan that a request gives: those of `PlanUpdate`, and the verification,
which `update_plan` looks for. A location id that is empty is `some none`. -/
structure PlanPayload where
  name : Option String := none
  groupIds : Option (List Uuid) := none
  locationId : Option (Option Uuid) := none
  haltOnError : Option Bool := none
  enabled : Option Bool := none
  scheduleEnabled : Option Bool := none
  scheduleIntervalHours : Option ℕ := none
  scheduleDrill : Option Bool := none
  assuranceEnabled : Option Bool := none
  assuranceRequireQga : Option Bool := none
  assuranceRequireHttp : Option Bool := none
  assuranceMaxRtoSec : Option ℤ := none
  verification : Option PlanVerification := none

/-- `normalize_plan` of the payload laid over a plan, which has the location `locationId`. -/
def PlanPayload.over (payload : PlanPayload) (base : Plan) (locationId : Option Uuid) :
    Except Exn Plan :=
  let name := Text.strip (payload.name.getD base.name)
  let groupIds := payload.groupIds.getD base.groupIds
  if name = "" then .error (.valueError "name is required")
  else if groupIds = [] then .error (.valueError "plan needs at least one group_id")
  else
    match payload.locationId.getD locationId with
    | none => .error (.valueError "location_id is required")
    | some locationId =>
      .ok { base with
        name, groupIds, locationId
        haltOnError := payload.haltOnError.getD base.haltOnError
        enabled := payload.enabled.getD base.enabled
        verification := payload.verification.getD base.verification
        scheduleEnabled := payload.scheduleEnabled.getD base.scheduleEnabled
        scheduleIntervalHours := payload.scheduleIntervalHours.getD base.scheduleIntervalHours
        scheduleDrill := payload.scheduleDrill.getD base.scheduleDrill
        assuranceEnabled := payload.assuranceEnabled.getD base.assuranceEnabled
        assuranceRequireQga := payload.assuranceRequireQga.getD base.assuranceRequireQga
        assuranceRequireHttp := payload.assuranceRequireHttp.getD base.assuranceRequireHttp
        assuranceMaxRtoSec := max 0 (payload.assuranceMaxRtoSec.getD base.assuranceMaxRtoSec) }

/-- The plan that a request to create one is laid over. -/
def blankPlan (id : Uuid) : Plan := { id, groupIds := [], locationId := 0 }

/-- **`create_plan`.** -/
def createPlan (payload : PlanPayload) : Prog Plan := do
  let data ← Program.ofExcept (payload.over (blankPlan 0) none)
  let plan := { data with id := ← uuid4 }
  setPlan plan
  return plan

/-- `membership_changed`: other groups, or another location. -/
def PlanPayload.changesMembership (payload : PlanPayload) (existing : Plan) : Bool :=
  payload.groupIds.any (· ≠ existing.groupIds) ||
    payload.locationId.any (· ≠ some existing.locationId)

/-- The record that `update_plan` makes of a stored one. -/
def PlanPayload.updated (payload : PlanPayload) (existing : Plan) : Except Exn Plan :=
  let base :=
    if payload.changesMembership existing ∧ payload.verification = none then
      { existing with verification := .NEEDS_VERIFIED }
    else existing
  payload.over base (some existing.locationId)

/-- **`update_plan`.** -/
def updatePlan (planId : Uuid) (payload : PlanPayload) : Prog Plan := do
  match ← getPlan planId with
  | none => .raise (.keyError s!"'{planId}'")
  | some existing => do
    let data ← Program.ofExcept (payload.updated existing)
    let plan := { data with id := planId }
    setPlan plan
    return plan

/-- **`delete_plan`.** -/
def deletePlan (planId : Uuid) : Prog Bool := issue (.delPlan planId)

end RestoreEngine
