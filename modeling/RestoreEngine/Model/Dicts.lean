import RestoreEngine.Model.Json
import RestoreEngine.Model.Registry

/-!
# `plans.py`: locations and plans as dictionaries

The normalization of locations and plans for payloads with values of any kind, and the functions
that store plans. `Registry` has the same functions for the typed requests of the API.

An attribute that a value does not have, such as `strip`, is a `typeError` here: no caller tells
the two exceptions apart. The instants and the new ids are arguments.
-/

namespace RestoreEngine

open Effects

namespace Dict

/-- `.strip()` of a value: only texts have it. -/
def stripped : Json → Except Exn String
  | .str s => .ok (Text.strip s)
  | _ => .error (.typeError "object has no attribute 'strip'")

/-- `(payload.get(key) or "").strip()`. -/
def stripOr (payload : Dict) (key : String) : Except Exn String :=
  stripped (payload.getOr key (.str ""))

/-- `str(payload.get(key) or "").strip()`. -/
def textOr (payload : Dict) (key : String) : String :=
  Text.strip (payload.getOr key (.str "")).toText

/-! ### Locations -/

/-- The items of `nodes`, if that is a list. -/
def givenNodes (payload : Dict) : List String :=
  match payload "nodes" with
  | some (.arr items) => items.map Json.toText
  | _ => []

/-- The entries of `storage_by_node`, if that is a dictionary. -/
def givenStorages (payload : Dict) : List (String × String) :=
  match payload "storage_by_node" with
  | some (.obj entries) => entries.map fun e => (e.1, e.2.toText)
  | _ => []

/-- `_safe_qga_sec`. -/
def safeQgaSec (payload : Dict) : ℤ :=
  max 0 (min 3600 ((payload.getOr "qga_wait_sec" (.int 0)).toInt.getD 0))

/-- `_normalize_network_mode` of the payload. -/
def networkMode (payload : Dict) : String :=
  normalizeNetworkMode (payload.getOr "network_mode" (.str "none")).toText

/-- The restore mode of a location. -/
def restoreMode (payload : Dict) : String :=
  Text.lower (Text.strip (payload.getOr "restore_mode" (.str "normal")).toText)

/-- The `data` of `normalize_location`. -/
def locationData (payload : Dict) (locationId name : String) (nodes : List String)
    (storageByNode : List (String × String)) (storage : String) (vmidStart bwlimit : ℤ) : Dict :=
  ofFields [
    ("id", .str locationId),
    ("name", .str name),
    ("node", .str (nodes.headD "")),
    ("nodes", .arr (nodes.map .str)),
    ("storage", .str storage),
    ("storage_by_node", .obj (storageByNode.map fun e => (e.1, .str e.2))),
    ("vmid_start", .int vmidStart),
    ("bwlimit", .int bwlimit),
    ("live_restore", .bool (payload.getD "live_restore" (.bool false)).truthy),
    ("restore_mode", .str payload.restoreMode),
    ("power_on", .bool (payload.getD "power_on" (.bool false)).truthy),
    ("qga_wait_sec", .int payload.safeQgaSec),
    ("network_mode", .str payload.networkMode),
    ("lab_bridge", .str (payload.textOr "lab_bridge")),
    ("isolated", .bool ((payload.getD "isolated" (.bool false)).truthy ||
      payload.networkMode ∈ ["unlink", "remap"])),
    ("http_check_url", .str (payload.textOr "http_check_url")),
    ("created_at", payload.getOr "created_at" (.str "")),
    ("updated_at", payload.getOr "updated_at" (.str ""))]

/-- `normalize_location`. -/
def normalizeLocation (payload : Dict) (locationId : String) : Except Exn Dict := do
  let name ← payload.stripOr "name"
  let node ← payload.stripOr "node"
  let storage ← payload.stripOr "storage"
  if name = "" then .error (.valueError "name is required")
  else do
    -- The first of these nodes is the node of the location.
    let nodes ← normalizeNodes node payload.givenNodes
    match (payload.getD "vmid_start" (.int 100)).toInt with
    | none => .error (.valueError "vmid_start must be an integer >= 100")
    | some vmidStart =>
      if vmidStart < 100 then .error (.valueError "vmid_start must be >= 100")
      else
        match (payload.getOr "bwlimit" (.int 0)).toInt with
        | none => .error (.valueError "bwlimit must be an integer >= 0")
        | some bwlimit =>
          if bwlimit < 0 then .error (.valueError "bwlimit must be >= 0")
          else if payload.restoreMode ∉ ["normal", "dr"] then
            .error (.valueError "restore_mode must be 'normal' or 'dr'")
          else do
            let storageByNode := normalizeStorages nodes payload.givenStorages storage
            checkStorages nodes storageByNode
            let storage := (storageByNode.lookup (nodes.headD "")).getD storage
            if storage = "" then .error (.valueError "storage is required")
            else if payload.networkMode = "remap" ∧ payload.textOr "lab_bridge" = "" then
              .error (.valueError "lab_bridge is required when network_mode=remap")
            else
              return payload.locationData locationId name nodes storageByNode storage vmidStart
                bwlimit

end Dict

/-! ### Plans -/

/-- How `normalize_plan` makes a field of the value under its key. -/
abbrev FieldRule := Option Json → Except Exn Json

namespace FieldRule

/-- `v or default`. -/
def orDefault (v : Option Json) (default : Json) : Json := (v.filter Json.truthy).getD default

/-- A text that is required. -/
def required (message : String) : FieldRule := fun v => do
  let text ← Dict.stripped (orDefault v (.str ""))
  if text = "" then .error (.valueError message) else return .str text

/-- `[str(g).strip() for g in … if str(g).strip()]`. -/
def strippedTexts (v : Json) : Except Exn (List String) :=
  match v.iterate with
  | none => .error (.typeError "object is not iterable")
  | some items => .ok ((items.map fun g => Text.strip g.toText).filter (· ≠ ""))

/-- `group_ids`. -/
def groupIds : FieldRule := fun v => do
  let ids ← strippedTexts (orDefault v (.arr []))
  if ids = [] then .error (.valueError "plan needs at least one group_id")
  else return .arr (ids.map .str)

/-- The values of `PlanVerification`. -/
def verifications : List String := ["NOT_VERIFIED", "NEEDS_VERIFIED", "VERIFIED"]

/-- `verification`. -/
def verification : FieldRule := fun v => do
  let text ← Dict.stripped (orDefault v (.str "NOT_VERIFIED"))
  if text ∉ verifications then .error (.valueError s!"invalid verification: {text}")
  else return .str text

/-- The values of `PlanAssurance`. -/
def assurances : List String := ["UNKNOWN", "IN_PROGRESS", "ASSURED", "FAILED"]

/-- `assurance_status`. -/
def assuranceStatus : FieldRule := fun v => do
  let text ← Dict.stripped (orDefault v (.str "UNKNOWN"))
  return .str (if text ∉ assurances then "UNKNOWN" else text)

/-- `assurance_max_rto_sec`. -/
def maxRto : FieldRule := fun v => .ok (.int (max 0 ((orDefault v (.int 0)).toInt.getD 0)))

/-- `assurance_last_rto_sec`. -/
def lastRto : FieldRule
  | none | some .null | some (.str "") => .ok .null
  | some v => .ok (v.toInt.elim .null .int)

/-- `bool(payload.get(key, default))`. -/
def flag (default : Bool) : FieldRule := fun v => .ok (.bool (v.getD (.bool default)).truthy)

/-- `schedule_interval_hours`. -/
def hours : FieldRule := fun v =>
  match (orDefault v (.int 0)).toInt with
  | none => .error (.valueError "invalid literal for int()")
  | some n => .ok (.int (max 0 n))

/-- `payload.get(key) or ""`. -/
def orBlank : FieldRule := fun v => .ok (orDefault v (.str ""))

/-- `str(payload.get(key) or "")`. -/
def detail : FieldRule := fun v => .ok (.str (orDefault v (.str "")).toText)

/-- `last_check`: a dictionary. -/
def lastCheck : FieldRule := fun v => .ok ((v.filter Json.isObj).getD (.obj []))

end FieldRule

/-- The fields of `normalize_plan`, but for the id. -/
def planRules : List (String × FieldRule) := [
  ("name", .required "name is required"),
  ("group_ids", .groupIds),
  ("location_id", .required "location_id is required"),
  ("verification", .verification),
  ("assurance_status", .assuranceStatus),
  ("assurance_max_rto_sec", .maxRto),
  ("assurance_last_rto_sec", .lastRto),
  ("halt_on_error", .flag true),
  ("enabled", .flag true),
  ("schedule_enabled", .flag false),
  ("schedule_interval_hours", .hours),
  ("schedule_drill", .flag true),
  ("last_scheduled_run_at", .orBlank),
  ("assurance_enabled", .flag false),
  ("assurance_require_qga", .flag false),
  ("assurance_require_http", .flag false),
  ("assurance_updated_at", .orBlank),
  ("assurance_last_run_id", .orBlank),
  ("assurance_detail", .detail),
  ("last_check_at", .orBlank),
  ("last_run_at", .orBlank),
  ("last_check", .lastCheck),
  ("last_run_report_id", .orBlank),
  ("last_check_report_id", .orBlank),
  ("created_at", .orBlank),
  ("updated_at", .orBlank)]

namespace Dict

/-- The fields that rules make of a payload. -/
def fieldsOf (payload : Dict) : List (String × FieldRule) → Except Exn (List (String × Json))
  | [] => .ok []
  | (key, rule) :: rules => do
    let v ← rule (payload key)
    let fields ← fieldsOf payload rules
    return (key, v) :: fields

/-- `normalize_plan`. -/
def normalizePlan (payload : Dict) (planId : String) : Except Exn Dict := do
  let fields ← payload.fieldsOf planRules
  return ofFields (("id", .str planId) :: fields)

/-- `_save_entity`: what is stored at the instant `now`. -/
def saveEntity (data : Dict) (entityId now : String) : Dict :=
  let data := (data.set "id" (.str entityId)).set "updated_at" (.str now)
  if ((data "created_at").filter Json.truthy).isSome then data else data.set "created_at" (.str now)

/-- `create_plan`. -/
def createPlan (payload : Dict) (planId now : String) : Except Exn Dict := do
  let data ← payload.normalizePlan planId
  return data.saveEntity planId now

/-- The items of a list are these texts. -/
def sameTexts : List Json → List String → Bool
  | [], [] => true
  | .str s :: items, t :: texts => s = t && sameTexts items texts
  | _, _ => false

/-- `membership_changed` because of the groups. -/
def changesGroups (payload existing : Dict) : Except Exn Bool :=
  match payload "group_ids" with
  | none | some .null => .ok false
  | some v => do
    let newIds ← FieldRule.strippedTexts v
    return match existing "group_ids" with
      | some (.arr items) => !sameTexts items newIds
      | _ => true

/-- `membership_changed` because of the location. -/
def changesLocation (payload existing : Dict) : Except Exn Bool :=
  match payload "location_id" with
  | none => .ok false
  | some _ => do
    let location ← payload.stripOr "location_id"
    return match existing "location_id" with
      | some (.str s) => location ≠ s
      | _ => true

/-- The first of the values that counts as true. -/
def firstOr (merged existing : Dict) (key : String) : Json :=
  ((merged key).filter Json.truthy).getD (existing.getOr key (.str ""))

/-- An assurance field is restored unless the payload sets it. -/
def restoreAssurance (payload existing data : Dict) (key : String) : Dict :=
  match payload key, existing key with
  | none, some (.str "") | none, some .null | none, none => data
  | none, some v => data.set key v
  | some _, _ => data

/-- The `merged` of `update_plan`. -/
def mergePlan (existing payload : Dict) (planId : String) (membershipChanged : Bool) : Dict :=
  let merged := (existing.overlay payload).set "id" (.str planId)
  if membershipChanged && (payload "verification").isNone then
    merged.set "verification" (.str "NEEDS_VERIFIED")
  else merged

/-- What `update_plan` puts back into the normalized `merged`. -/
def restorePlan (payload existing merged data : Dict) : Dict :=
  let data := data.set "created_at" (existing.getOr "created_at" (.str ""))
  let data := ["last_check_at", "last_run_at", "last_scheduled_run_at", "last_run_report_id",
    "last_check_report_id"].foldl (fun data key => data.set key (merged.firstOr existing key)) data
  let data := ["assurance_status", "assurance_updated_at", "assurance_last_run_id",
    "assurance_last_rto_sec", "assurance_detail"].foldl (payload.restoreAssurance existing) data
  match (merged "last_check").filter Json.isObj, (existing "last_check").filter Json.isObj with
  | some check, _ => data.set "last_check" check
  | none, some check => data.set "last_check" check
  | none, none => data

/-- `update_plan`. -/
def updatePlan (existing : Option Dict) (payload : Dict) (planId now : String) :
    Except Exn Dict :=
  match existing with
  | none => .error (.keyError s!"'{planId}'")
  | some existing => do
    let groupsChanged ← payload.changesGroups existing
    let locationChanged ← payload.changesLocation existing
    let merged := existing.mergePlan payload planId (groupsChanged || locationChanged)
    let data ← merged.normalizePlan planId
    return (payload.restorePlan existing merged data).saveEntity planId now

/-- The id that a plan is stored under. -/
def entityId (plan : Dict) : String :=
  match plan "id" with
  | some (.str id) => id
  | _ => ""

/-- What `apply_check_result` stores: the check, and its report if that is saved. -/
def applyCheckResult (plan : Dict) (check : List (String × Json)) (now : String)
    (report : Option String) : Dict :=
  let ok := ((ofFields check).getD "ok" .null).truthy
  let checkedAt := ((ofFields check).getOr "checked_at" (.str now)).toText
  let updated := plan.overlay (ofFields [
    ("last_check", .obj check),
    ("last_check_at", .str checkedAt),
    ("verification", .str (if ok then "VERIFIED" else "NOT_VERIFIED"))])
  let saved := updated.saveEntity plan.entityId now
  match report with
  | none => saved
  | some report => (saved.set "last_check_report_id" (.str report)).saveEntity plan.entityId now

/-- The verification of a plan that a run starts from. -/
def startedVerification (plan : Dict) : Json :=
  match plan.getD "verification" (.str "NOT_VERIFIED") with
  | .str "VERIFIED" => .str "NEEDS_VERIFIED"
  | v => v

/-- What `start_plan_run` stores of the plan. -/
def startPlanRun (plan : Dict) (now : String) : Dict :=
  (plan.overlay (ofFields [("last_run_at", .str now),
    ("verification", plan.startedVerification)])).saveEntity plan.entityId now

/-- The value of a `PlanAssurance`. -/
def assuranceText : PlanAssurance → String
  | .UNKNOWN => "UNKNOWN"
  | .IN_PROGRESS => "IN_PROGRESS"
  | .ASSURED => "ASSURED"
  | .FAILED => "FAILED"

/-- What `apply_assurance_from_run` stores of the plan: the verdict of the policy, and when the run
finished. -/
def applyAssurance (plan : Dict) (status : PlanAssurance) (detail : String) (rto : Option ℤ)
    (runId : String) (finishedAt : Json) (now : String) : Dict :=
  let finished := if finishedAt.truthy then finishedAt else .str now
  (plan.overlay (ofFields [
    ("assurance_status", .str (assuranceText status)),
    ("assurance_updated_at", .str now),
    ("assurance_last_run_id", .str runId),
    ("assurance_last_rto_sec", rto.elim .null .int),
    ("assurance_detail", .str detail),
    ("last_run_at", plan.getOr "last_run_at" finished)])).saveEntity plan.entityId now

/-- What the scheduler stores of a plan that it has started. -/
def markScheduled (plan : Dict) (now : String) : Dict :=
  (plan.set "last_scheduled_run_at" (.str now)).saveEntity plan.entityId now

/-- What `_finalize_plan_run_report` stores of the plan. -/
def attachRunReport (plan : Dict) (report now : String) : Dict :=
  (plan.set "last_run_report_id" (.str report)).saveEntity plan.entityId now

end Dict

end RestoreEngine
