import RestoreEngine.Model.World
import RestoreEngine.Model.Text
import Mathlib.Data.Finset.Image
import Mathlib.Data.List.Dedup

/-!
# `pve_client.py`: the Proxmox helpers

Allocation of VMIDs, placement on nodes, the ownership marker, the guarded destruction of
guests, network isolation, and waiting for tasks and guest agents.

The loops that poll until a task ends are bounded by a number of polls: a program that has
used them up waits without end, which is how a poll loop that is still waiting behaves.
-/

namespace RestoreEngine

open Effects Prog

/-! ### Tags and the ownership marker -/

/-- `_TAG_LOOKS_LIKE_CONFIG_KEY_RE`: a letter, then word characters, then a final colon. -/
def looksLikeConfigKey (tag : String) : Bool :=
  match tag.toList.reverse with
  | ':' :: rest =>
    match rest.reverse with
    | c :: cs => c.isAlpha && !cs.isEmpty && cs.all fun d => d.isAlphanum || d == '_'
    | [] => false
  | _ => false

/-- A hexadecimal digit. -/
def isHex (c : Char) : Bool :=
  c.isDigit || ('a' ≤ c && c ≤ 'f') || ('A' ≤ c && c ≤ 'F')

/-- `_TAG_UUID_RE`: hexadecimal groups of 8, 4, 4, 4 and 12 digits. -/
def looksLikeUuid (tag : String) : Bool :=
  let groups := tag.toList.splitOn '-'
  groups.map List.length == [8, 4, 4, 4, 12] && groups.all (·.all isHex)

/-- `_sanitize_tag_token`. -/
def sanitizeTagToken (tag : String) : Option String :=
  let tag := Text.strip tag
  if tag = "" then none
  else if looksLikeConfigKey tag then none
  else if Text.startsWith (Text.lower tag) "vmgenid:" then none
  else if looksLikeUuid tag then none
  else some tag

/-- Keep the first of the tags that are equal up to case. -/
def dedupTags (seen : List String) : List String → List String
  | [] => []
  | tag :: rest =>
    let key := Text.lower tag
    if key ∈ seen then dedupTags seen rest else tag :: dedupTags (key :: seen) rest

/-- `_qemu_tags_from_config`. -/
def qemuTagsFromConfig (cfg : GuestConfig) : List String :=
  match cfg.lookup "tags" with
  | none => []
  | some raw =>
    let text := String.ofList (raw.toList.map fun c => if c = ',' then ';' else c)
    dedupTags [] ((Text.split text ';').filterMap sanitizeTagToken)

/-- `MANAGED_TAG`. -/
def managedTag : String := "restore-engine"

/-- `MANAGED_DESC_PREFIX`. -/
def managedDescMarker : String := "restore-engine:"

/-- The configuration carries the ownership marker, as a tag or in the description. -/
def carriesMarker (cfg : GuestConfig) : Bool :=
  ((qemuTagsFromConfig cfg).map Text.lower).contains (Text.lower managedTag) ||
    Text.contains ((cfg.lookup "description").getD "") managedDescMarker

/-- `get_qemu_config`. -/
def getQemuConfig (px : Client) (node : String) (vmid : ℤ) : Prog GuestConfig :=
  issue (.qemuConfig px node vmid) >>= Program.ofExcept

/-- `qemu_is_managed_by_tool`. -/
def qemuIsManagedByTool (px : Client) (node : String) (vmid : ℤ) : Prog Bool := do
  match ← (getQemuConfig px node vmid).attempt with
  | .error _ => return false
  | .ok cfg => return carriesMarker cfg

/-- The configuration changes by which `mark_qemu_managed_by_tool` stamps a guest. -/
def markerChanges (cfg : GuestConfig) (jobId : Uuid) (planRunId : Option Uuid) : GuestConfig :=
  let tags := qemuTagsFromConfig cfg
  let tags :=
    if managedTag ∉ tags ∧ Text.lower managedTag ∉ tags.map Text.lower then tags ++ [managedTag]
    else tags
  let run := match planRunId with | some r => toString r | none => "-"
  let marker := s!"{managedDescMarker}job={jobId};run={run}"
  let desc := Text.strip ((cfg.lookup "description").getD "")
  let desc :=
    if Text.contains desc managedDescMarker then
      let parts := (Text.split desc '\n').filter fun p => !Text.contains p managedDescMarker
      Text.strip (Text.join "\n" ((parts ++ [marker]).filter (· ≠ "")))
    else if desc = "" then marker
    else Text.strip (desc ++ "\n" ++ marker)
  [("tags", Text.join ";" tags), ("description", desc)]

/-- `mark_qemu_managed_by_tool`. -/
def markQemuManagedByTool (px : Client) (node : String) (vmid : ℤ) (jobId : Uuid)
    (planRunId : Option Uuid) : Prog Unit := do
  let node := Text.strip node
  let cfg ← getQemuConfig px node vmid
  issue (.qemuConfigPut px node vmid (markerChanges cfg jobId planRunId)) >>= Program.ofExcept

/-! ### The cluster listing -/

/-- `_cluster_vm_resources`: a listing that fails, or is not a list, is an empty listing. -/
def clusterVmResources (px : Client) : Prog (List Resource) := do
  match ← issue (.clusterResources px) with
  | .error _ => return []
  | .ok none => return []
  | .ok (some rows) => return rows

/-- The VMIDs that the rows of a listing occupy. -/
def vmidsOf (rows : List Resource) : Finset ℤ :=
  (rows.filterMap fun row =>
    let typ := Text.lower (Text.strip row.type)
    if typ ≠ "" ∧ typ ∉ ["qemu", "lxc"] then none else row.vmid).toFinset

/-- `qemu_vmids_in_use_cluster`. -/
def qemuVmidsInUseCluster (px : Client) : Prog (Finset ℤ) := do
  return vmidsOf (← clusterVmResources px)

/-- `find_guest_resource` on the rows of a listing. -/
def findIn (rows : List Resource) (vmid : ℤ) : Option Resource :=
  (rows.find? fun row => row.vmid == some vmid).map fun row =>
    let typ := Text.lower (Text.strip row.type)
    { type := if typ = "" then "qemu" else typ, node := Text.strip row.node, vmid := some vmid }

/-- `find_guest_resource`. -/
def findGuestResource (px : Client) (vmid : ℤ) : Prog (Option Resource) := do
  return findIn (← clusterVmResources px) vmid

/-- `find_qemu_node`; the empty text stands for `None`. -/
def findQemuNode (px : Client) (vmid : ℤ) : Prog String := do
  match ← findGuestResource px vmid with
  | some guest => return if guest.type = "qemu" then guest.node else ""
  | none => return ""

/-! ### Stopping and destroying guests -/

/-- The status polls of `stop_qemu_vm`, one for each second of its timeout. -/
def pollStopped (px : Client) (node : String) (vmid : ℤ) : ℕ → Prog Unit
  | 0 => return ()
  | n + 1 => do
    match ← issue (.qemuStatus px node vmid) with
    | .error _ => return ()
    | .ok status =>
      if Text.lower status ∈ ["stopped", "unknown", ""] then return ()
      else pollStopped px node vmid n

/-- `stop_qemu_vm`. -/
def stopQemuVm (px : Client) (node : String) (vmid : ℤ) (timeout : ℕ) : Prog Unit := do
  let _ ← issue (.qemuStop px (Text.strip node) vmid)
  pollStopped px (Text.strip node) vmid (max 5 timeout)

/-- The delete attempts of `destroy_qemu_vm`: `unreferenced` is the parameter that an older
client may reject, `lastExc` the exception to raise once the attempts are used up. -/
def deleteAttempts (px : Client) (node : String) (vmid : ℤ) (unreferenced : Bool)
    (lastExc : Option Exn) : ℕ → Prog Unit
  | 0 =>
    match lastExc with
    | some exc => .raise exc
    | none => return ()
  | left + 1 => do
    match ← issue (.qemuDelete px node vmid unreferenced) with
    | .ok () => return ()
    | .error (.typeError _) =>
      match ← issue (.qemuDelete px node vmid false) with
      | .ok () => return ()
      | .error exc => deleteAttempts px node vmid false (some exc) left
    | .error exc =>
      if Text.contains (Text.lower exc.text) "running" ∧ 0 < left then do
        stopQemuVm px node vmid 60
        deleteAttempts px node vmid unreferenced (some exc) left
      else .raise exc

/-- `destroy_qemu_vm`. -/
def destroyQemuVm (px : Client) (node : String) (vmid : ℤ) : Prog Unit := do
  let node := Text.strip node
  if node = "" then .raise (.valueError "node is required to destroy a VM")
  else do
    stopQemuVm px node vmid 90
    deleteAttempts px node vmid true none 3

/-- `destroy_owned_qemu_vm`. -/
def destroyOwnedQemuVm (px : Client) (node : String) (vmid : ℤ)
    (allowRunProvenance : Bool := false) : Prog String := do
  match ← findGuestResource px vmid with
  | none => return "absent"
  | some guest =>
    if guest.type = "lxc" then
      .raise (.guestOwnershipError (s!"Refusing to destroy VMID {vmid}: it is an LXC " ++
        "container (never deleted by restore-engine)"))
    else if guest.type ≠ "qemu" then
      .raise (.guestOwnershipError
        s!"Refusing to destroy VMID {vmid}: unsupported guest type '{guest.type}'")
    else do
      let node := Text.strip (if guest.node = "" then Text.strip node else guest.node)
      if ← qemuIsManagedByTool px node vmid then do
        destroyQemuVm px node vmid
        return "managed"
      else if allowRunProvenance then do
        destroyQemuVm px node vmid
        return "run_provenance"
      else
        .raise (.guestOwnershipError (s!"Refusing to destroy VMID {vmid} on {node}: not " ++
          s!"provisioned by restore-engine (missing '{managedTag}' marker). " ++
          "Remove foreign guests manually in Proxmox."))

/-! ### Placement and allocation -/

/-- The first node of least load; ties go to the earlier node. -/
def leastLoaded (counts : String → ℕ) : List String → Option String
  | [] => none
  | n :: rest =>
    match leastLoaded counts rest with
    | none => some n
    | some m => if counts m < counts n then some m else some n

/-- The assignments of `assign_nodes_least_loaded`, one for each job. -/
def assignNodes (nodes : List String) (counts : String → ℕ) : ℕ → List String
  | 0 => []
  | left + 1 =>
    match leastLoaded counts nodes with
    | none => []
    | some pick =>
      pick :: assignNodes nodes (fun n => if n = pick then counts n + 1 else counts n) left

/-- `assign_nodes_least_loaded`. A node that is given twice has the rank of its last place, as
in the dictionary `order`, which is what `List.dedup` keeps. -/
def assignNodesLeastLoaded (candidates : List String) (count : ℕ)
    (activeCounts : String → ℕ) : Except Exn (List String) :=
  let nodes := (candidates.map Text.strip).filter (· ≠ "")
  if nodes = [] then .error (.valueError "at least one Proxmox node is required")
  else .ok (assignNodes nodes.dedup activeCounts count)

/-- The scan of `allocate_sequential_free_vmids`: `left` VMIDs are still wanted, the scan is
at `v` and may look at `window` more. -/
def scanFree (inUse : Finset ℤ) (v : ℤ) : (left window : ℕ) → List ℤ
  | 0, _ => []
  | _ + 1, 0 => []
  | left + 1, window + 1 =>
    if v ∈ inUse then scanFree inUse (v + 1) (left + 1) window
    else v :: scanFree inUse (v + 1) left window

/-- `allocate_sequential_free_vmids`: the VMIDs and the start of the next search. The scan
looks at `max(100, desired_start)` up to and including `upper`. The caller's set is not part
of the result: the allocated VMIDs increase strictly, so that adding them to the set during
the scan decides nothing. -/
def allocateSequentialFreeVmids (inUse : Finset ℤ) (desiredStart : ℤ) (count : ℕ) :
    Except Exn (List ℤ × ℤ) :=
  if count < 1 then .ok ([], desiredStart)
  else
    let v := max 100 desiredStart
    let span := max 5000 (count * 250)
    let out := scanFree inUse v count (span + 1)
    if out.length < count then
      .error (.runtimeError (s!"could not allocate {count} free guest VMIDs starting near " ++
        s!"{desiredStart} (exhausted scan to {v + span})"))
    else .ok (out, out.getLastD desiredStart + 1)

/-- `resolve_storage_for_node`. -/
def resolveStorageForNode (node : String) (storageByNode : List (String × String))
    (defaultStorage : String) : Except Exn String :=
  let mapped := Text.strip ((storageByNode.lookup node).getD "")
  if mapped ≠ "" then .ok mapped
  else
    let fallback := Text.strip defaultStorage
    if fallback ≠ "" then .ok fallback
    else .error (.runtimeError s!"No target storage selected for node {node}")

/-- `archive_path`. -/
def archivePath (pveStorage voltail : String) : Except Exn String :=
  let pveStorage := Text.strip pveStorage
  if pveStorage = "" then
    .error (.valueError "pve_storage is required (PVE storage ID for the PBS datastore)")
  else
    let voltail := Text.lstripChar (Text.strip voltail) '/'
    if voltail = "" then
      .error (.valueError "voltail is required (e.g. vm/100/2026-05-01T01:00:00Z)")
    else .ok s!"{pveStorage}:backup/{voltail}"

/-! ### Restores, tasks and guests -/

/-- `submit_restore`. -/
def submitRestore (px : Client) (node : String) (targetVmid : ℤ) (archive targetStorage : String)
    (liveRestore : Bool) (bwlimit : ℤ) (unique force : Bool) : Prog String := do
  let params : RestoreParams :=
    { vmid := targetVmid, archive, storage := targetStorage, liveRestore, unique, force
      bwlimit := if 0 < bwlimit then some bwlimit else none }
  match ← issue (.qemuRestore px node params) with
  | .error exc => .raise exc
  | .ok none => .raise (.runtimeError "Unexpected restore response")
  | .ok (some upid) => return upid

/-- `_explain_pve_task_failure`. -/
def explainPveTaskFailure (exitstatus : String) : String :=
  let msg := s!"PVE task failed: {exitstatus}"
  let low := Text.lower exitstatus
  if Text.contains low "hostpci" && Text.contains low "only root" then
    msg ++ " — this backup includes PCI passthrough; Proxmox requires root (or mapped PCI " ++
      "devices) to restore hostpci* config. Use root credentials, or remove passthrough from " ++
      "the source before backup."
  else msg

/-- The polling loop of `wait_for_task`, which gives up at `deadline`, if there is one.
`onTick` gets the log lines of every poll; what it raises is ignored. -/
def pollTask (px : Client) (node upid : String) (timeoutSec : ℤ) (deadline : Option Instant)
    (shouldCancel : Prog Bool) (onTick : List String → Prog Unit) : ℕ → Prog Unit
  | 0 => park
  | polls + 1 => do
    let now ← utcNow
    if deadline.any (· ≤ now) then
      .raise (.timeoutError s!"PVE task {upid} did not finish within {timeoutSec}s")
    else if ← shouldCancel then do
      issue (.taskStop px node upid)
      .raise (.taskCancelled s!"PVE task {upid} cancelled by operator")
    else
      match ← issue (.taskStatus px node upid) with
      | .error exc => .raise exc
      | .ok none => pollTask px node upid timeoutSec deadline shouldCancel onTick polls
      | .ok (some status) => do
        let lines := match ← issue (.taskLog px node upid) with
          | .error _ => []
          | .ok lines => lines
        let _ ← (onTick lines).attempt
        if Text.lower status.status = "stopped" then
          if status.exitstatus ≠ "" ∧ Text.lower status.exitstatus ≠ "ok" then
            .raise (.runtimeError (explainPveTaskFailure status.exitstatus))
          else return ()
        else pollTask px node upid timeoutSec deadline shouldCancel onTick polls

/-- The length of a second. -/
def second : ℤ := 1000000

/-- `wait_for_task`. A timeout of zero or less is none. -/
def waitForTask (px : Client) (node upid : String) (timeoutSec : ℤ)
    (shouldCancel : Prog Bool) (onTick : List String → Prog Unit) (polls : ℕ) : Prog Unit := do
  let now ← utcNow
  let deadline := if timeoutSec ≤ 0 then none else some (now + timeoutSec * second)
  pollTask px node upid timeoutSec deadline shouldCancel onTick polls

/-- The polling loop of `wait_for_qemu_agent`: the instant at which the agent answered. -/
def pollAgent (px : Client) (node : String) (vmid : ℤ) (timeoutSec : ℤ)
    (deadline : Instant) (shouldCancel : Prog Bool) : ℕ → Prog Instant
  | 0 => park
  | polls + 1 => do
    if ← shouldCancel then .raise (.taskCancelled s!"QGA wait cancelled for VMID {vmid}")
    else do
      let answered ← issue (.agentPing px node vmid)
      let now ← utcNow
      if answered then return now
      else if deadline ≤ now then
        .raise (.timeoutError (s!"QEMU guest agent did not respond within {timeoutSec}s " ++
          s!"(VMID {vmid} on {node})"))
      else pollAgent px node vmid timeoutSec deadline shouldCancel polls

/-- `wait_for_qemu_agent`: how long the agent took. -/
def waitForQemuAgent (px : Client) (node : String) (vmid : ℤ) (timeoutSec : ℤ)
    (shouldCancel : Prog Bool) (polls : ℕ) : Prog ℤ := do
  let started ← utcNow
  let answered ← pollAgent px node vmid timeoutSec (started + max 1 timeoutSec * second)
    shouldCancel polls
  return max 0 (answered - started)

/-- `start_qemu_vm`. -/
def startQemuVm (px : Client) (node : String) (vmid : ℤ) : Prog (Option String) := do
  let upid ← issue (.qemuStart px node vmid) >>= Program.ofExcept
  return (upid.map Text.strip).filter (· ≠ "")

/-- The text of a network device after `apply_network_isolation`, or `none` if it stays. -/
def isolatedDevice (mode labBridge text : String) : Except Exn (Option String) :=
  if mode = "unlink" then
    if Text.contains text "link_down=1" then .ok none
    else .ok (some (text ++ if text = "" then "link_down=1" else ",link_down=1"))
  else if mode = "remap" then
    if labBridge = "" then .error (.valueError "lab_bridge is required for network remap")
    else
      let parts := (Text.split text ',').filter fun p => p ≠ "" ∧ !Text.startsWith p "bridge="
      .ok (some (Text.join "," (parts ++ [s!"bridge={labBridge}"])))
  else .error (.valueError s!"Unknown network isolation mode: {mode}")

/-- The changes of `apply_network_isolation`. -/
def isolationChanges (mode labBridge : String) : GuestConfig → Except Exn GuestConfig
  | [] => .ok []
  | (key, text) :: rest =>
    if Text.startsWith key "net" then do
      let change ← isolatedDevice mode labBridge text
      let changes ← isolationChanges mode labBridge rest
      return match change with
        | some text' => (key, text') :: changes
        | none => changes
    else isolationChanges mode labBridge rest

/-- `apply_network_isolation`. -/
def applyNetworkIsolation (px : Client) (node : String) (vmid : ℤ) (mode labBridge : String) :
    Prog Unit := do
  let mode := Text.lower (Text.strip mode)
  if mode ∈ ["", "none", "off"] then return ()
  else do
    let cfg ← getQemuConfig px node vmid
    let changes ← Program.ofExcept (isolationChanges mode (Text.strip labBridge) cfg)
    if changes = [] then return ()
    else issue (.qemuConfigPut px node vmid changes) >>= Program.ofExcept

/-- `hostname_matches_pve_name`. -/
def hostnameMatchesPveName (guestHostname pveName : String) : Bool :=
  let guest := Text.rstripChar (Text.lower (Text.strip guestHostname)) '.'
  let expect := Text.rstripChar (Text.lower (Text.strip pveName)) '.'
  if guest = "" ∨ expect = "" then false
  else guest == expect || Text.startsWith guest (expect ++ ".") ||
    Text.startsWith expect (guest ++ ".")

end RestoreEngine
