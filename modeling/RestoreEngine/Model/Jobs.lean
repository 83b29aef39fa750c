import RestoreEngine.Model.PveClient

/-!
# `jobs.py`: enqueueing restores

`enqueueRestores` checks its request, lists the guests of the cluster, allocates a target
VMID for every row, places the rows on nodes, reclaims occupied VMIDs (DR mode with
`overwrite`), and writes one job hash per row, pushing its id to the queue.

The steps that only compute are separate functions returning `Except`; the program strings
them together with the commands it issues.
-/

namespace RestoreEngine

open Effects Prog

/-- The arguments of `enqueue_restores`. -/
structure EnqueueRequest where
  rows : List Row
  node : String := ""
  nodes : List String := []
  targetStorage : String := ""
  storageByNode : List (String × String) := []
  vmidStart : ℤ
  liveRestore : Bool
  bwlimit : ℤ
  restoreMode : String := "normal"
  planRunId : Option Uuid := none
  planGroupIndex : Option ℕ := none
  powerOn : Bool := false
  qgaWaitSec : ℤ := 0
  networkMode : String := "none"
  labBridge : String := ""
  overwrite : Bool := false
  httpCheckUrl : String := ""
  deriving DecidableEq

/-- The result of `enqueue_restores`. -/
structure EnqueueResult where
  jobIds : List Uuid
  proxmoxVmidsAssigned : List ℤ
  proxmoxNodesAssigned : List String
  proxmoxStoragesAssigned : List String
  loadBalanceNodes : List String
  restoreMode : String
  powerOn : Bool
  qgaWaitSec : ℤ
  deriving DecidableEq

/-! ### Placement by load -/

/-- The counting loop of `active_restore_counts_by_node`. -/
def countActive (counts : String → ℕ) : List Uuid → Prog (String → ℕ)
  | [] => return counts
  | id :: rest => do
    let data := (← hgetall id).getD {}
    let node := Text.strip (data.proxmoxNode.getD "")
    if data.IsLive ∧ node ≠ "" then
      countActive (fun n => if n = node then counts n + 1 else counts n) rest
    else countActive counts rest

/-- `active_restore_counts_by_node`. -/
def activeRestoreCountsByNode : Prog (String → ℕ) := do
  countActive (fun _ => 0) (← issue .scanJobs)

/-! ### What a request says -/

namespace EnqueueRequest

/-- The restore mode, `normal` unless one is given. -/
def mode (req : EnqueueRequest) : String :=
  Text.lower (Text.strip (if req.restoreMode = "" then "normal" else req.restoreMode))

/-- `qga_sec`. -/
def qgaSec (req : EnqueueRequest) : ℤ := max 0 req.qgaWaitSec

/-- `do_power_on`: a live restore boots the guest, and a wait for its agent needs it up. -/
def doPowerOn (req : EnqueueRequest) : Bool :=
  req.powerOn || req.liveRestore || decide (0 < req.qgaSec)

/-- The candidate nodes: `nodes`, or the single `node` if it names none. -/
def candidates (req : EnqueueRequest) : List String :=
  match (req.nodes.map Text.strip).filter (· ≠ "") with
  | [] => [Text.strip req.node].filter (· ≠ "")
  | nodes => nodes

/-- `by_node`. A later entry for a node replaces an earlier one. -/
def byNode (req : EnqueueRequest) : List (String × String) :=
  ((req.storageByNode.map fun e => (Text.strip e.1, Text.strip e.2)).filter
    fun e => e.1 ≠ "" ∧ e.2 ≠ "").reverse

/-- The storage of a node. -/
def storageFor (req : EnqueueRequest) (node : String) : Except Exn String :=
  resolveStorageForNode node req.byNode (Text.strip req.targetStorage)

/-- The network mode of the jobs; what is not known counts as `none`. -/
def netMode (req : EnqueueRequest) : String :=
  let mode := Text.lower (Text.strip (if req.networkMode = "" then "none" else req.networkMode))
  if mode ∈ ["none", "unlink", "remap"] then mode else "none"

/-- `unique_flag`. -/
def uniqueFlag (req : EnqueueRequest) : Bool := req.mode ≠ "dr"

/-- `force_flag`. -/
def forceFlag (req : EnqueueRequest) : Bool := if req.mode = "dr" then req.overwrite else true

/-- The checks that precede every contact with the cluster. -/
def check (req : EnqueueRequest) : Except Exn Unit :=
  if req.mode ∉ ["normal", "dr"] then
    .error (.runtimeError s!"restore_mode must be 'normal' or 'dr', got '{req.restoreMode}'")
  else if req.candidates = [] then
    .error (.runtimeError "proxmox node (or nodes) is required")
  else req.candidates.forM fun cand => (req.storageFor cand).map fun _ => ()

/-- The target VMIDs in DR mode: the source VMIDs, which must be there, distinct, and not in
use unless `overwrite` is set. -/
def sourceVmids (inUse : Finset ℤ) (overwrite : Bool) (seen : List ℤ) :
    List Row → Except Exn (List ℤ)
  | [] => .ok []
  | row :: rest =>
    match row.vmid with
    | none =>
      .error (.runtimeError "DR restore requires a valid source VMID on each backup: 'vmid'")
    | some v =>
      if v ∈ seen then
        .error (.runtimeError (s!"DR restore batch has duplicate source VMID {v}; " ++
          "select one snapshot per VM"))
      else if v ∈ inUse ∧ !overwrite then
        .error (.runtimeError (s!"DR restore failed: VMID {v} already exists on the Proxmox " ++
          "cluster (QEMU or LXC). Remove that guest manually in Proxmox, or use Normal restore " ++
          "to assign a new VMID. Overwrite only reclaims guests previously restored by " ++
          "restore-engine."))
      else do
        let vmids ← sourceVmids inUse overwrite (v :: seen) rest
        return v :: vmids

/-- The target VMIDs of a request, one for each row. -/
def allocate (req : EnqueueRequest) (inUse : Finset ℤ) : Except Exn (List ℤ) :=
  if req.mode = "dr" then sourceVmids inUse req.overwrite [] req.rows
  else (allocateSequentialFreeVmids inUse req.vmidStart req.rows.length).map Prod.fst

/-- The nodes of the rows and the storages on them. -/
def place (req : EnqueueRequest) (counts : String → ℕ) :
    Except Exn (List String × List String) := do
  let nodes ← assignNodesLeastLoaded req.candidates req.rows.length counts
  let storages ← nodes.mapM req.storageFor
  return (nodes, storages)

/-- The job hash of one row. -/
def newJob (req : EnqueueRequest) (row : Row) (sourceVmid vmid : ℤ)
    (node storage archive : String) (now : Instant) (hash : Job) : Job :=
  { hash with
    state := some .PENDING
    backupId := some row.backupId
    vmName := row.name
    sourceVmid := some sourceVmid
    sourceLabel := row.sourceLabel
    proxmoxVmid := some vmid
    proxmoxNode := some node
    proxmoxStorage := some storage
    liveRestore := req.liveRestore
    poweredOff := !req.doPowerOn
    powerOn := req.doPowerOn
    qgaWaitSec := req.qgaSec
    qgaOk := ""
    qgaWaitedSec := ""
    networkMode := req.netMode
    labBridge := Text.strip req.labBridge
    overwrite := req.overwrite
    httpCheckUrl := Text.strip req.httpCheckUrl
    httpCheckOk := ""
    bwlimit := req.bwlimit
    restoreMode := req.mode
    unique := req.uniqueFlag
    force := req.forceFlag
    archive := archive
    backupSizeBytes := max 0 row.sizeBytes
    error := ""
    createdAt := some now
    updatedAt := some now
    planRunId := req.planRunId
    planGroupIndex := req.planGroupIndex }

end EnqueueRequest

/-! ### The program -/

/-- The in-use VMIDs, the exceptions of the listing translated. -/
def listInUse (px : Client) : Prog (Finset ℤ) := do
  match ← (qemuVmidsInUseCluster px).attempt with
  | .ok inUse => return inUse
  | .error exc =>
    .raise (.runtimeError s!"Cannot list guest VMIDs in Proxmox cluster: {exc.text}")

/-- The node that a listing names, or one found by another look at the cluster. -/
def nodeOrFind (px : Client) (listed : String) (vmid : ℤ) : Prog String :=
  if listed ≠ "" then return listed else findQemuNode px vmid

/-- The VMID is one of an LXC container. -/
def refusedLxc (vmid : ℤ) : Exn :=
  .runtimeError (s!"DR overwrite refused: VMID {vmid} is an LXC container. " ++
    "restore-engine never deletes LXCs. Move/remove it in Proxmox or use Normal restore.")

/-- The node of the VMID is not known. -/
def refusedUnknown (vmid : ℤ) : Exn :=
  .runtimeError s!"Cannot overwrite VMID {vmid}: node unknown"

/-- The guest at the VMID does not carry the ownership marker. -/
def refusedForeign (vmid : ℤ) (node : String) : Exn :=
  .runtimeError (s!"DR overwrite refused: VMID {vmid} on {node} was not " ++
    "provisioned by restore-engine. Foreign VMs are never deleted by this tool — remove " ++
    "it manually in Proxmox (or leave the slot empty), then retry.")

/-- The destruction of the guest raised. -/
def destroyFailed (vmid : ℤ) (exc : Exn) : Exn :=
  .runtimeError s!"DR overwrite failed destroying managed VMID {vmid}: {exc.text}"

/-- Reclaim one occupied VMID for a DR restore with `overwrite`. -/
def reclaimVmid (px : Client) (candidates : List String) (vmid : ℤ) : Prog Unit := do
  let guest ← findGuestResource px vmid
  if (guest.map (·.type)).getD "" = "lxc" then .raise (refusedLxc vmid)
  else do
    let found ← nodeOrFind px ((guest.map (·.node)).getD "") vmid
    let node := if found ≠ "" then found else candidates.headD ""
    if node = "" then .raise (refusedUnknown vmid)
    else if ← qemuIsManagedByTool px node vmid then do
      match ← (destroyOwnedQemuVm px node vmid).attempt with
      | .ok _ => return ()
      | .error exc => .raise (destroyFailed vmid exc)
    else .raise (refusedForeign vmid node)

/-- The reclaiming loop: every allocated VMID that was in use. -/
def reclaimVmids (px : Client) (candidates : List String) (inUse : Finset ℤ) :
    List ℤ → Prog Unit
  | [] => return ()
  | vmid :: rest =>
    if vmid ∈ inUse then do
      reclaimVmid px candidates vmid
      reclaimVmids px candidates inUse rest
    else reclaimVmids px candidates inUse rest

/-- The reclaiming step, which only DR mode with `overwrite` has. -/
def reclaimStep (req : EnqueueRequest) (px : Client) (inUse : Finset ℤ) (vmids : List ℤ) :
    Prog Unit :=
  if req.mode = "dr" ∧ req.overwrite then reclaimVmids px req.candidates inUse vmids
  else return ()

/-- The writing loop: one job for each row, VMID, node and storage. -/
def writeJobs (req : EnqueueRequest) : List (Row × ℤ × String × String) → Prog (List Uuid)
  | [] => return []
  | (row, vmid, node, storage) :: rest => do
    let jobId ← uuid4
    let now ← utcNow
    let archive ← Program.ofExcept (archivePath row.pveStorage row.voltail)
    let sourceVmid ← Program.ofExcept (row.vmid.elim (.error (.keyError "'vmid'")) .ok)
    hset jobId fun _ => req.newJob row sourceVmid vmid node storage archive now
    issue (.rpush jobId)
    let jobIds ← writeJobs req rest
    return jobId :: jobIds

/-- The part of `enqueue_restores` that follows the allocation. -/
def enqueueAllocated (req : EnqueueRequest) (px : Client) (inUse : Finset ℤ)
    (vmids : List ℤ) : Prog EnqueueResult := do
  let counts ← activeRestoreCountsByNode
  let (nodes, storages) ← Program.ofExcept (req.place counts)
  reclaimStep req px inUse vmids
  -- The four lists have one entry for each row, so that `strict=True` never raises.
  let jobIds ← writeJobs req (req.rows.zip (vmids.zip (nodes.zip storages)))
  return {
    jobIds
    proxmoxVmidsAssigned := vmids
    proxmoxNodesAssigned := nodes
    proxmoxStoragesAssigned := storages
    loadBalanceNodes := req.candidates
    restoreMode := req.mode
    powerOn := req.doPowerOn
    qgaWaitSec := req.qgaSec }

/-- **`enqueue_restores`.** -/
def enqueueRestores (req : EnqueueRequest) : Prog EnqueueResult := do
  Program.ofExcept req.check
  let px := Client.enqueue req.planRunId
  connect px
  let inUse ← listInUse px
  let vmids ← Program.ofExcept (req.allocate inUse)
  enqueueAllocated req px inUse vmids

end RestoreEngine
