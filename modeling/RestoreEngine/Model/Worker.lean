import RestoreEngine.Model.Jobs

/-!
# `worker.py`: running a job

`processJob` takes a claimed job through its life: it marks it RESTORING, submits the
restore, waits for it, stamps the ownership marker on the new guest, applies the network
isolation, powers the guest on or off, runs the checks, and marks the job COMPLETED. An
operator's cancel ends it as CANCELLED, every exception (`runJob`) as FAILED.

Job logs and the metrics of a running restore are left out: a write of such fields shows as
one that only stamps `updated_at`.
-/

namespace RestoreEngine

open Effects Prog

/-! ### Writes to the job hash -/

/-- HSET of fields that are left out. -/
def stamp (now : Instant) (j : Job) : Job := { j with updatedAt := some now }

/-- The fields that `set_state` writes, the extra field `error` among them. -/
def stateFields (state : RestoreState) (error : Option String) (now : Instant) (j : Job) : Job :=
  { stamp now j with state := some state, error := error.getD j.error }

/-- `set_state`. -/
def setState (cfg : Config) (id : Uuid) (state : RestoreState) (error : Option String := none) :
    Prog Unit := do
  hset id (stateFields state error)
  if 0 < cfg.jobTtlSec ∧ state.IsTerminal then issue (.expire id) else return ()

/-- `cancel_requested`. -/
def cancelRequested (id : Uuid) : Prog Bool := do
  return ((← hgetall id).getD {}).cancelRequested

/-- `mark_cancelled`. -/
def markCancelled (cfg : Config) (id : Uuid) : Prog Unit := setState cfg id .CANCELLED

/-! ### Waiting -/

/-- The `except` clauses around a wait: the operator's cancel ends the job, and the result
`false` makes `process_job` return; a timeout becomes a runtime error. -/
def cancellable (cfg : Config) (id : Uuid) (wait : Prog Unit) : Prog Bool := do
  match ← wait.attempt with
  | .ok () => return true
  | .error (.taskCancelled _) => do
    markCancelled cfg id
    return false
  | .error (.timeoutError t) => .raise (.runtimeError t)
  | .error exc => .raise exc

/-- `on_tick`: the metrics are written when there are new log lines. -/
def onTick (id : Uuid) (lines : List String) : Prog Unit :=
  if lines = [] then return () else hset id stamp

/-! ### The stages of `process_job` -/

/-- `data[key]`. -/
def requireField {α : Type} (key : String) : Option α → Except Exn α
  | none => .error (.keyError s!"'{key}'")
  | some v => .ok v

/-- The node and the VMID that the job hash names. The backup and the storage have to be there,
too. -/
def placement (data : Job) : Except Exn (String × ℤ) := do
  let node ← requireField "proxmox_node" data.proxmoxNode
  let vmid ← requireField "proxmox_vmid" data.proxmoxVmid
  let _ ← requireField "backup_id" data.backupId
  let _ ← requireField "proxmox_storage" data.proxmoxStorage
  return (node, vmid)

/-- `backup_id`, which `placement` has found to be there. -/
def Job.backupRef (data : Job) : String := data.backupId.getD ""

/-- `target_storage`, which `placement` has found to be there. -/
def Job.targetStorage (data : Job) : String := data.proxmoxStorage.getD ""

/-- The restore task: submitted, recorded in the hash, and waited for. -/
def restoreTask (cfg : Config) (polls : ℕ) (px : Client) (id : Uuid) (data : Job)
    (node : String) (vmid : ℤ) : Prog Bool := do
  let upid ← submitRestore px node vmid data.archive data.targetStorage data.liveRestore
    data.bwlimit data.unique data.force
  hset id fun now j => { stamp now j with pveUpid := upid, restoreStartedAt := some now }
  cancellable cfg id
    (waitForTask px node upid cfg.taskTimeoutSec (cancelRequested id) (onTick id) polls)

/-- The attempts to stamp the ownership marker, of which `left` remain after `stampErr`. -/
def stampAttempts (px : Client) (id : Uuid) (planRunId : Option Uuid) (node : String)
    (vmid : ℤ) (stampErr : Option Exn) : (left : ℕ) → Prog Unit
  | 0 => do
    hset id fun now j => { stamp now j with managedMarked := "0" }
    let reason := (stampErr.map Exn.text).getD ""
    .raise (.runtimeError (s!"Failed to stamp ownership marker on VMID {vmid} after retries: " ++
      s!"{reason}. Guest was restored but is unmarked — reclaim/teardown will refuse it until " ++
      s!"tagged '{managedTag}' manually or the guest is removed in Proxmox."))
  | left + 1 => do
    match ← (markQemuManagedByTool px node vmid id planRunId).attempt with
    | .ok () => hset id fun now j => { stamp now j with managedMarked := "1" }
    | .error exc => stampAttempts px id planRunId node vmid (some exc) left

/-- The network isolation of the new guest. -/
def isolateGuest (px : Client) (data : Job) (node : String) (vmid : ℤ) : Prog Unit := do
  let netMode := Text.lower (Text.strip data.networkMode)
  if netMode ∈ ["unlink", "remap"] then
    match ← (applyNetworkIsolation px node vmid netMode (Text.strip data.labBridge)).attempt with
    | .ok () => return ()
    | .error exc =>
      .raise (.runtimeError s!"Network isolation failed for VMID {vmid}: {exc.text}")
  else return ()

/-- The wait for the start task, if the start request returned one. -/
def awaitStart (cfg : Config) (polls : ℕ) (px : Client) (id : Uuid) (node : String) :
    Option String → Prog Bool
  | none => return true
  | some upid =>
    cancellable cfg id
      (waitForTask px node upid cfg.taskTimeoutSec (cancelRequested id) (fun _ => pure ()) polls)

/-- The start of the guest. A live restore has started it already. -/
def startGuest (cfg : Config) (polls : ℕ) (px : Client) (id : Uuid) (data : Job)
    (node : String) (vmid : ℤ) : Prog Bool := do
  if data.liveRestore then return true
  else
    match ← (startQemuVm px node vmid).attempt with
    | .error exc => .raise (.runtimeError s!"Failed to start VMID {vmid}: {exc.text}")
    | .ok startUpid => do
      if ← awaitStart cfg polls px id node startUpid then do
        hset id fun now j => { stamp now j with poweredOff := false }
        return true
      else return false

/-- `_check_guest_hostname`. -/
def checkGuestHostname (px : Client) (id : Uuid) (node : String) (vmid : ℤ) : Prog Unit := do
  let pveName := match ← (getQemuConfig px node vmid).attempt with
    | .ok cfg => Text.strip ((cfg.lookup "name").getD "")
    | .error _ => ""
  let guestHost := (← issue (.agentHostname px node vmid)).getD ""
  let isMatch := pveName ≠ "" ∧ hostnameMatchesPveName guestHost pveName
  let shown := if pveName = "" then "—" else pveName
  let warning :=
    if guestHost = "" ∨ isMatch then ""
    else s!"Guest hostname '{guestHost}' does not match PVE name '{shown}'"
  hset id fun now j =>
    { stamp now j with
      pveName
      guestHostname := guestHost
      hostnameMatch := if guestHost = "" then "" else if isMatch then "1" else "0"
      hostnameWarning := warning }

/-- Seconds with one decimal. -/
def secondsText (span : ℤ) : String :=
  let tenths := (span + second / 20) / (second / 10)
  s!"{tenths / 10}.{tenths % 10}"

/-- The wait for the guest agent, and the comparison of the host name once it answers. -/
def agentCheck (cfg : Config) (polls : ℕ) (px : Client) (id : Uuid) (qgaWaitSec : ℤ)
    (node : String) (vmid : ℤ) : Prog Bool := do
  match ← (waitForQemuAgent px node vmid qgaWaitSec (cancelRequested id) polls).attempt with
  | .ok waited => do
    hset id fun now j => { stamp now j with qgaOk := "1", qgaWaitedSec := secondsText waited }
    checkGuestHostname px id node vmid
    return true
  | .error (.taskCancelled _) => do
    markCancelled cfg id
    return false
  | .error (.timeoutError t) => do
    hset id fun now j =>
      { stamp now j with qgaOk := "0", qgaWaitedSec := toString qgaWaitSec }
    .raise (.runtimeError t)
  | .error exc => .raise exc

/-- The HTTP check of the guest. -/
def httpCheck (id : Uuid) (data : Job) : Prog Unit := do
  let url := Text.strip data.httpCheckUrl
  if url = "" then return ()
  else do
    let outcome : Except Exn Unit := match ← issue (.httpGet url) with
      | .error exc => .error exc
      | .ok code =>
        if 400 ≤ code then .error (.runtimeError s!"HTTP check returned {code}") else .ok ()
    match outcome with
    | .ok () => hset id fun now j => { stamp now j with httpCheckOk := "1" }
    | .error exc => do
      hset id fun now j => { stamp now j with httpCheckOk := "0" }
      .raise (.runtimeError s!"HTTP check failed: {exc.text}")

/-- The wait for the guest agent, if the job asks for one; else only the host name is
compared. -/
def agentStep (cfg : Config) (polls : ℕ) (px : Client) (id : Uuid) (qgaWaitSec : ℤ)
    (node : String) (vmid : ℤ) : Prog Bool :=
  if 0 < qgaWaitSec then agentCheck cfg polls px id qgaWaitSec node vmid
  else do
    checkGuestHostname px id node vmid
    return true

/-- The stages that follow the start of the guest. -/
def checkGuest (cfg : Config) (polls : ℕ) (px : Client) (id : Uuid) (data : Job)
    (node : String) (vmid : ℤ) : Prog Bool := do
  if ← agentStep cfg polls px id (max 0 data.qgaWaitSec) node vmid then do
    httpCheck id data
    return true
  else return false

/-- The power policy of the job. -/
def powerGuest (cfg : Config) (polls : ℕ) (px : Client) (id : Uuid) (data : Job)
    (node : String) (vmid : ℤ) : Prog Bool := do
  if data.powerOn || data.liveRestore || decide (0 < data.qgaWaitSec) then do
    if ← startGuest cfg polls px id data node vmid then
      checkGuest cfg polls px id data node vmid
    else return false
  else do
    stopQemuVm px node vmid 60
    return true

/-- `process_job` from the stamping of the restored guest on. -/
def finishJob (cfg : Config) (polls : ℕ) (px : Client) (id : Uuid) (data : Job)
    (node : String) (vmid : ℤ) : Prog Unit := do
  stampAttempts px id data.planRunId node vmid none 3
  isolateGuest px data node vmid
  if ← powerGuest cfg polls px id data node vmid then setState cfg id .COMPLETED
  else return ()

/-- `process_job` from the opening of the API client on. -/
def restoreGuest (cfg : Config) (polls : ℕ) (id : Uuid) (data : Job) (node : String)
    (vmid : ℤ) : Prog Unit := do
  let px := Client.job id
  connect px
  if ← restoreTask cfg polls px id data node vmid then finishJob cfg polls px id data node vmid
  else return ()

/-- The wire sample, which is best effort. -/
def sampleStep (id : Uuid) (backupId : String) : Prog Unit := do
  if ← issue (.wireSample backupId) then hset id stamp else return ()

/-- `process_job` for a job that is not cancelled. -/
def beginJob (cfg : Config) (polls : ℕ) (id : Uuid) (data : Job) : Prog Unit := do
  let (node, vmid) ← Program.ofExcept (placement data)
  if data.archive = "" then
    .raise (.runtimeError s!"Job {id} has no archive volid stored")
  else do
    setState cfg id .RESTORING
    sampleStep id data.backupRef
    restoreGuest cfg polls id data node vmid

/-- **`process_job`.** -/
def processJob (cfg : Config) (polls : ℕ) (id : Uuid) : Prog Unit := do
  match ← hgetall id with
  | none => return ()
  | some data =>
    if ← cancelRequested id then markCancelled cfg id
    else beginJob cfg polls id data

/-! ### The worker -/

/-- `run_job`: an exception fails the job. -/
def runJob (cfg : Config) (polls : ℕ) (id : Uuid) : Prog Unit := do
  match ← (processJob cfg polls id).attempt with
  | .ok () => return ()
  | .error exc => setState cfg id .FAILED (some exc.text)

/-- One turn of the claiming loop of `worker_loop`, together with the job it claims. -/
def claimJob (cfg : Config) (polls : ℕ) : Prog Unit := do
  match ← issue .blpop with
  | none => return ()
  | some id => runJob cfg polls id

end RestoreEngine
