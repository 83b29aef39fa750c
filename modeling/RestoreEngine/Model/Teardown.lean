import RestoreEngine.Model.Assurance

/-!
# Tearing down a plan run

`teardown_plan_run` destroys the guests at the targets that a run remembers. The targets are
VMIDs with nodes: the ones recorded when groups were enqueued, and the ones that the hashes
of the run's jobs name.
-/

namespace RestoreEngine

open Effects Prog

/-! ### Targets -/

/-- Enter a target into the dictionary `by_vmid`, kept in the order of the VMIDs. A target
whose node is not known yet takes the new one. -/
def addTarget (vmid : ℤ) (node : String) : List Target → List Target
  | [] => [{ vmid, node }]
  | t :: rest =>
    if vmid < t.vmid then { vmid, node } :: t :: rest
    else if vmid = t.vmid then
      if node ≠ "" ∧ t.node = "" then { vmid, node } :: rest else t :: rest
    else t :: addTarget vmid node rest

/-- Enter a target unless its VMID is not positive. -/
def noteTarget (byVmid : List Target) (vmid : ℤ) (node : String) : List Target :=
  if vmid ≤ 0 then byVmid else addTarget vmid (Text.strip node) byVmid

/-- The loop of `collect_plan_run_targets` over the job hashes. -/
def collectFromJobs (byVmid : List Target) : List Uuid → Prog (List Target)
  | [] => return byVmid
  | id :: rest => do
    let data := (← hgetall id).getD {}
    collectFromJobs (noteTarget byVmid (data.proxmoxVmid.getD 0) (data.proxmoxNode.getD "")) rest

/-- `collect_plan_run_targets`. -/
def collectPlanRunTargets (run : PlanRun) : Prog (List Target) :=
  collectFromJobs (run.assignedTargets.foldl (fun byVmid t => noteTarget byVmid t.vmid t.node) [])
    run.jobIdsByGroup.flatten

/-- The restore of the job was submitted, or its guest marked. -/
def startedRestore (data : Job) : Bool :=
  data.pveUpid ≠ "" || data.restoreStartedAt.isSome || data.managedMarked == "1"

/-- `provenance_vmids`: the targets of the jobs that started a restore. -/
def provenanceVmids : List Uuid → Prog (List ℤ)
  | [] => return []
  | id :: rest => do
    let found := (← hgetall id).filter startedRestore
    let vmids ← provenanceVmids rest
    return (found.bind (·.proxmoxVmid)).toList ++ vmids

/-! ### The destruction of the targets -/

/-- The exception texts that count as a guest already gone. -/
def meansGone (text : String) : Bool :=
  let lower := Text.lower text
  Text.contains lower "does not exist" || Text.contains lower "no such" ||
    Text.contains lower "not found" || Text.contains lower "absent"

/-- The node of a target, looked up in the cluster if it is not recorded. -/
def targetNode (px : Client) (t : Target) : Prog String :=
  if Text.strip t.node = "" then findQemuNode px t.vmid else return Text.strip t.node

/-- The entry of a target whose destruction ended with `outcome`. -/
def entryOf (vmid : ℤ) (node : String) : Except Exn String → TeardownEntry
  | .ok _ => { vmid, node, ok := true }
  | .error (.guestOwnershipError text) => { vmid, node, error := text }
  | .error exc =>
    if meansGone exc.text then { vmid, node, ok := true, error := "already gone" }
    else { vmid, node, error := exc.text }

/-- The treatment of one target. -/
def teardownTarget (px : Client) (provenance : List ℤ) (t : Target) : Prog TeardownEntry := do
  let node ← targetNode px t
  if node = "" then return { vmid := t.vmid, node, error := "node unknown" }
  else
    entryOf t.vmid node <$>
      (destroyOwnedQemuVm px node t.vmid (decide (t.vmid ∈ provenance))).attempt

/-- The loop over the targets. -/
def teardownTargets (px : Client) (provenance : List ℤ) :
    List Target → Prog (List TeardownEntry)
  | [] => return []
  | t :: rest => do
    let entry ← teardownTarget px provenance t
    let entries ← teardownTargets px provenance rest
    return entry :: entries

/-- The status that the entries amount to. -/
def teardownStatusOf (results : List TeardownEntry) : TeardownStatus :=
  let okCount := results.countP (·.ok)
  if results = [] ∨ okCount = results.length then .COMPLETED
  else if okCount = 0 then .FAILED
  else .PARTLY

/-- The client of a teardown, opened if there is a target. -/
def connectFor (px : Client) (targets : List Target) : Prog Unit :=
  if targets = [] then return () else connect px

/-- **`teardown_plan_run`.** -/
def teardownPlanRun (run : PlanRun) : Prog PlanRun := do
  if run.teardownStatus = .COMPLETED then return run
  else if run.status = .RUNNING then
    .raise (.valueError "Cannot teardown a RUNNING plan run; cancel or wait for it to finish")
  else do
    let targets ← collectPlanRunTargets run
    let px := Client.teardown run.id
    connectFor px targets
    let provenance ← provenanceVmids run.jobIdsByGroup.flatten
    let results ← teardownTargets px provenance targets
    let now ← utcNow
    savePlanRun { run with
      teardownStatus := teardownStatusOf results
      teardownResults := results
      teardownAt := some now }

end RestoreEngine
