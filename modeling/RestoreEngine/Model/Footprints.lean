import RestoreEngine.Model.Rules

/-!
# Footprints

Which commands a program can issue at all. A footprint is a predicate on commands, and
`Program.Only` says that a program stays within it; the frame rule `Program.Only.satisfies`
turns a footprint into what the program leaves alone.
-/

namespace RestoreEngine

open Effects Prog Program

variable {px : Client} {node : String} {vmid : ℤ}

/-! ### Reading jobs -/

/-- An aggregation reads job hashes, and nothing else. -/
theorem aggregatePlanRun_only {F : Op → Prop} (hF : ∀ id, F (.hgetall id)) (run : PlanRun) :
    (aggregatePlanRun run).Only F := by
  refine Only.bind ?_ fun _ => only_ret
  induction groupedJobs 0 run.jobIdsByGroup with
  | nil => exact only_ret
  | cons e rest ih =>
    exact Only.bind (only_perform.mpr (hF _)) fun _ => Only.bind ih fun _ => only_ret

/-! ### Destroying a guest -/

/-- The commands by which a guest is looked up, stopped and destroyed. -/
def Op.OfDestroy (px : Client) (vmid : ℤ) : Op → Prop
  | clusterResources px' => px' = px
  | qemuConfig px' _ v | qemuStop px' _ v | qemuStatus px' _ v => px' = px ∧ v = vmid
  | qemuDelete px' _ v _ => px' = px ∧ v = vmid
  | _ => False

theorem clusterVmResources_only : (clusterVmResources px).Only (Op.OfDestroy px vmid) := by
  refine Only.bind (only_perform.mpr rfl) fun r => ?_
  rcases r with e | _ | rows <;> exact only_ret

theorem findGuestResource_only {v : ℤ} :
    (findGuestResource px v).Only (Op.OfDestroy px vmid) :=
  Only.bind clusterVmResources_only fun _ => only_ret

theorem findQemuNode_only {v : ℤ} : (findQemuNode px v).Only (Op.OfDestroy px vmid) := by
  refine Only.bind findGuestResource_only fun guest => ?_
  cases guest <;> exact only_ret

theorem getQemuConfig_only : (getQemuConfig px node vmid).Only (Op.OfDestroy px vmid) :=
  Only.bind (only_perform.mpr ⟨rfl, rfl⟩) fun _ => only_ofExcept

theorem qemuIsManagedByTool_only :
    (qemuIsManagedByTool px node vmid).Only (Op.OfDestroy px vmid) := by
  refine Only.bind getQemuConfig_only.attempt fun r => ?_
  cases r <;> exact only_ret

private theorem pollStopped_only (n : ℕ) :
    (pollStopped px node vmid n).Only (Op.OfDestroy px vmid) := by
  induction n with
  | zero => exact only_ret
  | succ n ih =>
    refine Only.bind (only_perform.mpr ⟨rfl, rfl⟩) fun r => ?_
    cases r with
    | error e => exact only_ret
    | ok status => exact Only.ite (fun _ => only_ret) fun _ => ih

theorem stopQemuVm_only {timeout : ℕ} :
    (stopQemuVm px node vmid timeout).Only (Op.OfDestroy px vmid) :=
  Only.bind (only_perform.mpr ⟨rfl, rfl⟩) fun _ => pollStopped_only _

private theorem deleteAttempts_only (unreferenced : Bool) (lastExc : Option Exn) (left : ℕ) :
    (deleteAttempts px node vmid unreferenced lastExc left).Only (Op.OfDestroy px vmid) := by
  induction left generalizing unreferenced lastExc with
  | zero =>
    cases lastExc with
    | none => exact only_ret
    | some exc => exact only_raise
  | succ left ih =>
    refine Only.bind (only_perform.mpr ⟨rfl, rfl⟩) fun r => ?_
    split
    · exact only_ret
    · refine Only.bind (only_perform.mpr ⟨rfl, rfl⟩) fun r' => ?_
      cases r' with
      | ok _ => exact only_ret
      | error exc => exact ih false (some exc)
    · exact Only.ite (fun _ => Only.bind stopQemuVm_only fun _ => ih _ _) fun _ => only_raise

theorem destroyQemuVm_only :
    (destroyQemuVm px node vmid).Only (Op.OfDestroy px vmid) :=
  Only.ite (fun _ => only_raise) fun _ =>
    Only.bind stopQemuVm_only fun _ => deleteAttempts_only _ _ _

theorem destroyOwnedQemuVm_only {prov : Bool} :
    (destroyOwnedQemuVm px node vmid prov).Only (Op.OfDestroy px vmid) := by
  refine Only.bind findGuestResource_only fun guest => ?_
  cases guest with
  | none => exact only_ret
  | some guest =>
    refine Only.ite (fun _ => only_raise) fun _ => Only.ite (fun _ => only_raise) fun _ => ?_
    refine Only.bind qemuIsManagedByTool_only fun managed => ?_
    refine Only.ite (fun _ => Only.bind destroyQemuVm_only fun _ => only_ret) fun _ => ?_
    exact Only.ite (fun _ => Only.bind destroyQemuVm_only fun _ => only_ret) fun _ => only_raise

/-! ### Enqueueing -/

/-- The commands of `enqueue_restores`. -/
def Op.OfEnqueue (req : EnqueueRequest) : Op → Prop
  | hgetall _ | scanJobs | uuid4 | utcNow | rpush _ => True
  | hset _ f => ∃ row sourceVmid vmid node storage archive now,
      f = fun _ => EnqueueRequest.newJob req row sourceVmid vmid node storage archive now
  | connect px | clusterResources px | qemuConfig px _ _ | qemuStop px _ _
  | qemuStatus px _ _ | qemuDelete px _ _ _ => px = .enqueue req.planRunId
  | _ => False

theorem Op.OfDestroy.ofEnqueue {req : EnqueueRequest} {o : Op}
    (h : o.OfDestroy (.enqueue req.planRunId) vmid) : o.OfEnqueue req := by
  cases o <;> simp only [Op.OfDestroy, Op.OfEnqueue] at h ⊢ <;> first | exact h | exact h.1

/-- Counting the active restores scans and reads job hashes, and nothing else. -/
theorem activeRestoreCountsByNode_only {F : Op → Prop} (hscan : F .scanJobs)
    (hget : ∀ id, F (.hgetall id)) : activeRestoreCountsByNode.Only F := by
  have hcount (counts : String → ℕ) (ids : List Uuid) : (countActive counts ids).Only F := by
    induction ids generalizing counts with
    | nil => exact only_ret
    | cons id rest ih =>
      exact Only.bind (only_perform.mpr (hget id)) fun _ =>
        Only.ite (fun _ => ih _) fun _ => ih _
  exact Only.bind (only_perform.mpr hscan) fun _ => hcount _ _

private theorem reclaimVmid_only {candidates : List String} :
    (reclaimVmid px candidates vmid).Only (Op.OfDestroy px vmid) := by
  refine Only.bind findGuestResource_only fun guest => ?_
  refine Only.ite (fun _ => only_raise) fun _ => ?_
  refine Only.bind (Only.ite (fun _ => only_ret) fun _ => findQemuNode_only) fun found => ?_
  refine Only.ite (fun _ => only_raise) fun _ => ?_
  refine Only.bind qemuIsManagedByTool_only fun managed => ?_
  refine Only.ite (fun _ => ?_) fun _ => only_raise
  refine Only.bind destroyOwnedQemuVm_only.attempt fun r => ?_
  cases r with
  | ok _ => exact only_ret
  | error _ => exact only_raise

/-- Reclaiming looks at the VMIDs, and stops and destroys guests. -/
theorem reclaimStep_only {req : EnqueueRequest} {inUse : Finset ℤ} {vmids : List ℤ} :
    (reclaimStep req px inUse vmids).Only fun o : Op => ∃ v, o.OfDestroy px v := by
  refine Only.ite (fun _ => ?_) fun _ => only_ret
  induction vmids with
  | nil => exact only_ret
  | cons vmid rest ih =>
    refine Only.ite (fun _ => Only.bind ?_ fun _ => ih) fun _ => ih
    exact reclaimVmid_only.mono fun _ ho => ⟨vmid, ho⟩

private theorem writeJobs_only {req : EnqueueRequest} (rows : List (Row × ℤ × String × String)) :
    (writeJobs req rows).Only (Op.OfEnqueue req) := by
  induction rows with
  | nil => exact only_ret
  | cons e rest ih =>
    obtain ⟨row, vmid, node, storage⟩ := e
    refine Only.bind (only_perform.mpr trivial) fun jobId => ?_
    refine Only.bind (only_perform.mpr trivial) fun now => ?_
    refine Only.bind only_ofExcept fun archive => Only.bind only_ofExcept fun sourceVmid => ?_
    refine Only.bind (only_perform.mpr ⟨_, _, _, _, _, _, _, rfl⟩) fun _ => ?_
    exact Only.bind (only_perform.mpr trivial) fun _ => Only.bind ih fun _ => only_ret

/-- The in-use VMIDs are read from the listing. -/
theorem listInUse_only {F : Op → Prop} (hF : F (.clusterResources px)) : (listInUse px).Only F := by
  refine Only.bind (Only.attempt (Only.bind (Only.bind (only_perform.mpr hF) fun r => ?_)
    fun _ => only_ret)) fun r => ?_
  · rcases r with e | _ | rows <;> exact only_ret
  · cases r with
    | ok inUse => exact only_ret
    | error exc => exact only_raise

theorem enqueueRestores_only {req : EnqueueRequest} :
    (enqueueRestores req).Only (Op.OfEnqueue req) := by
  refine Only.bind only_ofExcept fun _ => ?_
  refine Only.bind (Only.bind (only_perform.mpr rfl) fun _ => only_ofExcept) fun _ => ?_
  refine Only.bind (listInUse_only rfl) fun inUse => Only.bind only_ofExcept fun vmids => ?_
  refine Only.bind (activeRestoreCountsByNode_only trivial fun _ => trivial) fun counts => ?_
  refine Only.bind only_ofExcept fun placed => Only.bind ?_ fun _ => ?_
  · exact reclaimStep_only.mono fun _ ⟨_, ho⟩ => ho.ofEnqueue
  · exact Only.bind (writeJobs_only _) fun _ => only_ret

/-! ### The worker -/

/-- **What the hash of a job has to name** for the worker to place it. -/
theorem placement_ok_iff {data : Job} : placement data = .ok (node, vmid) ↔
    data.proxmoxNode = some node ∧ data.proxmoxVmid = some vmid ∧ data.backupId ≠ none ∧
      data.proxmoxStorage ≠ none := by
  rw [placement]
  -- the first field that is missing is the one that the exception names
  rcases data.proxmoxNode with - | n
  · simp [requireField, bind, Except.bind]
  rcases data.proxmoxVmid with - | v
  · simp [requireField, bind, Except.bind]
  rcases data.backupId with - | b
  · simp [requireField, bind, Except.bind]
  rcases data.proxmoxStorage with - | s
  · simp [requireField, bind, Except.bind]
  simp [requireField, bind, Except.bind, pure, Except.pure]

/-- What is fixed when a job is enqueued. -/
def Job.origin (j : Job) :
    Option String × Option ℤ × Option String × Option Uuid × Option ℕ × Bool × String :=
  (j.backupId, j.proxmoxVmid, j.proxmoxNode, j.planRunId, j.planGroupIndex, j.force, j.archive)

/-- The write leaves alone what is fixed when a job is enqueued. -/
def KeepsOrigin (f : Instant → Job → Job) : Prop := ∀ now j, (f now j).origin = j.origin

/-- The write leaves the state of a job alone. -/
def KeepsState (f : Instant → Job → Job) : Prop := ∀ now j, (f now j).state = j.state

/-- The commands of a stage of the job `id`: what a worker does with the guest and the hash without
restoring or starting the guest, and without marking the state of the job. -/
def Op.OfStage (id : Uuid) : Op → Prop
  | hset i f => i = id ∧ KeepsOrigin f ∧ KeepsState f
  | hgetall i => i = id
  | utcNow | wireSample _ | httpGet _ | park => True
  | connect px | qemuConfig px _ _ | qemuConfigPut px _ _ _ | qemuStop px _ _
  | qemuStatus px _ _ | taskStatus px _ _ | taskLog px _ _ | taskStop px _ _
  | agentPing px _ _ | agentHostname px _ _ => px = .job id
  | _ => False

/-- The commands by which a worker attends to the job `id`, without restoring or starting its
guest. -/
def Op.OfWatch (id : Uuid) : Op → Prop
  | hset i f => i = id ∧ KeepsOrigin f
  | hgetall i | expire i => i = id
  | utcNow | wireSample _ | httpGet _ | park => True
  | connect px | qemuConfig px _ _ | qemuConfigPut px _ _ _ | qemuStop px _ _
  | qemuStatus px _ _ | taskStatus px _ _ | taskLog px _ _ | taskStop px _ _
  | agentPing px _ _ | agentHostname px _ _ => px = .job id
  | _ => False

/-- The commands by which a worker runs the job `id`. -/
def Op.OfJob (id : Uuid) (o : Op) : Prop :=
  o.OfWatch id ∨ (∃ node p, o = .qemuRestore (.job id) node p) ∨
    ∃ node v, o = .qemuStart (.job id) node v

/-- The commands by which a worker attends to the job `id` once its guest is restored. -/
def Op.OfFinish (id : Uuid) (o : Op) : Prop :=
  o.OfWatch id ∨ ∃ node v, o = .qemuStart (.job id) node v

theorem Op.OfStage.ofWatch {id : Uuid} {o : Op} (h : o.OfStage id) : o.OfWatch id := by
  cases o <;> first | exact h | exact ⟨h.1, h.2.1⟩ | exact h.elim

theorem Op.OfWatch.ofJob {id : Uuid} {o : Op} (h : o.OfWatch id) : o.OfJob id := .inl h

theorem Op.OfFinish.ofJob {id : Uuid} {o : Op} (h : o.OfFinish id) : o.OfJob id :=
  h.imp_right .inr

section Worker

variable {cfg : Config} {polls : ℕ} {id : Uuid}

theorem setState_only {state : RestoreState} {error : Option String} :
    (setState cfg id state error).Only (Op.OfWatch id) :=
  Only.bind (only_perform.mpr ⟨rfl, fun _ _ => rfl⟩) fun _ =>
    Only.ite (fun _ => only_perform.mpr rfl) fun _ => only_ret

theorem cancelRequested_ofStage : (cancelRequested id).Only (Op.OfStage id) :=
  Only.bind (only_perform.mpr rfl) fun _ => only_ret

theorem cancelRequested_only : (cancelRequested id).Only (Op.OfWatch id) :=
  cancelRequested_ofStage.mono fun _ ho => ho.ofWatch

private theorem pollTask_ofStage {upid : String} {timeoutSec : ℤ} {deadline : Option Instant}
    {onTick : List String → Prog Unit} (htick : ∀ lines, (onTick lines).Only (Op.OfStage id)) :
    (pollTask (.job id) node upid timeoutSec deadline (cancelRequested id) onTick polls).Only
      (Op.OfStage id) := by
  induction polls with
  | zero => exact Only.bind (only_perform.mpr trivial) nofun
  | succ polls ih =>
    refine Only.bind (only_perform.mpr trivial) fun now => ?_
    refine Only.ite (fun _ => only_raise) fun _ => ?_
    refine Only.bind cancelRequested_ofStage fun cancelled => ?_
    refine Only.ite (fun _ => Only.bind (only_perform.mpr rfl) fun _ => only_raise) fun _ => ?_
    refine Only.bind (only_perform.mpr rfl) fun r => ?_
    rcases r with e | _ | status
    · exact only_raise
    · exact ih
    · refine Only.bind (only_perform.mpr rfl) fun lines => ?_
      refine Only.bind (htick _).attempt fun _ => ?_
      exact Only.ite (fun _ => Only.ite (fun _ => only_raise) fun _ => only_ret) fun _ => ih

theorem waitForTask_ofStage {upid : String} {timeoutSec : ℤ} {onTick : List String → Prog Unit}
    (htick : ∀ lines, (onTick lines).Only (Op.OfStage id)) :
    (waitForTask (.job id) node upid timeoutSec (cancelRequested id) onTick polls).Only
      (Op.OfStage id) :=
  Only.bind (only_perform.mpr trivial) fun _ => pollTask_ofStage htick

theorem cancellable_only {wait : Prog Unit} (h : wait.Only (Op.OfWatch id)) :
    (cancellable cfg id wait).Only (Op.OfWatch id) := by
  refine Only.bind h.attempt fun out => ?_
  split
  · exact only_ret
  · exact Only.bind setState_only fun _ => only_ret
  · exact only_raise
  · exact only_raise

theorem onTick_ofStage (lines : List String) : (onTick id lines).Only (Op.OfStage id) :=
  Only.ite (fun _ => only_ret) fun _ => only_perform.mpr ⟨rfl, fun _ _ => rfl, fun _ _ => rfl⟩

/-- The part of the restore that follows the submission. -/
theorem awaitRestore_only {upid : String} :
    (cancellable cfg id (waitForTask (.job id) node upid cfg.taskTimeoutSec (cancelRequested id)
      (onTick id) polls)).Only (Op.OfWatch id) :=
  cancellable_only ((waitForTask_ofStage onTick_ofStage).mono fun _ ho => ho.ofWatch)

theorem restoreTask_only {data : Job} {F : Op → Prop} (hwatch : ∀ o, o.OfWatch id → F o)
    (hrestore : ∀ p : RestoreParams, p.liveRestore = data.liveRestore →
      F (.qemuRestore (.job id) node p)) :
    (restoreTask cfg polls (.job id) id data node vmid).Only F := by
  refine Only.bind (Only.bind (only_perform.mpr (hrestore _ rfl)) fun r => ?_) fun upid => ?_
  · rcases r with e | _ | upid
    · exact only_raise
    · exact only_raise
    · exact only_ret
  · exact Only.bind (only_perform.mpr (hwatch (.hset id _) ⟨rfl, fun _ _ => rfl⟩)) fun _ =>
      awaitRestore_only.mono hwatch

private theorem readConfig_ofStage : (getQemuConfig (.job id) node vmid).Only (Op.OfStage id) :=
  Only.bind (only_perform.mpr rfl) fun _ => only_ofExcept

theorem stampAttempts_ofStage {planRunId : Option Uuid} (err : Option Exn) (left : ℕ) :
    (stampAttempts (.job id) id planRunId node vmid err left).Only (Op.OfStage id) := by
  induction left generalizing err with
  | zero =>
    exact Only.bind (only_perform.mpr ⟨rfl, fun _ _ => rfl, fun _ _ => rfl⟩) fun _ => only_raise
  | succ left ih =>
    refine Only.bind (Only.attempt (Only.bind readConfig_ofStage fun _ =>
      Only.bind (only_perform.mpr rfl) fun _ => only_ofExcept)) fun out => ?_
    cases out with
    | ok _ => exact only_perform.mpr ⟨rfl, fun _ _ => rfl, fun _ _ => rfl⟩
    | error exc => exact ih _

theorem stampAttempts_only {planRunId : Option Uuid} (err : Option Exn) (left : ℕ) :
    (stampAttempts (.job id) id planRunId node vmid err left).Only (Op.OfWatch id) :=
  (stampAttempts_ofStage err left).mono fun _ ho => ho.ofWatch

private theorem applyNetworkIsolation_ofStage {mode labBridge : String} :
    (applyNetworkIsolation (.job id) node vmid mode labBridge).Only (Op.OfStage id) := by
  simp only [applyNetworkIsolation]
  refine Only.ite (fun _ => only_ret) fun _ => Only.bind readConfig_ofStage fun _ => ?_
  refine Only.bind only_ofExcept fun _ => Only.ite (fun _ => only_ret) fun _ => ?_
  exact Only.bind (only_perform.mpr rfl) fun _ => only_ofExcept

theorem applyNetworkIsolation_only {mode labBridge : String} :
    (applyNetworkIsolation (.job id) node vmid mode labBridge).Only (Op.OfWatch id) :=
  applyNetworkIsolation_ofStage.mono fun _ ho => ho.ofWatch

theorem isolateGuest_ofStage {data : Job} :
    (isolateGuest (.job id) data node vmid).Only (Op.OfStage id) := by
  simp only [isolateGuest]
  refine Only.ite (fun _ => ?_) fun _ => only_ret
  refine Only.bind applyNetworkIsolation_ofStage.attempt fun out => ?_
  cases out with
  | ok _ => exact only_ret
  | error exc => exact only_raise

private theorem startGuest_only {data : Job} :
    (startGuest cfg polls (.job id) id data node vmid).Only (Op.OfFinish id) := by
  refine Only.ite (fun _ => only_ret) fun _ => ?_
  refine Only.bind (Only.attempt (Only.bind (Only.bind (only_perform.mpr
    (.inr ⟨node, vmid, rfl⟩)) fun _ => only_ofExcept) fun _ => only_ret)) fun out => ?_
  cases out with
  | error exc => exact only_raise
  | ok startUpid =>
    refine Only.bind ?_ fun awaited => Only.ite (fun _ => ?_) fun _ => only_ret
    · cases startUpid with
      | none => exact only_ret
      | some upid =>
        exact (cancellable_only ((waitForTask_ofStage fun _ => only_ret).mono
          fun _ ho => ho.ofWatch)).mono fun _ ho => .inl ho
    · exact Only.bind (only_perform.mpr (.inl ⟨rfl, fun _ _ => rfl⟩)) fun _ => only_ret

theorem checkGuestHostname_ofStage :
    (checkGuestHostname (.job id) id node vmid).Only (Op.OfStage id) :=
  Only.bind readConfig_ofStage.attempt fun _ => Only.bind (only_perform.mpr rfl) fun _ =>
    only_perform.mpr ⟨rfl, fun _ _ => rfl, fun _ _ => rfl⟩

private theorem pollAgent_ofStage {timeoutSec : ℤ} {deadline : Instant} :
    (pollAgent (.job id) node vmid timeoutSec deadline (cancelRequested id) polls).Only
      (Op.OfStage id) := by
  induction polls with
  | zero => exact Only.bind (only_perform.mpr trivial) nofun
  | succ polls ih =>
    refine Only.bind cancelRequested_ofStage fun cancelled => ?_
    refine Only.ite (fun _ => only_raise) fun _ => Only.bind (only_perform.mpr rfl) fun _ => ?_
    refine Only.bind (only_perform.mpr trivial) fun now => ?_
    exact Only.ite (fun _ => only_ret) fun _ => Only.ite (fun _ => only_raise) fun _ => ih

theorem waitForQemuAgent_ofStage {timeoutSec : ℤ} :
    (waitForQemuAgent (.job id) node vmid timeoutSec (cancelRequested id) polls).Only
      (Op.OfStage id) :=
  Only.bind (only_perform.mpr trivial) fun _ => Only.bind pollAgent_ofStage fun _ => only_ret

private theorem agentStep_only {qgaWaitSec : ℤ} :
    (agentStep cfg polls (.job id) id qgaWaitSec node vmid).Only (Op.OfWatch id) := by
  have hname : (checkGuestHostname (.job id) id node vmid).Only (Op.OfWatch id) :=
    checkGuestHostname_ofStage.mono fun _ ho => ho.ofWatch
  refine Only.ite (fun _ => ?_) fun _ => Only.bind hname fun _ => only_ret
  refine Only.bind (waitForQemuAgent_ofStage.mono fun _ ho => ho.ofWatch).attempt fun out => ?_
  split
  · exact Only.bind (only_perform.mpr ⟨rfl, fun _ _ => rfl⟩) fun _ =>
      Only.bind hname fun _ => only_ret
  · exact Only.bind setState_only fun _ => only_ret
  · exact Only.bind (only_perform.mpr ⟨rfl, fun _ _ => rfl⟩) fun _ => only_raise
  · exact only_raise

theorem httpCheck_ofStage {data : Job} : (httpCheck id data).Only (Op.OfStage id) := by
  have hfailed : ∀ exc : Exn, Only (Op.OfStage id) (do
      hset id fun now j => { stamp now j with httpCheckOk := "0" }
      raise (.runtimeError s!"HTTP check failed: {exc.text}") : Prog Unit) := fun _ =>
    Only.bind (only_perform.mpr ⟨rfl, fun _ _ => rfl, fun _ _ => rfl⟩) fun _ => only_raise
  refine Only.ite (fun _ => only_ret) fun _ => Only.bind (only_perform.mpr trivial) fun r => ?_
  cases r with
  | error exc => exact hfailed exc
  | ok code =>
    by_cases hcode : 400 ≤ code
    · simp only [if_pos hcode]
      exact hfailed _
    · simp only [if_neg hcode]
      exact only_perform.mpr ⟨rfl, fun _ _ => rfl, fun _ _ => rfl⟩

theorem stopGuest_ofStage {timeout : ℕ} :
    (stopQemuVm (.job id) node vmid timeout).Only (Op.OfStage id) := by
  have hpolls : ∀ name n, (pollStopped (.job id) name vmid n).Only (Op.OfStage id) := by
    intro name n
    induction n with
    | zero => exact only_ret
    | succ n ih =>
      refine Only.bind (only_perform.mpr rfl) fun r => ?_
      cases r with
      | error e => exact only_ret
      | ok status => exact Only.ite (fun _ => only_ret) fun _ => ih
  exact Only.bind (only_perform.mpr rfl) fun _ => hpolls _ _

private theorem powerGuest_only {data : Job} :
    (powerGuest cfg polls (.job id) id data node vmid).Only (Op.OfFinish id) := by
  refine Only.ite (fun _ => ?_) fun _ => ?_
  · refine Only.bind startGuest_only fun started => Only.ite (fun _ => ?_) fun _ => only_ret
    refine Only.bind (agentStep_only.mono fun _ ho => .inl ho) fun answered => ?_
    refine Only.ite (fun _ => ?_) fun _ => only_ret
    exact Only.bind (httpCheck_ofStage.mono fun _ ho => .inl ho.ofWatch) fun _ => only_ret
  · exact Only.bind (stopGuest_ofStage.mono fun _ ho => .inl ho.ofWatch) fun _ => only_ret

/-- The part of the job that follows the restore. -/
theorem finishJob_only {data : Job} :
    (finishJob cfg polls (.job id) id data node vmid).Only (Op.OfFinish id) := by
  have hmono : ∀ {α : Type} {p : Prog α}, p.Only (Op.OfWatch id) → p.Only (Op.OfFinish id) :=
    fun hp => hp.mono fun _ ho => .inl ho
  refine Only.bind (hmono (stampAttempts_only _ _)) fun _ => ?_
  refine Only.bind (isolateGuest_ofStage.mono fun _ ho => .inl ho.ofWatch) fun _ => ?_
  refine Only.bind powerGuest_only fun _ => ?_
  exact Only.ite (fun _ => hmono setState_only) fun _ => only_ret

/-- The wire sample and what is written about it. -/
theorem sampleStep_ofStage {backupId : String} : (sampleStep id backupId).Only (Op.OfStage id) :=
  Only.bind (only_perform.mpr trivial) fun _ => Only.ite
    (fun _ => only_perform.mpr ⟨rfl, fun _ _ => rfl, fun _ _ => rfl⟩) fun _ => only_ret

theorem sampleStep_only {backupId : String} : (sampleStep id backupId).Only (Op.OfWatch id) :=
  sampleStep_ofStage.mono fun _ ho => ho.ofWatch

/-- **The footprint of a job.** -/
theorem runJob_only : (runJob cfg polls id).Only (Op.OfJob id) := by
  have hmono : ∀ {α : Type} {p : Prog α}, p.Only (Op.OfWatch id) → p.Only (Op.OfJob id) :=
    fun hp => hp.mono fun _ => Op.OfWatch.ofJob
  refine Only.bind (Only.attempt (Only.bind (only_perform.mpr (.inl rfl)) fun found => ?_))
    fun out => ?_
  · cases found with
    | none => exact only_ret
    | some data =>
      refine Only.bind (hmono cancelRequested_only) fun cancelled => ?_
      refine Only.ite (fun _ => hmono setState_only) fun _ => ?_
      refine Only.bind only_ofExcept fun placed => ?_
      refine Only.ite (fun _ => only_raise) fun _ => Only.bind (hmono setState_only) fun _ => ?_
      refine Only.bind (hmono sampleStep_only) fun _ => ?_
      refine Only.bind (Only.bind (only_perform.mpr (.inl rfl)) fun _ => only_ofExcept) fun _ => ?_
      refine Only.bind (restoreTask_only (fun _ => Op.OfWatch.ofJob)
        fun p _ => .inr (.inl ⟨_, p, rfl⟩)) fun restored => ?_
      exact Only.ite (fun _ => finishJob_only.mono fun _ => Op.OfFinish.ofJob) fun _ => only_ret
  · cases out with
    | ok _ => exact only_ret
    | error exc => exact hmono setState_only

end Worker

/-- The commands of a worker: it claims a job and runs it. -/
def Op.OfWork (o : Op) : Prop := o = .blpop ∨ ∃ id, o.OfJob id

theorem claimJob_only {cfg : Config} {polls : ℕ} : (claimJob cfg polls).Only Op.OfWork := by
  refine Only.bind (only_perform.mpr (.inl rfl)) fun claimed => ?_
  cases claimed with
  | none => exact only_ret
  | some id => exact runJob_only.mono fun _ ho => .inr ⟨id, ho⟩

/-! ### What is left alone -/

/-- Commands that leave plan runs, plans and reports alone, and do not wait. -/
def Op.SparesRuns : Op → Prop
  | setRun _ | dropActive _ | setPlan _ | delPlan _ | addReport _ | dropReports _ | park => False
  | _ => True

/-- The two worlds store the same plan runs, plans and reports. -/
structure World.SameRuns (w w' : World) : Prop where
  runs : w'.runs = w.runs
  active : w'.active = w.active
  plans : w'.plans = w.plans
  reports : w'.reports = w.reports

theorem World.SameRuns.refl (w : World) : w.SameRuns w := ⟨rfl, rfl, rfl, rfl⟩

theorem World.SameRuns.trans {w w' w'' : World} (h : w.SameRuns w') (h' : w'.SameRuns w'') :
    w.SameRuns w'' :=
  ⟨h'.runs.trans h.runs, h'.active.trans h.active, h'.plans.trans h.plans,
    h'.reports.trans h.reports⟩

/-- A request on a guest that is there has its effect, if nothing prevents it. -/
theorem onGuest_found {α : Type} {w : World} {v : ℤ} {g : Guest}
    {effect : Guest → Except Exn α × World} (hg : w.qemuAt node v = some g) :
    onGuest w node v .ok effect = effect g := by
  rw [onGuest.eq_def, hg]

/-- A request on a guest leaves the world alone or has its effect on the guest. -/
theorem onGuest_world {α : Type} {w : World} {v : ℤ} {a : Answer}
    {effect : Guest → Except Exn α × World} {P : World → Prop} (hw : P w)
    (heffect : ∀ g, w.qemuAt node v = some g → P (effect g).2) :
    P (onGuest w node v a effect).2 := by
  rw [onGuest.eq_def]
  split
  · exact hw
  · exact hw
  · split
    · next g hg => exact heffect g hg
    · exact hw
  · split
    · next g hg => exact heffect g hg
    · exact hw

/-- A restore leaves the world alone or puts the restored guest at the VMID. -/
theorem restoreInto_world {w : World} {p : RestoreParams} {P : World → Prop} (hw : P w)
    (hcreate : w.admitsRestore p = true →
      P { w with guests := w.guests.insert p.vmid (w.restored px node p) }) :
    P (restoreInto w px node p).2 := by
  rw [restoreInto]
  split_ifs with h
  · exact hcreate h
  · exact hw

theorem Op.SparesRuns.sameRuns {o : Op} (ho : o.SparesRuns) {a : Answer} {w w' : World}
    {r : o.Res} (h : environment o a w = some (r, w')) : w.SameRuns w' := by
  have hself : w.SameRuns w := .refl w
  cases o with
  | setRun _ => exact ho.elim
  | dropActive _ => exact ho.elim
  | setPlan _ => exact ho.elim
  | delPlan _ => exact ho.elim
  | addReport _ => exact ho.elim
  | dropReports _ => exact ho.elim
  | park => exact ho.elim
  | qemuConfig _ _ _ | qemuConfigPut _ _ _ _ | qemuStop _ _ _ | qemuStatus _ _ _
  | qemuStart _ _ _ | qemuDelete _ _ _ _ =>
    have hw' := congrArg Prod.snd (Option.some.inj h)
    subst hw'
    exact onGuest_world (P := w.SameRuns) hself fun _ _ => ⟨rfl, rfl, rfl, rfl⟩
  | qemuRestore px node p =>
    have hrestore : w.SameRuns (restoreInto w px node p).2 :=
      restoreInto_world (P := w.SameRuns) hself fun _ => ⟨rfl, rfl, rfl, rfl⟩
    have hw' := congrArg Prod.snd (Option.some.inj h)
    subst hw'
    cases a <;> first | exact hself | exact hrestore
  | outside act =>
    have hw' := congrArg Prod.snd (Option.some.inj h)
    subst hw'
    cases act with
    | create v g =>
      change w.SameRuns (if _ then _ else _)
      split_ifs
      · exact ⟨rfl, rfl, rfl, rfl⟩
      · exact hself
    | remove v => exact ⟨rfl, rfl, rfl, rfl⟩
    | edit v config =>
      change w.SameRuns (w.outside (.edit v config))
      rw [World.outside]
      split
      · exact ⟨rfl, rfl, rfl, rfl⟩
      · exact hself
    | reach up => exact ⟨rfl, rfl, rfl, rfl⟩
  | _ =>
    have hw' := congrArg Prod.snd (Option.some.inj h)
    subst hw'
    exact ⟨rfl, rfl, rfl, rfl⟩

/-- Enqueueing does not wait without end. -/
theorem Op.OfEnqueue.ne_park {req : EnqueueRequest} {o : Op} (h : o.OfEnqueue req) :
    o ≠ .park := by
  rintro rfl
  exact h

theorem Op.OfEnqueue.sparesRuns {req : EnqueueRequest} {o : Op} (h : o.OfEnqueue req) :
    o.SparesRuns := by
  cases o <;> simp_all [Op.OfEnqueue, Op.SparesRuns]

/-- Programs that spare runs leave plan runs, plans and reports alone. -/
theorem sameRuns_of_only {α : Type} {w : World} {p : Prog α} (hp : p.Only Op.SparesRuns) :
    Satisfies environment.machine (fun _ w' => w.SameRuns w') w p := by
  refine hp.satisfies (I := w.SameRuns) (.refl w) (fun _ _ _ _ => trivial) ?_
  rintro s o r s' ho hs ⟨a, ha⟩
  exact hs.trans (ho.sameRuns ha)

/-- Enqueueing leaves plan runs, plans and reports alone. -/
theorem enqueueRestores_sameRuns {req : EnqueueRequest} {w w' : World}
    {out : Except Exn EnqueueResult} (h : Ends environment (enqueueRestores req) w out w') :
    w.SameRuns w' :=
  h.post (sameRuns_of_only (enqueueRestores_only.mono fun _ ho => ho.sparesRuns))

end RestoreEngine
