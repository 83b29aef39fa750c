import RestoreEngine.Effects.Parts
import RestoreEngine.Model.Engine
import RestoreEngine.Model.Footprints
import RestoreEngine.Readiness.Asks
import RestoreEngine.Runs.FailedStart

/-!
# What the engine is made of

However a run is started, advanced or ended, jobs and guests are touched by six procedures only:
`enqueue_restores`, the job of a worker, the teardown of a run, and the three ways to cancel jobs.
All the rest keeps books: it reads job hashes, and reads and writes runs, plans, groups, locations,
reports and the counters of the queue. `Activity.composed` takes every process of the engine apart
in this way. A property of the system then needs to be shown of the six procedures alone.

For what concerns the records of runs there is a coarser view. Records are written by four
undertakings only, which start, advance, cancel and tear down runs (`Activity.undertaken`).
-/

namespace RestoreEngine

open Effects Prog Program

variable {α : Type} {cfg : Config} {mt : Matching} {polls : ℕ}

/-! ### Parts and books -/

/-- The procedures that touch jobs and guests. -/
inductive Part (cfg : Config) (polls : ℕ) : ∀ α : Type, Prog α → Prop
  | enqueue (req : EnqueueRequest) : Part cfg polls _ (enqueueRestores req)
  | work : Part cfg polls _ (claimJob cfg polls)
  | teardown (run : PlanRun) : Part cfg polls _ (teardownPlanRun run)
  | cancel (id : Uuid) : Part cfg polls _ (cancelJob id)
  | stop (id : Uuid) : Part cfg polls _ (stopJob id)
  | drain (fuel : ℕ) : Part cfg polls _ (drainPendingJobs fuel)

/-- The command neither writes to jobs, nor concerns the queue of jobs or the cluster. -/
def Op.KeepsBooks : Op → Prop
  | hset _ _ | hsetLrem _ _ | expire _ | rpush _ | blpop | lpop => False
  | connect _ | clusterResources _ | qemuConfig _ _ _ | qemuConfigPut _ _ _ _ | qemuStop _ _ _
  | qemuStatus _ _ _ | qemuStart _ _ _ | qemuDelete _ _ _ _ | qemuRestore _ _ _
  | taskStatus _ _ _ | taskLog _ _ _ | taskStop _ _ _ | agentPing _ _ _ | agentHostname _ _ _ =>
    False
  | outside _ | park => False
  | _ => True

/-- The program keeps books around the six procedures. -/
abbrev Composed (cfg : Config) (polls : ℕ) (p : Prog α) : Prop :=
  p.MadeOf Op.KeepsBooks (Part cfg polls)

/-- What is undertaken in one piece: the procedures that write the records of runs, and the
others. -/
inductive Undertaking (cfg : Config) (polls : ℕ) : ∀ α : Type, Prog α → Prop
  | enqueue (req : EnqueueRequest) : Undertaking cfg polls _ (apiEnqueueRestores req)
  | start (starter : Starter) (plan : Plan) (location : Location) (groupRows : List (List Row))
      (opts : StartOptions) :
      Undertaking cfg polls _ (startPlanRun starter.enqueueFn plan location groupRows opts)
  | advance : Undertaking cfg polls _ (advancePlanRuns cfg enqueueRestores)
  | cancel (runId : Uuid) : Undertaking cfg polls _ (cancelPlanRun cfg runId)
  | teardown (runId : Uuid) (force : Bool) :
      Undertaking cfg polls _ (apiTeardownPlanRun cfg runId force)
  | work : Undertaking cfg polls _ (claimJob cfg polls)
  | stop (id : Uuid) : Undertaking cfg polls _ (stopJob id)
  | drain (fuel : ℕ) : Undertaking cfg polls _ (drainPendingJobs fuel)

/-- The command keeps books other than the records of runs. -/
def Op.LeavesRecords : Op → Prop
  | setRun _ => False
  | o => o.KeepsBooks

/-- The program keeps such books around the undertakings. -/
abbrev Undertaken (cfg : Config) (polls : ℕ) (p : Prog α) : Prop :=
  p.MadeOf Op.LeavesRecords (Undertaking cfg polls)

theorem Op.LeavesRecords.keepsBooks {o : Op} (ho : o.LeavesRecords) : o.KeepsBooks := by
  cases o <;> first | exact trivial | exact ho.elim

theorem Op.Asks.leavesRecords {o : Op} (ho : o.Asks) : o.LeavesRecords := by
  cases o <;> first | exact trivial | exact ho.elim

private theorem undertaken_of_asks {p : Prog α} (hp : p.Only Op.Asks) : Undertaken cfg polls p :=
  .only (hp.mono fun _ ho => ho.leavesRecords)

/-! ### The footprint of a teardown -/

/-- A teardown keeps books, opens a client, and looks for guests to stop and destroy. -/
theorem teardownPlanRun_only {F : Op → Prop} {run : PlanRun} (hbooks : ∀ o, o.KeepsBooks → F o)
    (hconnect : F (.connect (.teardown run.id)))
    (hdestroy : ∀ o v, o.OfDestroy (.teardown run.id) v → F o) : (teardownPlanRun run).Only F := by
  have hget : ∀ id, F (.hgetall id) := fun id => hbooks _ trivial
  have hjobs : ∀ ids byVmid, (collectFromJobs byVmid ids).Only F := by
    intro ids
    induction ids with
    | nil => exact fun _ => only_ret
    | cons id rest ih => exact fun _ => Only.bind (only_perform.mpr (hget id)) fun _ => ih _
  have hprovenance : ∀ ids, (provenanceVmids ids).Only F := by
    intro ids
    induction ids with
    | nil => exact only_ret
    | cons id rest ih =>
      exact Only.bind (only_perform.mpr (hget id)) fun _ => Only.bind ih fun _ => only_ret
  have htarget : ∀ provenance t, (teardownTarget (.teardown run.id) provenance t).Only F := by
    intro provenance t
    refine Only.bind (Only.ite (fun _ => ?_) fun _ => only_ret) fun node => ?_
    · exact (@findQemuNode_only _ t.vmid t.vmid).mono fun o ho => hdestroy o _ ho
    · refine Only.ite (fun _ => only_ret) fun _ => ?_
      rw [map_eq_bind]
      refine Only.bind (destroyOwnedQemuVm_only.attempt.mono fun o ho => ?_) fun _ => only_ret
      exact hdestroy o t.vmid ho
  have htargets : ∀ provenance targets,
      (teardownTargets (.teardown run.id) provenance targets).Only F := by
    intro provenance targets
    induction targets with
    | nil => exact only_ret
    | cons t rest ih =>
      exact Only.bind (htarget provenance t) fun _ => Only.bind ih fun _ => only_ret
  refine Only.ite (fun _ => only_ret) fun _ => Only.ite (fun _ => only_raise) fun _ => ?_
  refine Only.bind (hjobs _ _) fun targets => Only.bind ?_ fun _ => ?_
  · refine Only.ite (fun _ => only_ret) fun _ => ?_
    exact Only.bind (only_perform.mpr hconnect) fun _ => only_ofExcept
  · refine Only.bind (hprovenance _) fun provenance => Only.bind (htargets _ _) fun results => ?_
    refine Only.bind (only_perform.mpr (hbooks _ trivial)) fun now => ?_
    exact Only.bind (only_perform.mpr (hbooks _ trivial)) fun _ => only_ret

/-! ### The footprint of a cancel -/

/-- Whatever the job was, the write marks it with the state `s`, or leaves its state alone if `s` is
`none`. -/
def Marks (f : Instant → Job → Job) (s : Option RestoreState) : Prop :=
  ∀ now j, (f now j).state = s.or j.state

/-- The write leaves it as it is whether the hash tells of a restore that was started. -/
def KeepsStarted (f : Instant → Job → Job) : Prop :=
  ∀ now j, startedRestore (f now j) = startedRestore j

/-- The commands by which jobs are cancelled. -/
def Op.OfCancel : Op → Prop
  | hset _ f | hsetLrem _ f =>
    KeepsOrigin f ∧ KeepsStarted f ∧ (Marks f none ∨ Marks f (some .CANCELLED))
  | hgetall _ | scanJobs | lpop | setPaused _ | park => True
  | _ => False

section Cancel

variable {id : Uuid}

theorem cancelJob_only : (cancelJob id).Only Op.OfCancel := by
  refine Only.bind (only_perform.mpr trivial) fun data => ?_
  split
  · refine Only.bind (only_perform.mpr ?_) fun _ => only_ret
    exact ⟨fun _ _ => rfl, fun _ _ => rfl, .inr fun _ _ => rfl⟩
  · refine Only.bind (only_perform.mpr ?_) fun _ => only_ret
    exact ⟨fun _ _ => rfl, fun _ _ => rfl, .inl fun _ _ => rfl⟩
  · exact only_ret

theorem stopJob_only : (stopJob id).Only Op.OfCancel := by
  refine Only.bind (only_perform.mpr trivial) fun found => ?_
  cases found with
  | none => exact only_raise
  | some data =>
    refine Only.ite (fun _ => only_ret) fun _ => ?_
    refine Only.bind (only_perform.mpr ⟨fun _ _ => rfl, fun _ _ => rfl, .inl fun _ _ => rfl⟩)
      fun _ => ?_
    refine Only.bind (only_perform.mpr trivial) fun now => Only.ite (fun _ => ?_) fun _ => ?_
    · refine Only.bind (only_perform.mpr ?_) fun _ => only_perform.mpr trivial
      exact ⟨fun _ _ => rfl, fun _ _ => rfl, .inr fun _ _ => rfl⟩
    · exact only_perform.mpr trivial

private theorem cancelByStop_ofCancel : (cancelByStop id).Only Op.OfCancel :=
  only_perform.mpr ⟨fun _ _ => rfl, fun _ _ => rfl, .inr fun _ _ => rfl⟩

theorem drainPendingJobs_only {fuel : ℕ} : (drainPendingJobs fuel).Only Op.OfCancel := by
  have hempty : (emptyQueue fuel).Only Op.OfCancel := by
    induction fuel with
    | zero => exact Only.bind (only_perform.mpr trivial) fun r => r.elim
    | succ fuel ih =>
      rw [emptyQueue]
      refine Only.bind (only_perform.mpr trivial) fun claimed => ?_
      cases claimed with
      | none => exact only_ret
      | some id =>
        refine Only.bind (only_perform.mpr trivial) fun data => Only.ite (fun _ => ?_) fun _ => ih
        exact Only.bind cancelByStop_ofCancel fun _ => Only.bind ih fun _ => only_ret
  have hsweep : ∀ ids cancelled, (sweepPending cancelled ids).Only Op.OfCancel := by
    intro ids
    induction ids with
    | nil => exact fun _ => only_ret
    | cons id rest ih =>
      intro cancelled
      refine Only.bind (only_perform.mpr trivial) fun data => Only.ite (fun _ => ?_) fun _ => ih _
      exact Only.bind cancelByStop_ofCancel fun _ => ih _
  exact Only.bind (only_perform.mpr trivial) fun _ => Only.bind hempty fun _ =>
    Only.bind (only_perform.mpr trivial) fun _ => hsweep _ _

end Cancel

/-! ### The end of a run -/

section Runs

variable {run : PlanRun} {plan : Plan} {location : Location} {opts : StartOptions}
  {groupRows : List (List Row)} {enqueueFn : EnqueueFn}

private theorem savePlanRun_composed : Composed cfg polls (savePlanRun run) :=
  .bind (.perform trivial) fun _ => .ret _

private theorem aggregatePlanRun_composed : Composed cfg polls (aggregatePlanRun run) :=
  .only (aggregatePlanRun_only (fun _ => trivial) run)

private theorem reload_composed : Composed cfg polls (reload run) :=
  .bind (.perform trivial) fun _ => .ret _

private theorem saveReport_only {planId : Uuid} {metadata : ReportMeta} :
    (saveReport cfg planId metadata).Only Op.LeavesRecords := by
  refine Only.bind (only_perform.mpr trivial) fun id => Only.bind (only_perform.mpr trivial) ?_
  refine fun _ => Only.bind ?_ fun _ => only_ret
  refine Only.bind (only_perform.mpr trivial) fun ids => Only.ite (fun _ => only_ret) fun _ => ?_
  refine Only.bind (only_perform.mpr trivial) fun ids => Only.ite (fun _ => only_ret) fun _ => ?_
  exact only_perform.mpr trivial

private theorem autoTeardown_composed : Composed cfg polls (autoTeardown run) :=
  .ite (fun _ => .bind (.attempt (.part (.teardown run))) fun _ => .ret _) fun _ => .ret _

private theorem applyAssuranceFromRun_composed :
    Composed cfg polls (applyAssuranceFromRun run) := by
  have hnow : ∀ t, Composed cfg polls (orNow t) := fun t => by
    cases t with
    | none => exact .perform trivial
    | some t => exact .ret _
  refine .ite (fun _ => .perform trivial) fun _ => .bind (.perform trivial) fun found => ?_
  split
  · exact .bind savePlanRun_composed fun _ => .ret _
  · refine .bind aggregatePlanRun_composed fun aggregated => ?_
    rw [map_eq_bind]
    refine .bind ?_ fun _ => .ret _
    refine .bind (.perform trivial) fun now => .bind (hnow _) fun lastRunAt => ?_
    exact .bind (.perform trivial) fun _ => .bind savePlanRun_composed fun _ => .ret _

private theorem notifyOnce_composed : Composed cfg polls (notifyOnce run) := by
  refine .ite (fun _ => .ret _) fun _ => .bind aggregatePlanRun_composed fun _ => ?_
  exact .bind (.perform trivial) fun _ => .bind savePlanRun_composed fun _ => .ret _

private theorem settleRun_composed : Composed cfg polls (settleRun run) := by
  refine .bind autoTeardown_composed fun _ => .bind reload_composed fun run => ?_
  refine .bind applyAssuranceFromRun_composed.attempt fun _ => .bind reload_composed fun run => ?_
  exact .bind notifyOnce_composed fun _ => reload_composed

private theorem attachReport_composed : Composed cfg polls (attachReport cfg run) := by
  refine .bind aggregatePlanRun_composed fun _ => .bind (.perform trivial) fun found => ?_
  refine .bind (.only (saveReport_only.mono fun _ ho => ho.keepsBooks)) fun rep => ?_
  refine .bind savePlanRun_composed fun _ => ?_
  cases found with
  | none => exact .ret _
  | some plan => exact .bind (.perform trivial) fun _ => .ret _

private theorem finalizePlanRunReport_composed :
    Composed cfg polls (finalizePlanRunReport cfg run) := by
  rw [finalizePlanRunReport]
  split
  · exact settleRun_composed
  · exact .bind attachReport_composed fun run => settleRun_composed

/-! ### Starting, advancing and cancelling runs -/

private theorem apiEnqueueRestores_composed (req : EnqueueRequest) :
    Composed cfg polls (apiEnqueueRestores req) := by
  refine .bind (.attempt (.part (.enqueue req))) fun out => ?_
  split
  · exact .ret _
  · exact .raise _
  · exact .raise _

private theorem startPlanRun_composed (henqueue : ∀ req, Composed cfg polls (enqueueFn req)) :
    Composed cfg polls (startPlanRun enqueueFn plan location groupRows opts) := by
  refine .bind (.ofExcept _) fun startIdx => .bind (.perform trivial) fun runId => ?_
  refine .bind (.perform trivial) fun now => .bind savePlanRun_composed fun run => ?_
  refine .bind ?_ fun run => ?_
  · refine .bind (henqueue _) fun result => .bind savePlanRun_composed fun _ => ?_
    exact .bind (.ofExcept _) fun _ => savePlanRun_composed
  · exact .bind (.perform trivial) fun _ => .ret _

private theorem endRun_composed : Composed cfg polls (endRun cfg run) := by
  refine .bind (.perform trivial) fun now => .bind savePlanRun_composed fun run => ?_
  exact .bind finalizePlanRunReport_composed fun _ => .ret _

private theorem enqueueGroup_composed {idx : ℕ} :
    Composed cfg polls (enqueueGroup enqueueRestores run idx) := by
  refine .ite (fun _ => .bind savePlanRun_composed fun _ => .ret _) fun _ => ?_
  exact .bind (.part (.enqueue _)) fun _ => .bind savePlanRun_composed fun _ => .ret _

private theorem awaitGroup_composed {idx : ℕ} : Composed cfg polls (awaitGroup cfg run idx) := by
  have hstates : ∀ ids, Composed cfg polls (jobStates ids) := fun ids => by
    induction ids with
    | nil => exact .ret _
    | cons id rest ih => exact .bind (.perform trivial) fun _ => .bind ih fun _ => .ret _
  refine .bind (hstates _) fun states => .ite (fun _ => ?_) fun _ => .ret _
  split
  · exact endRun_composed
  · exact .bind savePlanRun_composed fun _ => .ret _

private theorem advanceRun_composed (runId : Uuid) :
    Composed cfg polls (advanceRun cfg enqueueRestores runId) := by
  refine .bind (.perform trivial) fun found => ?_
  split
  · exact .bind (.perform trivial) fun _ => .ret _
  · refine .ite (fun _ => endRun_composed) fun _ => .ite (fun _ => ?_) fun _ => ?_
    · exact enqueueGroup_composed
    · exact awaitGroup_composed

private theorem advancePlanRuns_composed :
    Composed cfg polls (advancePlanRuns cfg enqueueRestores) := by
  refine .bind (.perform trivial) fun ids => ?_
  induction ids with
  | nil => exact .ret _
  | cons id rest ih => exact .bind (advanceRun_composed id) fun _ => .bind ih fun _ => .ret _

private theorem cancelPlanRun_composed (runId : Uuid) :
    Composed cfg polls (cancelPlanRun cfg runId) := by
  have hcancel : ∀ ids, Composed cfg polls (cancelJobs ids) := fun ids => by
    induction ids with
    | nil => exact .ret _
    | cons id rest ih => exact .bind (.part (.cancel id)) fun _ => .bind ih fun _ => .ret _
  refine .bind (.perform trivial) fun found => ?_
  cases found with
  | none => exact .raise _
  | some run =>
    refine .ite (fun _ => aggregatePlanRun_composed) fun _ => .bind (hcancel _) fun stats => ?_
    refine .bind (.perform trivial) fun now => .bind savePlanRun_composed fun run => ?_
    refine .bind finalizePlanRunReport_composed fun _ => .bind reload_composed fun _ => ?_
    exact aggregatePlanRun_composed

private theorem apiTeardownPlanRun_composed (runId : Uuid) (force : Bool) :
    Composed cfg polls (apiTeardownPlanRun cfg runId force) := by
  refine .bind (.perform trivial) fun found => ?_
  cases found with
  | none => exact .raise _
  | some run =>
    refine .ite (fun _ => .raise _) fun _ => .bind (.attempt ?_) fun out => ?_
    · refine .ite (fun _ => .bind (cancelPlanRun_composed _) fun _ => ?_) fun _ =>
        .part (.teardown run)
      exact .bind (.perform trivial) fun _ => .part (.teardown _)
    · split
      · exact aggregatePlanRun_composed
      · exact .raise _
      · exact .raise _

private theorem starter_composed (starter : Starter) (req : EnqueueRequest) :
    Composed cfg polls (starter.enqueueFn req) := by
  cases starter with
  | api => exact apiEnqueueRestores_composed req
  | scheduler => exact .part (.enqueue req)

/-- The undertakings keep books around the six procedures. -/
theorem Undertaking.composed {p : Prog α} (hp : Undertaking cfg polls α p) :
    Composed cfg polls p := by
  cases hp with
  | enqueue req => exact apiEnqueueRestores_composed req
  | start starter => exact startPlanRun_composed (starter_composed starter)
  | advance => exact advancePlanRuns_composed
  | cancel runId => exact cancelPlanRun_composed runId
  | teardown runId force => exact apiTeardownPlanRun_composed runId force
  | work => exact .part .work
  | stop id => exact .part (.stop id)
  | drain fuel => exact .part (.drain fuel)

/-! ### Requests for restores -/

private theorem apiCancelPlanRun_undertaken (runId : Uuid) :
    Undertaken cfg polls (apiCancelPlanRun cfg runId) := by
  refine .bind (.attempt (.part (.cancel runId))) fun out => ?_
  split
  · exact .ret _
  · exact .raise _
  · exact .raise _

private theorem apiStartPlanRun_undertaken :
    Undertaken cfg polls (apiStartPlanRun plan location groupRows opts) := by
  refine .bind (.attempt (.part (.start .api plan location groupRows opts))) fun out => ?_
  split
  · exact .only (aggregatePlanRun_only (fun _ => trivial) _)
  · exact .raise _
  · exact .raise _

private theorem startResolved_undertaken :
    Undertaken cfg polls (startResolved (readers mt) plan location opts) := by
  refine .bind (undertaken_of_asks (resolvePlanGroupRows_asks _ _)) fun groupRows => ?_
  exact .ite (fun _ => .raise _) fun _ => apiStartPlanRun_undertaken

private theorem enabledPlan_undertaken (planId : Uuid) :
    Undertaken cfg polls (enabledPlan planId) := by
  refine .bind (.perform trivial) fun found => ?_
  cases found with
  | none => exact .raise _
  | some plan => exact .ite (fun _ => .ret _) fun _ => .raise _

private theorem apiRunPlan_undertaken (planId : Uuid) (body : PlanRunRequest) :
    Undertaken cfg polls (apiRunPlan cfg (readers mt) planId body) := by
  refine .bind (enabledPlan_undertaken planId) fun plan => .bind (.ofExcept _) fun _ => ?_
  refine .bind (.perform trivial) fun found => ?_
  cases found with
  | none => exact .raise _
  | some location =>
    refine .bind (.ofExcept _) fun _ => .bind (.ofExcept _) fun _ => ?_
    exact startResolved_undertaken

private theorem apiAssurePlan_undertaken (planId : Uuid) (body : PlanAssureRequest) :
    Undertaken cfg polls (apiAssurePlan cfg (readers mt) planId body) := by
  refine .bind (enabledPlan_undertaken planId) fun plan => .ite (fun _ => .raise _) fun _ => ?_
  refine .bind (.ofExcept _) fun _ => .bind (.perform trivial) fun found => ?_
  cases found with
  | none => exact .raise _
  | some location => exact .bind (.ofExcept _) fun _ => startResolved_undertaken

private theorem restoreSelected_undertaken (body : RestoreSelectedRequest) :
    Undertaken cfg polls (restoreSelected cfg (readers mt) body) := by
  refine .bind (.ofExcept _) fun nodes => .bind (.ofExcept _) fun storage => ?_
  refine .bind (undertaken_of_asks (ask_asks .backups)) fun backups => ?_
  refine .bind (.ofExcept _) fun ordered => .bind (.ofExcept _) fun _ => ?_
  refine .bind (.ofExcept _) fun _ => ?_
  exact .part (.enqueue _)

private theorem restoreTagGroup_undertaken (body : RestoreTagGroupRequest) :
    Undertaken cfg polls (restoreTagGroup cfg (readers mt) body) := by
  have htags : ∀ rows node, ((readers mt).resolveTags rows node).Only Op.Asks := fun rows node => by
    refine Only.bind (ask_asks (.tags rows node)) fun _ => only_ret
  refine .bind (.ofExcept _) fun nodes => .bind (.ofExcept _) fun storage => ?_
  refine .bind (undertaken_of_asks (ask_asks .backups)) fun backups => ?_
  refine .ite (fun _ => .ret _) fun _ => ?_
  refine .bind (undertaken_of_asks (htags _ _)) fun tags => .ite (fun _ => .ret _) fun _ => ?_
  refine .bind (.ofExcept _) fun _ => .bind (.part (.enqueue _)) fun _ => .ret _

end Runs

/-! ### The ticks of a worker -/

section Ticks

variable {plan : Plan}

private theorem listPlans_undertaken : Undertaken cfg polls listPlans := by
  refine .bind (.perform trivial) fun ids => ?_
  generalize ids.mergeSort (fun a b => decide (a ≤ b)) = sorted
  induction sorted with
  | nil => exact .ret _
  | cons id rest ih => exact .bind (.perform trivial) fun _ => .bind ih fun _ => .ret _

private theorem startDue_undertaken : Undertaken cfg polls (startDue (readers mt) plan) := by
  have hactive : ∀ planId ids, Undertaken cfg polls (hasActiveRun planId ids) := by
    intro planId ids
    induction ids with
    | nil => exact .ret _
    | cons id rest ih => exact .bind (.perform trivial) fun _ => .ite (fun _ => .ret _) fun _ => ih
  refine .bind (.perform trivial) fun found => ?_
  cases found with
  | none => exact .ret _
  | some location =>
    refine .bind (.perform trivial) fun ids => .bind (hactive _ _) fun active => ?_
    refine .ite (fun _ => .ret _) fun _ => .bind (.attempt ?_) fun _ => .ret _
    refine .bind ?_ fun _ => .bind (.perform trivial) fun now => .perform trivial
    refine .bind (.perform trivial) fun now => ?_
    refine .bind (undertaken_of_asks (resolveScheduledRows_asks _)) fun rows => ?_
    exact .ite (fun _ => .raise _) fun _ => .part (.start .scheduler ..)

private theorem tickScheduledPlanRuns_undertaken :
    Undertaken cfg polls (tickScheduledPlanRuns (readers mt)) := by
  refine .bind (.perform trivial) fun now => .bind listPlans_undertaken fun plans => ?_
  generalize plansDueForSchedule plans now = due
  induction due with
  | nil => exact .ret _
  | cons plan rest ih => exact .bind startDue_undertaken fun _ => .bind ih fun _ => .ret _

private theorem applyCheckResult_undertaken {check : Check} :
    Undertaken cfg polls (applyCheckResult cfg plan check) := by
  refine .bind (.perform trivial) fun _ => .bind (.only saveReport_only) fun rep => ?_
  exact .bind (.perform trivial) fun _ => .ret _

private theorem runPlanReadiness_undertaken {cutoff : String} :
    Undertaken cfg polls (runPlanReadiness cfg mt plan cutoff) := by
  refine .bind (undertaken_of_asks readinessCheck_asks) fun check => ?_
  refine .ite (fun _ => ?_) fun _ => .ret _
  exact .bind applyCheckResult_undertaken fun _ => .ret _

private theorem checkDue_undertaken : Undertaken cfg polls (checkDue cfg mt plan) := by
  refine .bind runPlanReadiness_undertaken.attempt fun out => ?_
  cases out with
  | ok result => exact .ret _
  | error exc =>
    exact .bind (.perform trivial) fun now => .bind applyCheckResult_undertaken fun _ => .ret _

private theorem tickPlanReadiness_undertaken : Undertaken cfg polls (tickPlanReadiness cfg mt) := by
  rw [tickPlanReadiness, map_eq_bind]
  refine .bind (.ite (fun _ => .ret _) fun _ => ?_) fun _ => .ret _
  refine .bind listPlans_undertaken fun plans => .bind (.perform trivial) fun now => ?_
  refine .bind (.ofExcept _) fun due => ?_
  induction due with
  | nil => exact .ret _
  | cons plan rest ih => exact .bind checkDue_undertaken fun _ => .bind ih fun _ => .ret _

private theorem apiCheckPlan_undertaken (planId : Uuid) (atOrBefore : String) :
    Undertaken cfg polls (apiCheckPlan cfg mt planId atOrBefore) := by
  refine .bind (.perform trivial) fun found => ?_
  cases found with
  | none => exact .raise _
  | some plan =>
    refine .bind runPlanReadiness_undertaken.attempt fun out => ?_
    cases out with
    | ok result => exact .ret _
    | error exc => exact .raise _

private theorem releaseSlot_undertaken : Undertaken cfg polls releaseSlot :=
  .bind (.perform trivial) fun _ => .ite (fun _ => .perform trivial) fun _ => .ret _

private theorem workerTurn_undertaken (limit : ℤ) :
    Undertaken cfg polls (workerTurn cfg polls limit) := by
  refine .bind (.bind (.perform trivial) fun n => ?_) fun acquired => ?_
  · refine .ite (fun _ => ?_) fun _ => .ret _
    exact .bind (.perform trivial) fun _ => .ret _
  · refine .ite (fun _ => .bind (.attempt (.part .work)) fun out => ?_) fun _ => .ret _
    exact .bind releaseSlot_undertaken fun _ => .ofExcept _

private theorem workerIteration_undertaken (limit : ℤ) :
    Undertaken cfg polls (workerIteration cfg mt polls limit) := by
  refine .bind (.perform trivial) fun paused => .ite (fun _ => .ret _) fun _ => ?_
  refine .bind (.attempt (.part .advance)) fun _ => ?_
  refine .bind tickPlanReadiness_undertaken.attempt fun _ => ?_
  refine .bind tickScheduledPlanRuns_undertaken.attempt fun _ => workerTurn_undertaken limit

private theorem reconcileSlots_undertaken : Undertaken cfg polls reconcileSlots := by
  have hcount : ∀ ids, Undertaken cfg polls (countRestoring ids) := fun ids => by
    induction ids with
    | nil => exact .ret _
    | cons id rest ih => exact .bind (.perform trivial) fun _ => .bind ih fun _ => .ret _
  refine .bind (.bind (.perform trivial) fun ids => hcount ids) fun restoring => ?_
  exact .bind (.perform trivial) fun _ => .bind (.perform trivial) fun _ => .ret _

end Ticks

/-! ### The registry -/

private theorem updateGroup_undertaken (id : Uuid) (payload : GroupPayload) :
    Undertaken cfg polls (updateGroup mt id payload) := by
  refine .bind (.perform trivial) fun found => ?_
  cases found with
  | none => exact .raise _
  | some group =>
    exact .bind (.ofExcept _) fun data => .bind (.perform trivial) fun _ => .ret _

private theorem updateLocation_undertaken (id : Uuid) (payload : LocationPayload) :
    Undertaken cfg polls (updateLocation id payload) := by
  refine .bind (.perform trivial) fun found => ?_
  cases found with
  | none => exact .raise _
  | some location =>
    exact .bind (.ofExcept _) fun data => .bind (.perform trivial) fun _ => .ret _

private theorem updatePlan_undertaken (id : Uuid) (payload : PlanPayload) :
    Undertaken cfg polls (updatePlan id payload) := by
  refine .bind (.perform trivial) fun found => ?_
  cases found with
  | none => exact .raise _
  | some plan => exact .bind (.ofExcept _) fun data => .bind (.perform trivial) fun _ => .ret _

/-- Every activity keeps books around the undertakings. -/
theorem Activity.undertaken (act : Activity) : Undertaken cfg polls (act.program cfg mt polls) := by
  have hdiscard : ∀ {β : Type} {p : Prog β}, Undertaken cfg polls p →
      Undertaken cfg polls (discard p) := fun hp => .bind hp fun _ => .ret _
  cases act with
  | iteration limit => exact workerIteration_undertaken limit
  | startup => exact hdiscard reconcileSlots_undertaken
  | restoreSelected body => exact hdiscard (restoreSelected_undertaken body)
  | restoreTagGroup body => exact hdiscard (restoreTagGroup_undertaken body)
  | runPlan planId body => exact hdiscard (apiRunPlan_undertaken planId body)
  | assurePlan planId body => exact hdiscard (apiAssurePlan_undertaken planId body)
  | checkPlan planId atOrBefore => exact hdiscard (apiCheckPlan_undertaken planId atOrBefore)
  | cancelRun runId => exact hdiscard (apiCancelPlanRun_undertaken runId)
  | teardownRun runId force => exact hdiscard (.part (.teardown runId force))
  | stopJob id => exact hdiscard (.part (.stop id))
  | pauseQueue paused => exact .perform trivial
  | stopQueue fuel => exact hdiscard (.part (.drain fuel))
  | createGroup payload | createLocation payload | createPlan payload =>
    exact hdiscard (.bind (.ofExcept _) fun _ => .bind (.perform trivial) fun _ =>
      .bind (.perform trivial) fun _ => .ret _)
  | updateGroup id payload => exact hdiscard (updateGroup_undertaken id payload)
  | updateLocation id payload => exact hdiscard (updateLocation_undertaken id payload)
  | updatePlan id payload => exact hdiscard (updatePlan_undertaken id payload)
  | deleteGroup id | deleteLocation id | deletePlan id => exact hdiscard (.perform trivial)

/-- **What the engine is made of**: every activity keeps books around the six procedures. -/
theorem Activity.composed (act : Activity) : Composed cfg polls (act.program cfg mt polls) :=
  act.undertaken.refine (fun _ ho => ho.keepsBooks) fun _ _ hp => hp.composed

end RestoreEngine
