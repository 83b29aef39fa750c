import RestoreEngine.Model.Queue
import RestoreEngine.Model.Registry

/-!
# The engine at work

All that the processes of the engine do at the request of operators or by themselves: the
iterations of workers, the handlers of the API that change something, and the commands of the
queue. Each is a program of its own; how the programs interleave is nobody's choice.

Handlers that only read are left out, and so is the editing of the configuration file.
-/

namespace RestoreEngine

open Effects Prog

/-! ### Requests that concern runs -/

/-- **`api_cancel_plan_run`.** -/
def apiCancelPlanRun (cfg : Config) (runId : Uuid) : Prog AggregatedRun := do
  match ← (cancelPlanRun cfg runId).attempt with
  | .ok run => return run
  | .error (.valueError text) => .raise (badRequest text)
  | .error exc => .raise exc

/-- The body of `api_teardown_plan_run`: a RUNNING run is cancelled first. -/
def cancelAndTeardown (cfg : Config) (runId : Uuid) (run : PlanRun) : Prog PlanRun :=
  if run.status = .RUNNING then do
    let _ ← cancelPlanRun cfg runId
    teardownPlanRun ((← getRun runId).getD run)
  else teardownPlanRun run

/-- **`api_teardown_plan_run`.** -/
def apiTeardownPlanRun (cfg : Config) (runId : Uuid) (force : Bool) : Prog AggregatedRun := do
  match ← getRun runId with
  | none => .raise (.httpException 404 "Plan run not found")
  | some run =>
    if run.status = .RUNNING ∧ !force then
      .raise (badRequest "Plan run is still RUNNING; cancel it first or pass force=true")
    else
      match ← (cancelAndTeardown cfg runId run).attempt with
      | .ok updated => aggregatePlanRun updated
      | .error (.valueError text) => .raise (badRequest text)
      | .error exc => .raise (.httpException 502 s!"Teardown failed: {exc.publicMessage}")

/-! ### What goes on -/

/-- What a process of the engine does. -/
inductive Activity
  /-- An iteration of a worker, with the limit that it reads and the thread that it starts. -/
  | iteration (limit : ℤ)
  /-- A worker starts. -/
  | startup
  | restoreSelected (body : RestoreSelectedRequest)
  | restoreTagGroup (body : RestoreTagGroupRequest)
  | runPlan (planId : Uuid) (body : PlanRunRequest)
  | assurePlan (planId : Uuid) (body : PlanAssureRequest)
  | checkPlan (planId : Uuid) (atOrBefore : String)
  | cancelRun (runId : Uuid)
  | teardownRun (runId : Uuid) (force : Bool)
  | stopJob (id : Uuid)
  | pauseQueue (paused : Bool)
  | stopQueue (fuel : ℕ)
  | createGroup (payload : GroupPayload)
  | updateGroup (id : Uuid) (payload : GroupPayload)
  | deleteGroup (id : Uuid)
  | createLocation (payload : LocationPayload)
  | updateLocation (id : Uuid) (payload : LocationPayload)
  | deleteLocation (id : Uuid)
  | createPlan (payload : PlanPayload)
  | updatePlan (id : Uuid) (payload : PlanPayload)
  | deletePlan (id : Uuid)

/-- **The program of an activity.** -/
def Activity.program (cfg : Config) (mt : Matching) (polls : ℕ) : Activity → Prog Unit
  | iteration limit => workerIteration cfg mt polls limit
  | startup => discard reconcileSlots
  | restoreSelected body => discard (RestoreEngine.restoreSelected cfg (readers mt) body)
  | restoreTagGroup body => discard (RestoreEngine.restoreTagGroup cfg (readers mt) body)
  | runPlan planId body => discard (apiRunPlan cfg (readers mt) planId body)
  | assurePlan planId body => discard (apiAssurePlan cfg (readers mt) planId body)
  | checkPlan planId atOrBefore => discard (apiCheckPlan cfg mt planId atOrBefore)
  | cancelRun runId => discard (apiCancelPlanRun cfg runId)
  | teardownRun runId force => discard (apiTeardownPlanRun cfg runId force)
  | stopJob id => discard (RestoreEngine.stopJob id)
  | pauseQueue paused => setQueuePaused paused
  | stopQueue fuel => discard (drainPendingJobs fuel)
  | createGroup payload => discard (RestoreEngine.createGroup mt payload)
  | updateGroup id payload => discard (RestoreEngine.updateGroup mt id payload)
  | deleteGroup id => discard (RestoreEngine.deleteGroup id)
  | createLocation payload => discard (RestoreEngine.createLocation payload)
  | updateLocation id payload => discard (RestoreEngine.updateLocation id payload)
  | deleteLocation id => discard (RestoreEngine.deleteLocation id)
  | createPlan payload => discard (RestoreEngine.createPlan payload)
  | updatePlan id payload => discard (RestoreEngine.updatePlan id payload)
  | deletePlan id => discard (RestoreEngine.deletePlan id)

end RestoreEngine
