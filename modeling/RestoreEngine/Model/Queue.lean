import RestoreEngine.Model.Readiness
import RestoreEngine.Model.Slots

/-!
# `queue_control.py`: the pause flag of the queue

An operator pauses the queue, resumes it, or stops it: then the jobs that wait are cancelled
(`drainPendingJobs`). `workerIteration` is an iteration of the worker's loop, which reads the flag
at its start, and claims a job from the queue at its end.

The purge of expired job hashes is left out, and so are the heartbeat and log messages.
-/

namespace RestoreEngine

open Effects Prog

/-- `is_queue_paused`. -/
def isQueuePaused : Prog Bool := issue .getPaused

/-- `set_queue_paused`. -/
def setQueuePaused (paused : Bool) : Prog Unit := issue (.setPaused paused)

/-! ### Stopping -/

/-- HSET of a job that is cancelled by the stop. -/
def cancelByStop (id : Uuid) : Prog Unit :=
  hset id (stateFields .CANCELLED (some "Cancelled by queue stop (pending drain)"))

/-- The loop that empties the queue: the jobs that it cancelled. A hash without a state counts as
PENDING. -/
def emptyQueue : (fuel : ℕ) → Prog (List Uuid)
  | 0 => park
  | fuel + 1 => do
    match ← issue .lpop with
    | none => return []
    | some id => do
      let state := ((← hgetall id).bind (·.state)).getD .PENDING
      if state = .PENDING then do
        cancelByStop id
        let others ← emptyQueue fuel
        return id :: others
      else emptyQueue fuel

/-- The sweep over the keys of the job hashes, for jobs that wait and are not in the queue. A hash
is reported under its field `job_id`, which `named` gives, or else under its key. -/
def sweepKeys (named : Uuid → Option Uuid) (cancelled : List Uuid) : List Uuid → Prog (List Uuid)
  | [] => return cancelled
  | id :: rest => do
    let state := (← hgetall id).bind (·.state)
    if state = some .PENDING then do
      cancelByStop id
      let jobId := (named id).getD id
      sweepKeys named (if jobId ∈ cancelled then cancelled else cancelled ++ [jobId]) rest
    else sweepKeys named cancelled rest

/-- The sweep over hashes that have their keys for `job_id`, as `enqueue_restores` writes them. -/
def sweepPending (cancelled ids : List Uuid) : Prog (List Uuid) := sweepKeys some cancelled ids

/-- **`drain_pending_jobs`**: the ids of the jobs that it cancelled. -/
def drainPendingJobs (fuel : ℕ) : Prog (List Uuid) := do
  setQueuePaused true
  let cancelled ← emptyQueue fuel
  sweepPending cancelled (← issue .scanJobs)

/-- What `drain_pending_jobs` returns. -/
structure DrainResult where
  cancelled : ℕ
  cancelledJobIds : List Uuid
  deriving DecidableEq

/-- **`drain_pending_jobs`**, where the SCAN lists these keys, in any order and repeated or not, and
the hashes have these `job_id`. -/
def drainScanned (named : Uuid → Option Uuid) (keys : List Uuid) (fuel : ℕ) :
    Prog DrainResult := do
  setQueuePaused true
  let cancelled ← emptyQueue fuel
  let cancelledIds ← sweepKeys named cancelled keys
  return { cancelled := cancelledIds.length, cancelledJobIds := cancelledIds }

/-! ### The loop of the worker -/

/-- An iteration of the loop of `worker_loop`, with the thread that it starts. What the ticks raise
is logged. -/
def workerIteration (cfg : Config) (mt : Matching) (polls : ℕ) (limit : ℤ) : Prog Unit := do
  if ← isQueuePaused then return ()
  else do
    let _ ← (advancePlanRuns cfg enqueueRestores).attempt
    let _ ← (tickPlanReadiness cfg mt).attempt
    let _ ← (tickScheduledPlanRuns (readers mt)).attempt
    workerTurn cfg polls limit

end RestoreEngine
