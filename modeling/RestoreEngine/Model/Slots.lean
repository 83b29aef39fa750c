import RestoreEngine.Model.Worker

/-!
# `concurrency.py`: concurrency slots

A counter in Redis limits how many jobs run at a time. A worker takes a slot before it waits for
a job (`tryAcquireSlot`) and gives it back once the job has ended, or if there was none
(`releaseSlot`). A worker that starts sets the counter anew (`reconcileSlots`).

The exceptions of Redis, which the source swallows, are left out, and so are log messages.
-/

namespace RestoreEngine

open Effects Prog

/-- `try_acquire_slot`: INCR, and rolled back if that exceeds the limit. -/
def tryAcquireSlot (limit : ℤ) : Prog Bool := do
  let cap := max 1 limit
  let n ← issue .incrSlots
  if cap < n then do
    let _ ← issue .decrSlots
    return false
  else return true

/-- `release_slot`. -/
def releaseSlot : Prog Unit := do
  let n ← issue .decrSlots
  if n < 0 then issue (.setSlots 0) else return ()

/-- The loop of `count_restoring_jobs` over the job hashes. -/
def countRestoring : List Uuid → Prog ℕ
  | [] => return 0
  | id :: rest => do
    let state := (← hgetall id).bind (·.state)
    let others ← countRestoring rest
    return (if state = some .RESTORING then 1 else 0) + others

/-- `count_restoring_jobs`. -/
def countRestoringJobs : Prog ℕ := do countRestoring (← issue .scanJobs)

/-- **`reconcile_slots`.** The old value of the counter is read for a log message. -/
def reconcileSlots : Prog ℕ := do
  let restoring ← countRestoringJobs
  let _ ← issue .getSlots
  issue (.setSlots restoring)
  return restoring

/-- What is done in a slot, which is given back whatever the outcome. -/
def withSlot (limit : ℤ) (body : Prog Unit) : Prog Unit := do
  if ← tryAcquireSlot limit then do
    let out ← body.attempt
    releaseSlot
    Program.ofExcept out
  else return ()

/-- `run_job` with its `finally` clause, as the thread of a claimed job runs it. -/
def runJobInSlot (cfg : Config) (polls : ℕ) (id : Uuid) : Prog Unit := do
  let out ← (runJob cfg polls id).attempt
  releaseSlot
  Program.ofExcept out

/-- One turn of the claiming loop of `worker_loop`, with the thread that it starts: the limit is
read afresh, a job is waited for in a slot, and run in it. -/
def workerTurn (cfg : Config) (polls : ℕ) (limit : ℤ) : Prog Unit :=
  withSlot limit (claimJob cfg polls)

end RestoreEngine
