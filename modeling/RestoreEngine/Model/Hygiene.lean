import RestoreEngine.Effects.Interpret
import RestoreEngine.Model.Api
import RestoreEngine.Model.Queue

/-!
# `job_hygiene.py`: the expiry of job hashes and their logs

Job hashes and log lists with their expiry, and everybody who writes them: the enqueue, the worker,
the operator who stops a job, the queue or a plan run, and the purge. A key whose expiry has passed
is not there any more. Time passes between commands, not during them.

What a worker writes after its first checks depends on what Proxmox answers. Here it is a list of
calls (`Call`), any list at all. The procedures that finish jobs without a worker are those of the
engine, with their commands carried out on this store (`overHashes`).
-/

namespace RestoreEngine.Hygiene

open Effects Program

/-- A value in Redis, with its expiry if it has one. -/
structure Timed (α : Type) where
  value : α
  expiry : Option Instant := none
  deriving DecidableEq

/-- The value is still there. -/
def Timed.lasts {α : Type} (t : Timed α) (now : Instant) : Bool := t.expiry.all (now < ·)

/-- The job hashes, the log lists with the numbers of their lines, and the queue. -/
structure Store where
  jobs : AList fun _ : Uuid => Timed Job
  logs : AList fun _ : Uuid => Timed ℕ
  queue : List Uuid
  clock : Instant
  nextUuid : Uuid

namespace Store

/-- The job hash stored under an id. -/
def job (s : Store) (id : Uuid) : Option (Timed Job) :=
  (s.jobs.lookup id).filter (·.lasts s.clock)

/-- The log list of a job. -/
def log (s : Store) (id : Uuid) : Option (Timed ℕ) :=
  (s.logs.lookup id).filter (·.lasts s.clock)

/-- The ids of the job hashes. -/
def ids (s : Store) : List Uuid := s.jobs.keys.filter fun id => (s.job id).isSome

/-- HSET on a job hash, creating it if it is absent. An expiry stays. -/
def hset (s : Store) (id : Uuid) (mapping : Instant → Job → Job) : Store :=
  { s with
    jobs := s.jobs.insert id
      ⟨mapping s.clock (((s.job id).map (·.value)).getD {}), (s.job id).bind (·.expiry)⟩ }

/-- RPUSH of a line to the log list, creating it if it is absent. -/
def rpushLog (s : Store) (id : Uuid) : Store :=
  { s with
    logs := s.logs.insert id
      ⟨((s.log id).map (·.value)).getD 0 + 1, (s.log id).bind (·.expiry)⟩ }

/-- EXPIRE of a job hash; of no effect if it is absent. -/
def expire (s : Store) (id : Uuid) (ttl : ℤ) : Store :=
  match s.job id with
  | some t => { s with jobs := s.jobs.insert id { t with expiry := some (s.clock + ttl * second) } }
  | none => s

/-- EXPIRE of a log list; of no effect if it is absent. -/
def expireLog (s : Store) (id : Uuid) (ttl : ℤ) : Store :=
  match s.log id with
  | some t => { s with logs := s.logs.insert id { t with expiry := some (s.clock + ttl * second) } }
  | none => s

/-- Time passes. -/
def wait (s : Store) (span : ℕ) : Store := { s with clock := s.clock + span }

end Store

/-! ### Commands -/

/-- The commands. -/
inductive Op
  | hgetall (id : Uuid)
  | hset (id : Uuid) (mapping : Instant → Job → Job)
  | hsetLrem (id : Uuid) (mapping : Instant → Job → Job)
  | expire (id : Uuid) (ttl : ℤ)
  | expireLog (id : Uuid) (ttl : ℤ)
  | rpushLog (id : Uuid)
  | delete (id : Uuid)
  | deleteLog (id : Uuid)
  | scan
  | rpush (id : Uuid)
  | lpop
  | uuid4
  | utcNow
  | wait (span : ℕ)
  | park

/-- The replies. -/
@[reducible] def Op.Res : Op → Type
  | hgetall _ => Option Job
  | hset _ _ | hsetLrem _ _ | expire _ _ | expireLog _ _ | rpushLog _ => Unit
  | delete _ | deleteLog _ | rpush _ | wait _ => Unit
  | scan => List Uuid
  | lpop => Option Uuid
  | uuid4 => Uuid
  | utcNow => Instant
  | park => Empty

/-- The signature of the commands. -/
@[reducible] def commands : Signature := ⟨Op, Op.Res⟩

/-- A program of the engine, as far as job hashes and logs go. -/
abbrev Prog := Program commands Exn

/-- How the store answers. SCAN lists the job hashes in any order. -/
def environment : Environment commands Store (List Uuid)
  | .hgetall id, _, s => some ((s.job id).map (·.value), s)
  | .hset id mapping, _, s => some ((), s.hset id mapping)
  | .hsetLrem id mapping, _, s =>
    some ((), { s.hset id mapping with queue := s.queue.filter (· ≠ id) })
  | .expire id ttl, _, s => some ((), s.expire id ttl)
  | .expireLog id ttl, _, s => some ((), s.expireLog id ttl)
  | .rpushLog id, _, s => some ((), s.rpushLog id)
  | .delete id, _, s => some ((), { s with jobs := s.jobs.erase id })
  | .deleteLog id, _, s => some ((), { s with logs := s.logs.erase id })
  | .scan, order, s => if order.Perm s.ids then some (order, s) else none
  | .rpush id, _, s => some ((), { s with queue := s.queue ++ [id] })
  | .lpop, _, s => some (s.queue.head?, { s with queue := s.queue.tail })
  | .uuid4, _, s => some (s.nextUuid, { s with nextUuid := s.nextUuid + 1 })
  | .utcNow, _, s => some (s.clock, s)
  | .wait span, _, s => some ((), s.wait span)
  | .park, _, _ => none

/-- Issue one command. -/
abbrev issue (o : Op) : Prog o.Res := perform (S := commands) o

/-! ### The worker -/

/-- `job_ttl_sec`. -/
def jobTtlSec (cfg : Config) : ℤ := max 0 cfg.jobTtlSec

/-- `apply_job_ttl`. -/
def applyJobTtl (cfg : Config) (id : Uuid) (state : RestoreState) : Prog Unit :=
  if jobTtlSec cfg ≤ 0 ∨ ¬state.IsTerminal then return ()
  else do
    issue (.expire id (jobTtlSec cfg))
    issue (.expireLog id (jobTtlSec cfg))

/-- `set_state`. -/
def setState (cfg : Config) (id : Uuid) (state : RestoreState) (error : Option String) :
    Prog Unit := do
  issue (.hset id (stateFields state error))
  applyJobTtl cfg id state

/-- `append_log`. -/
def appendLog (id : Uuid) : Prog Unit := issue (.rpushLog id)

/-- `mark_cancelled`. -/
def markCancelled (cfg : Config) (id : Uuid) : Prog Unit := do
  setState cfg id .CANCELLED none
  appendLog id

/-- A call by which a worker writes the hash or the log of its job. `fields` is HSET of other
fields than the state. -/
inductive Call
  | fields
  | log
  | state (state : RestoreState) (error : Option String)
  | cancelled

/-- The calls of a worker, one after the other. -/
def performCalls (cfg : Config) (id : Uuid) : List Call → Prog Unit
  | [] => return ()
  | .fields :: rest => do
    issue (.hset id stamp)
    performCalls cfg id rest
  | .log :: rest => do
    appendLog id
    performCalls cfg id rest
  | .state state error :: rest => do
    setState cfg id state error
    performCalls cfg id rest
  | .cancelled :: rest => do
    markCancelled cfg id
    performCalls cfg id rest

/-- `run_job`, with `process_job` in it. -/
def runJob (cfg : Config) (id : Uuid) (calls : List Call) : Prog Unit := do
  match ← issue (.hgetall id) with
  | none => return ()
  | some _ =>
    if ((← issue (.hgetall id)).getD {}).cancelRequested then markCancelled cfg id
    else performCalls cfg id calls

/-! ### The enqueue, and the procedures that finish jobs -/

/-- The loop of `enqueue_restores` that writes the jobs, with the fields of each. -/
def writeJobs : List Job → Prog Unit
  | [] => return ()
  | data :: rest => do
    let id ← issue .uuid4
    issue (.hset id fun now _ =>
      { data with state := some .PENDING, createdAt := some now, updatedAt := some now })
    issue (.rpush id)
    writeJobs rest

/-- The commands of the engine that reach job hashes or the queue, over this store. The pause key
lies elsewhere; those who finish jobs without a worker issue nothing else. -/
def overHashes : Handler RestoreEngine.commands commands Exn
  | .hgetall id => issue (.hgetall id)
  | .hset id mapping => issue (.hset id mapping)
  | .hsetLrem id mapping => issue (.hsetLrem id mapping)
  | .lpop => issue .lpop
  | .scanJobs => issue .scan
  | .setPaused _ => return ()
  | _ => do
    let never ← issue .park
    nomatch never

/-- What a procedure of the engine does to job hashes and the queue. -/
def onHashes {α : Type} (p : RestoreEngine.Prog α) : Prog Unit := do
  let _ ← p.interpret overHashes
  return ()

/-! ### The purge -/

/-- `max_scan`. -/
def maxScan : ℕ := 500

/-- The job is finished, and was last written at the cutoff or before. -/
def IsOld (cutoff : Instant) (data : Job) : Bool :=
  data.state.any (·.IsTerminal) && (data.updatedAt.or data.createdAt).any (· ≤ cutoff)

/-- The loop of `purge_expired_scan`, which may look at `left` more hashes. -/
def purgeKeys (cutoff : Instant) : (left : ℕ) → List Uuid → Prog ℕ
  | _, [] => return 0
  | 0, _ :: _ => return 0
  | left + 1, id :: rest => do
    let data := (← issue (.hgetall id)).getD {}
    if IsOld cutoff data then do
      issue (.delete id)
      issue (.deleteLog id)
      let purged ← purgeKeys cutoff left rest
      return purged + 1
    else purgeKeys cutoff left rest

/-- `purge_expired_scan`. -/
def purgeExpiredScan (cfg : Config) : Prog ℕ := do
  if jobTtlSec cfg ≤ 0 then return 0
  else do
    let cutoff := (← issue .utcNow) - jobTtlSec cfg * second
    purgeKeys cutoff maxScan (← issue .scan)

/-! ### All of them -/

/-- Somebody who writes job hashes or logs. The last lets time pass. -/
inductive Actor
  | enqueue (jobs : List Job)
  | worker (id : Uuid) (calls : List Call)
  | stop (id : Uuid)
  | drain (fuel : ℕ)
  | cancel (ids : List Uuid)
  | purge
  | time (spans : List ℕ)

/-- Time passes, with what others do in between. -/
def passTime : List ℕ → Prog Unit
  | [] => return ()
  | span :: rest => do
    issue (.wait span)
    passTime rest

/-- What an actor does. -/
def Actor.program (cfg : Config) : Actor → Prog Unit
  | enqueue jobs => writeJobs jobs
  | worker id calls => runJob cfg id calls
  | stop id => onHashes (stopJob id)
  | drain fuel => onHashes (drainPendingJobs fuel)
  | cancel ids => onHashes (cancelJobs ids)
  | purge => do
    let _ ← purgeExpiredScan cfg
    return ()
  | time spans => passTime spans

end RestoreEngine.Hygiene
