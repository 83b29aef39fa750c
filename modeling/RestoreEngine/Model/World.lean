import RestoreEngine.Effects.Pool
import RestoreEngine.Model.Records
import Mathlib.Data.List.AList
import Mathlib.Data.Finset.Defs

/-!
# The world of the engine

The program touches Redis and the Proxmox API, nothing else. `Op` lists the commands it
issues: one constructor for every Redis command (or transaction) and every API request.
`World` is what they act on and `environment` how they are answered.

Redis commands never fail and take effect at once. An API request is answered according to
an `Answer`, which the surroundings choose: it may be carried out, it may raise with any text
without having had an effect, or raise although it was carried out. A request that is
carried out reports the guests truthfully, and follows the rules of Proxmox VE: the VMIDs of
QEMU guests and containers share one name space, a restore without `force` needs a free
VMID, and a restore with `force` replaces a QEMU guest.

`Client` stands for the API client object. It remembers for what it was opened; a guest
keeps the job whose restore created it. Nothing the program computes depends on either:
they are there to state who did what.
-/

namespace RestoreEngine

open Effects

/-- What an API client was opened for. -/
inductive Client
  /-- A call of `enqueue_restores`, for a plan run or ad hoc. -/
  | enqueue (planRunId : Option Uuid)
  /-- The processing of a job by a worker. -/
  | job (jobId : Uuid)
  /-- A teardown of a plan run. -/
  | teardown (runId : Uuid)
  deriving DecidableEq

/-! ### The Proxmox cluster -/

inductive GuestKind
  | qemu | lxc
  deriving DecidableEq

/-- The configuration of a guest: option names and their texts. -/
abbrev GuestConfig := List (String × String)

/-- A guest of the cluster. -/
structure Guest where
  kind : GuestKind
  /-- The node the guest lives on. -/
  node : String
  /-- Whether the cluster resource listing names that node. -/
  nodeListed : Bool := true
  config : GuestConfig := []
  /-- The job whose restore created the guest; `none` for guests of other origin. -/
  creator : Option Uuid := none
  deriving DecidableEq

/-- A row of the cluster resource listing. -/
structure Resource where
  type : String
  vmid : Option ℤ
  node : String
  deriving DecidableEq

def GuestKind.text : GuestKind → String
  | qemu => "qemu"
  | lxc => "lxc"

/-- The row of a guest in the listing. -/
def Guest.resource (g : Guest) (vmid : ℤ) : Resource :=
  { type := g.kind.text, vmid := some vmid, node := if g.nodeListed then g.node else "" }

/-- The status of a task; `exitstatus` counts once `status` is `stopped`. -/
structure TaskStatus where
  status : String
  exitstatus : String := ""
  deriving DecidableEq

/-- How the surroundings answer an API request. -/
inductive Answer
  /-- Carried out. -/
  | ok
  /-- Raised, nothing done. -/
  | fault (text : String)
  /-- Carried out, but the caller sees an exception. -/
  | lost (text : String)
  /-- The client library does not know a parameter. -/
  | typeError (text : String)
  /-- A reply of an unexpected shape. -/
  | malformed
  /-- A reply whose content the surroundings decide. -/
  | content (text : String)
  /-- A numeric reply: a status code, or how much time has passed. -/
  | number (n : ℕ)
  deriving DecidableEq

instance : Inhabited Answer := ⟨.ok⟩

/-- What other actors do to the cluster. -/
inductive Outside
  | create (vmid : ℤ) (guest : Guest)
  | remove (vmid : ℤ)
  | edit (vmid : ℤ) (config : GuestConfig)
  /-- The API becomes reachable or unreachable. -/
  | reach (up : Bool)

/-- The parameters of a restore request. -/
structure RestoreParams where
  vmid : ℤ
  archive : String
  storage : String
  liveRestore : Bool
  unique : Bool
  force : Bool
  bwlimit : Option ℤ
  deriving DecidableEq

/-! ### Probes -/

/-- A storage of a node, as `list_node_storages` describes it. -/
structure NodeStorage where
  id : String
  usableForVmDisks : Bool
  enabled : Bool := true
  deriving DecidableEq

/-- The connectivity of a PBS source. -/
structure PbsResult where
  sourceId : String := ""
  label : String := ""
  ok : Bool
  detail : String := ""
  deriving DecidableEq

/-- The questions that a readiness check has others answer. -/
inductive Probe
  /-- `probe_pbs_fn`. -/
  | pbs
  /-- `test_pve_fn`. -/
  | pve
  /-- `connect_pve_fn`: whether it returned a session. -/
  | session
  /-- `list_nodes_fn`: the names of the cluster nodes. -/
  | nodes
  /-- `list_storages_fn`. -/
  | storages (node : String)
  /-- `list_backups_fn`. -/
  | backups
  /-- `vmids_in_use_fn`. -/
  | vmids
  /-- `resolve_tags_fn`: the tags by backup id, and the errors. -/
  | tags (rows : List Row) (node : String)
  /-- `estimate_size_fn`: the bytes that are not zero. -/
  | size (backupId : String)

/-- The type of answers to a probe. -/
@[reducible] def Probe.Reply : Probe → Type
  | pbs => Bool × List PbsResult
  | pve => Bool × String
  | session => Bool
  | nodes => List String
  | storages _ => List NodeStorage
  | backups => List Row
  | vmids => Finset ℤ
  | tags _ _ => List (String × List String) × List (String × String)
  | size _ => Option ℤ

/-! ### Commands -/

/-- The commands of the program. A mapping written to a job hash is a function on hashes
that sets its fields; it gets the instant of the write, which `updated_at` is set from. -/
inductive Op
  -- job hashes, the queue, and the expiry of job hashes
  | hgetall (id : Uuid)
  | hset (id : Uuid) (mapping : Instant → Job → Job)
  | hsetLrem (id : Uuid) (mapping : Instant → Job → Job)
  | expire (id : Uuid)
  | scanJobs
  | rpush (id : Uuid)
  | blpop
  | lpop
  -- the pause flag of the queue, and the counter of concurrency slots
  | getPaused
  | setPaused (paused : Bool)
  | getSlots
  | setSlots (n : ℤ)
  | incrSlots
  | decrSlots
  -- plan runs: `save_plan_run`'s transaction, the record, the active set
  | setRun (run : PlanRun)
  | getRun (id : Uuid)
  | activeRuns
  | dropActive (id : Uuid)
  -- plans, groups, locations and reports
  | setPlan (plan : Plan)
  | getPlan (id : Uuid)
  | delPlan (id : Uuid)
  | planIds
  | setGroup (group : Group)
  | getGroup (id : Uuid)
  | delGroup (id : Uuid)
  | setLocation (location : Location)
  | getLocation (id : Uuid)
  | delLocation (id : Uuid)
  | addReport (report : Report)
  | reportIds
  | dropReports (ids : List Uuid)
  -- fresh identifiers and the clock
  | uuid4
  | utcNow
  -- the Proxmox API
  | connect (px : Client)
  | clusterResources (px : Client)
  | qemuConfig (px : Client) (node : String) (vmid : ℤ)
  | qemuConfigPut (px : Client) (node : String) (vmid : ℤ) (changes : GuestConfig)
  | qemuStop (px : Client) (node : String) (vmid : ℤ)
  | qemuStatus (px : Client) (node : String) (vmid : ℤ)
  | qemuStart (px : Client) (node : String) (vmid : ℤ)
  | qemuDelete (px : Client) (node : String) (vmid : ℤ) (unreferenced : Bool)
  | qemuRestore (px : Client) (node : String) (params : RestoreParams)
  | taskStatus (px : Client) (node upid : String)
  | taskLog (px : Client) (node upid : String)
  | taskStop (px : Client) (node upid : String)
  | agentPing (px : Client) (node : String) (vmid : ℤ)
  | agentHostname (px : Client) (node : String) (vmid : ℤ)
  -- other services
  | probe (p : Probe)
  | wireSample (backupId : String)
  | httpGet (url : String)
  | notify (runId : Uuid)
  -- other actors, and waiting without end
  | outside (act : Outside)
  | park

/-- The type of replies to a command. -/
@[reducible] def Op.Res : Op → Type
  | hgetall _ => Option Job
  | hset _ _ | hsetLrem _ _ | expire _ | rpush _ => Unit
  | scanJobs => List Uuid
  | blpop | lpop => Option Uuid
  | getPaused => Bool
  | setPaused _ | setSlots _ => Unit
  | getSlots | incrSlots | decrSlots => ℤ
  | setRun _ | dropActive _ => Unit
  | getRun _ => Option PlanRun
  | activeRuns => List Uuid
  | setPlan _ | setGroup _ | setLocation _ | addReport _ | dropReports _ => Unit
  | getPlan _ => Option Plan
  | getGroup _ => Option Group
  | getLocation _ => Option Location
  | delPlan _ | delGroup _ | delLocation _ => Bool
  | planIds => List Uuid
  | reportIds => List Uuid
  | uuid4 => Uuid
  | utcNow => Instant
  | connect _ => Except Exn Unit
  | clusterResources _ => Except Exn (Option (List Resource))
  | qemuConfig _ _ _ => Except Exn GuestConfig
  | qemuConfigPut _ _ _ _ | qemuStop _ _ _ | qemuDelete _ _ _ _ => Except Exn Unit
  | qemuStatus _ _ _ => Except Exn String
  | qemuStart _ _ _ | qemuRestore _ _ _ => Except Exn (Option String)
  | taskStatus _ _ _ => Except Exn (Option TaskStatus)
  | taskLog _ _ _ => Except Exn (List String)
  | taskStop _ _ _ => Unit
  | probe p => Except Exn p.Reply
  | agentPing _ _ _ => Bool
  | agentHostname _ _ _ => Option String
  | wireSample _ => Bool
  | httpGet _ => Except Exn ℤ
  | notify _ | outside _ => Unit
  | park => Empty

/-- The signature of the program's commands. -/
@[reducible] def commands : Signature := ⟨Op, Op.Res⟩

/-- A program of the engine. -/
abbrev Prog := Program commands Exn

/-! ### The state of the world -/

/-- Redis, the cluster, the sources of identifiers and of time. -/
structure World where
  jobs : AList (fun _ : Uuid => Job) := ∅
  queue : List Uuid := []
  /-- The pause flag of the queue. -/
  paused : Bool := false
  /-- The counter of concurrency slots. -/
  slots : ℤ := 0
  /-- The job hashes with an armed expiry. -/
  expiring : List Uuid := []
  runs : AList (fun _ : Uuid => PlanRun) := ∅
  active : List Uuid := []
  plans : AList (fun _ : Uuid => Plan) := ∅
  groups : AList (fun _ : Uuid => Group) := ∅
  locations : AList (fun _ : Uuid => Location) := ∅
  /-- The report index, oldest first. -/
  reports : List Report := []
  nextUuid : Uuid := 0
  clock : Instant := 0
  guests : AList (fun _ : ℤ => Guest) := ∅
  /-- Whether a session with the API can be opened. -/
  up : Bool := true
  /-- The guest configuration stored in an archive. -/
  archives : String → GuestConfig := fun _ => []
  /-- What the probes of a readiness check come to, as the surroundings choose. -/
  answers : (p : Probe) → Answer → Except Exn p.Reply := fun _ _ => .error (.api "no answer")

namespace World

/-- The job hash stored under an id. -/
def job (w : World) (id : Uuid) : Option Job := w.jobs.lookup id

/-- The plan run stored under an id. -/
def run (w : World) (id : Uuid) : Option PlanRun := w.runs.lookup id

/-- The plan stored under an id. -/
def plan (w : World) (id : Uuid) : Option Plan := w.plans.lookup id

/-- The group stored under an id. -/
def group (w : World) (id : Uuid) : Option Group := w.groups.lookup id

/-- The location stored under an id. -/
def location (w : World) (id : Uuid) : Option Location := w.locations.lookup id

/-- The guest at a VMID. -/
def guest (w : World) (vmid : ℤ) : Option Guest := w.guests.lookup vmid

/-- The cluster resource listing, `type=vm`. -/
def listing (w : World) : List Resource := w.guests.entries.map fun e => e.2.resource e.1

/-- The guest that an API path `nodes/{node}/qemu/{vmid}` addresses. -/
def qemuAt (w : World) (node : String) (vmid : ℤ) : Option Guest :=
  (w.guest vmid).filter fun g => g.kind == .qemu && g.node == node

/-- HSET on a job hash, creating it if it is absent. -/
def setJob (w : World) (id : Uuid) (mapping : Instant → Job → Job) : World :=
  { w with jobs := w.jobs.insert id (mapping w.clock ((w.job id).getD {})) }

/-- The cluster after a change by another actor. A VMID in use cannot be created again. -/
def outside (w : World) : Outside → World
  | .create v g =>
    if w.guest v = none then { w with guests := w.guests.insert v { g with creator := none } }
    else w
  | .remove v => { w with guests := w.guests.erase v }
  | .edit v config =>
    match w.guest v with
    | some g => { w with guests := w.guests.insert v { g with config } }
    | none => w
  | .reach up => { w with up }

/-- Option changes of a configuration: named options are replaced, new ones added. -/
def putOptions (config changes : GuestConfig) : GuestConfig :=
  changes.foldl (fun c kv => (c.filter fun e => e.1 ≠ kv.1) ++ [kv]) config

end World

/-! ### Answers -/

/-- The exception of a request that names a guest which is not there. -/
def noSuchGuest (node : String) (vmid : ℤ) : Exn :=
  .api s!"Configuration file 'nodes/{node}/qemu-server/{vmid}.conf' does not exist"

/-- A request on a guest with the effect `effect`: `Answer.fault` prevents it,
`Answer.lost` hides it, and a guest that is not there is an error. -/
def onGuest {α : Type} (w : World) (node : String) (vmid : ℤ) (a : Answer)
    (effect : Guest → Except Exn α × World) : Except Exn α × World :=
  match a with
  | .fault t => (.error (.api t), w)
  | .typeError t => (.error (.typeError t), w)
  | .lost t =>
    match w.qemuAt node vmid with
    | some g => (.error (.api t), (effect g).2)
    | none => (.error (.api t), w)
  | _ =>
    match w.qemuAt node vmid with
    | some g => effect g
    | none => (.error (noSuchGuest node vmid), w)

/-- The job that a client works for. -/
def Client.jobId : Client → Option Uuid
  | .job id => some id
  | _ => none

/-- The guest that a restore creates. -/
def World.restored (w : World) (px : Client) (node : String) (p : RestoreParams) : Guest :=
  { kind := .qemu, node, config := w.archives p.archive, creator := px.jobId }

/-- A restore needs a free VMID, or with `force` one that is free or of a QEMU guest. -/
def World.admitsRestore (w : World) (p : RestoreParams) : Bool :=
  match w.guest p.vmid with
  | none => true
  | some g => g.kind == .qemu && p.force

/-- A restore into a VMID. -/
def restoreInto (w : World) (px : Client) (node : String) (p : RestoreParams) :
    Except Exn (Option String) × World :=
  if w.admitsRestore p then
    (.ok (some s!"UPID:{node}:qmrestore:{p.vmid}:"),
      { w with guests := w.guests.insert p.vmid (w.restored px node p) })
  else (.error (.api s!"unable to restore VM {p.vmid} - VMID already in use"), w)

/-- **The environment.** -/
def environment : Environment commands World Answer
  | .hgetall id, _, w => some (w.job id, w)
  | .hset id f, _, w => some ((), w.setJob id f)
  | .hsetLrem id f, _, w =>
    some ((), { w.setJob id f with queue := w.queue.filter (· ≠ id) })
  | .expire id, _, w => some ((), { w with expiring := id :: w.expiring })
  | .scanJobs, _, w => some (w.jobs.keys, w)
  | .rpush id, _, w => some ((), { w with queue := w.queue ++ [id] })
  | .blpop, _, w => some (w.queue.head?, { w with queue := w.queue.tail })
  | .lpop, _, w => some (w.queue.head?, { w with queue := w.queue.tail })
  | .getPaused, _, w => some (w.paused, w)
  | .setPaused paused, _, w => some ((), { w with paused })
  | .getSlots, _, w => some (w.slots, w)
  | .setSlots n, _, w => some ((), { w with slots := n })
  | .incrSlots, _, w => some (w.slots + 1, { w with slots := w.slots + 1 })
  | .decrSlots, _, w => some (w.slots - 1, { w with slots := w.slots - 1 })
  | .setRun run, _, w =>
    some ((), { w with
      runs := w.runs.insert run.id run
      active := if run.status = .RUNNING then w.active.insert run.id
        else w.active.filter (· ≠ run.id) })
  | .getRun id, _, w => some (w.run id, w)
  | .activeRuns, _, w => some (w.active, w)
  | .dropActive id, _, w => some ((), { w with active := w.active.filter (· ≠ id) })
  | .setPlan plan, _, w => some ((), { w with plans := w.plans.insert plan.id plan })
  | .getPlan id, _, w => some (w.plan id, w)
  | .delPlan id, _, w => some ((w.plan id).isSome, { w with plans := w.plans.erase id })
  | .planIds, _, w => some (w.plans.keys, w)
  | .setGroup group, _, w => some ((), { w with groups := w.groups.insert group.id group })
  | .getGroup id, _, w => some (w.group id, w)
  | .delGroup id, _, w => some ((w.group id).isSome, { w with groups := w.groups.erase id })
  | .setLocation location, _, w =>
    some ((), { w with locations := w.locations.insert location.id location })
  | .getLocation id, _, w => some (w.location id, w)
  | .delLocation id, _, w =>
    some ((w.location id).isSome, { w with locations := w.locations.erase id })
  | .addReport rep, _, w => some ((), { w with reports := w.reports ++ [rep] })
  | .reportIds, _, w => some (w.reports.map (·.id), w)
  | .dropReports ids, _, w =>
    some ((), { w with reports := w.reports.filter fun rep => rep.id ∉ ids })
  | .uuid4, _, w => some (w.nextUuid, { w with nextUuid := w.nextUuid + 1 })
  | .utcNow, a, w =>
    let now := w.clock + match a with | .number n => n | _ => 0
    some (now, { w with clock := now })
  | .connect _, _, w =>
    some (if w.up then .ok () else .error (.api "connection refused"), w)
  | .clusterResources _, a, w =>
    some (match a with
      | .fault t => .error (.api t)
      | .malformed => .ok none
      | _ => .ok (some w.listing), w)
  | .qemuConfig _ node v, a, w =>
    some (onGuest w node v a fun g => (.ok g.config, w))
  | .qemuConfigPut _ node v changes, a, w =>
    some (onGuest w node v a fun g =>
      (.ok (), { w with
        guests := w.guests.insert v { g with config := World.putOptions g.config changes } }))
  | .qemuStop _ node v, a, w => some (onGuest w node v a fun _ => (.ok (), w))
  | .qemuStatus _ node v, a, w =>
    some (onGuest w node v a fun _ =>
      (.ok (match a with | .content s => s | _ => "stopped"), w))
  | .qemuStart _ node v, a, w =>
    some (onGuest w node v a fun _ =>
      (.ok (match a with | .content s => some s | _ => none), w))
  | .qemuDelete _ node v _, a, w =>
    some (onGuest w node v a fun _ => (.ok (), { w with guests := w.guests.erase v }))
  | .qemuRestore px node p, a, w =>
    some (match a with
      | .fault t => (.error (.api t), w)
      | .typeError t => (.error (.typeError t), w)
      | .lost t => (.error (.api t), (restoreInto w px node p).2)
      | .malformed =>
        ((restoreInto w px node p).1.map fun _ => none, (restoreInto w px node p).2)
      | _ => restoreInto w px node p)
  | .taskStatus _ _ _, a, w =>
    some (match a with
      | .fault t => .error (.api t)
      | .malformed => .ok none
      | .number _ => .ok (some { status := "running" })
      | .content t => .ok (some { status := "stopped", exitstatus := t })
      | _ => .ok (some { status := "stopped", exitstatus := "OK" }), w)
  | .taskLog _ _ _, a, w =>
    some (match a with
      | .fault t => .error (.api t)
      | .content t => .ok [t]
      | _ => .ok [], w)
  | .taskStop _ _ _, _, w => some ((), w)
  | .agentPing _ _ _, a, w => some (a == .ok, w)
  | .agentHostname _ _ _, a, w =>
    some (match a with | .content t => some t | _ => none, w)
  | .probe p, a, w => some (w.answers p a, w)
  | .wireSample _, a, w => some (a == .ok, w)
  | .httpGet _, a, w =>
    some (match a with
      | .fault t => .error (.api t)
      | .number n => .ok n
      | _ => .ok 200, w)
  | .notify _, _, w => some ((), w)
  | .outside act, _, w => some ((), w.outside act)
  | .park, _, _ => none

/-! ### The commands as programs -/

namespace Prog

/-- Issue a command. -/
abbrev issue (o : Op) : Prog (Op.Res o) := @Program.perform commands Exn o

abbrev hgetall (id : Uuid) : Prog (Option Job) := issue (.hgetall id)

abbrev hset (id : Uuid) (mapping : Instant → Job → Job) : Prog Unit := issue (.hset id mapping)

abbrev hsetLrem (id : Uuid) (mapping : Instant → Job → Job) : Prog Unit :=
  issue (.hsetLrem id mapping)

abbrev setRun (run : PlanRun) : Prog Unit := issue (.setRun run)

abbrev getRun (id : Uuid) : Prog (Option PlanRun) := issue (.getRun id)

abbrev setPlan (plan : Plan) : Prog Unit := issue (.setPlan plan)

abbrev getPlan (id : Uuid) : Prog (Option Plan) := issue (.getPlan id)

abbrev getLocation (id : Uuid) : Prog (Option Location) := issue (.getLocation id)

abbrev uuid4 : Prog Uuid := issue .uuid4

abbrev utcNow : Prog Instant := issue .utcNow

/-- Open an API client. -/
abbrev connect (px : Client) : Prog Unit := issue (.connect px) >>= Program.ofExcept

/-- Wait without end. -/
def park {α : Type} : Prog α := issue .park >>= nofun

end Prog

end RestoreEngine
