import RestoreEngine.Assurance.Verdict
import RestoreEngine.Enqueue.Vacant
import RestoreEngine.Gates.Starting
import RestoreEngine.Jobs.Isolation

/-!
# No guest boots unisolated

A request for restores passes a gate before anything is enqueued: what will boot must be isolated,
by its network mode or its location, or the operator must have allowed otherwise. The gate computes
from the request what will boot, `start_plan_run` and `enqueue_restores` compute it again. The
two agree except in a drill that is asked not to be powered off at a location with live restores;
and a scheduled start has no gate (`bootsIsolated_iff`).
-/

namespace RestoreEngine

open Effects Prog Program

variable {w w' : World} {plan : Plan} {location : Location} {opts : StartOptions} {cfg : Config}
  {rd : Readers} {iso allow : Bool}

/-! ### What is to hold -/

/-- The guest of the job is powered on, live-restored, or waited for. -/
def Job.Boots (j : Job) : Prop := j.powerOn = true ∨ j.liveRestore = true ∨ 0 < j.qgaWaitSec

/-- If the guest boots, its network is isolated, or its location, or it is allowed to. -/
def Job.Contained (iso allow : Bool) (j : Job) : Prop :=
  j.Boots → j.Isolates ∨ iso = true ∨ allow = true

/-- The same for the jobs of a request. -/
def EnqueueRequest.Contained (iso allow : Bool) (req : EnqueueRequest) : Prop :=
  req.doPowerOn = true → req.netMode ∈ ["unlink", "remap"] ∨ iso = true ∨ allow = true

/-- The same for the jobs that ticks enqueue for a run. -/
def PlanRun.Contained (iso allow : Bool) (run : PlanRun) : Prop :=
  ∀ idx rows, (run.request idx rows).Contained iso allow

/-- The request that a start makes for its first group, as far as its checks read it. -/
def Location.request (location : Location) : EnqueueRequest :=
  { rows := []
    node := location.node
    nodes := location.nodeList
    targetStorage := location.storage
    storageByNode := location.storageByNode
    vmidStart := location.vmidStart
    liveRestore := location.liveRestore
    bwlimit := location.bwlimit
    restoreMode := if location.restoreMode = "" then "normal" else location.restoreMode }

/-- `enqueue_restores` accepts the mode, the nodes and the storages of the location. -/
def Location.Accepted (location : Location) : Prop := location.request.check = .ok ()

/-- The ways in which restores are started, each with its request, and with the plan and the
location that it finds. -/
inductive RestoreEntry
  | restoreSelected (body : RestoreSelectedRequest)
  | restoreTagGroup (body : RestoreTagGroupRequest)
  | apiRunPlan (plan : Plan) (location : Location) (body : PlanRunRequest)
  | apiAssurePlan (plan : Plan) (location : Location) (body : PlanAssureRequest)
  | startScheduled (plan : Plan) (location : Location)

namespace RestoreEntry

/-- The program that serves the request. -/
def program (cfg : Config) (rd : Readers) : RestoreEntry → Prog Unit
  | restoreSelected body => discard (RestoreEngine.restoreSelected cfg rd body)
  | restoreTagGroup body => discard (RestoreEngine.restoreTagGroup cfg rd body)
  | apiRunPlan plan _ body => discard (RestoreEngine.apiRunPlan cfg rd plan.id body)
  | apiAssurePlan plan _ body => discard (RestoreEngine.apiAssurePlan cfg rd plan.id body)
  | startScheduled plan location => discard (RestoreEngine.startScheduled rd plan location)

/-- The plan and the location are stored. -/
def Stored (w : World) : RestoreEntry → Prop
  | apiRunPlan plan location body => w.plan plan.id = some plan ∧
      w.location (body.locationId.getD plan.locationId) = some location
  | apiAssurePlan plan location _ => w.plan plan.id = some plan ∧
      w.location plan.locationId = some location
  | _ => True

/-- The location is marked isolated. -/
def locationIsolated : RestoreEntry → Bool
  | apiRunPlan _ location _ | apiAssurePlan _ location _ | startScheduled _ location =>
    location.isolated
  | _ => false

/-- The location, if there is one, is accepted. -/
def Accepted : RestoreEntry → Prop
  | apiRunPlan _ location _ | apiAssurePlan _ location _ | startScheduled _ location =>
    location.Accepted
  | _ => True

/-- The request passes `allow_non_isolated`. -/
def allowNonIsolated : RestoreEntry → Bool
  | restoreSelected body => body.allowNonIsolated
  | restoreTagGroup body => body.allowNonIsolated
  | apiRunPlan _ _ body => body.allowNonIsolated
  | apiAssurePlan _ _ body => body.allowNonIsolated
  | startScheduled _ _ => false

end RestoreEntry

/-- **No guest boots unisolated**: whatever the readers find, all jobs that an undisturbed run of
the entry enqueues are contained, and so are all jobs that ticks may enqueue for the runs that it
stores, if the location is accepted. -/
def BootsIsolated (cfg : Config) (e : RestoreEntry) : Prop :=
  ∀ rd : Readers, rd.ReadOnly → ∀ w, e.Stored w → ∀ out w',
    Ends environment (e.program cfg rd) w out w' →
      w.Adds (Job.Contained e.locationIsolated e.allowNonIsolated)
        (fun run => e.Accepted → run.Contained e.locationIsolated e.allowNonIsolated) w'

/-! ### What boots -/

private theorem normalizeNetworkMode_mem (raw : String) :
    normalizeNetworkMode raw ∈ ["none", "unlink", "remap"] := by
  rw [normalizeNetworkMode]
  generalize Text.lower (Text.strip (if raw = "" then "none" else raw)) = mode
  by_cases h : mode ∈ ["none", "unlink", "remap"]
  · rwa [if_pos h]
  · rw [if_neg h]
    exact List.mem_cons_self

/-- Normalizing twice is normalizing once. -/
private theorem normalizeNetworkMode_of_mem {mode : String}
    (h : mode ∈ ["none", "unlink", "remap"]) : normalizeNetworkMode mode = mode := by
  simp only [List.mem_cons, List.not_mem_nil, or_false] at h
  rcases h with rfl | rfl | rfl <;> decide

private theorem lower_strip_of_mem {mode : String} (h : mode ∈ ["none", "unlink", "remap"]) :
    Text.lower (Text.strip mode) = mode := by
  simp only [List.mem_cons, List.not_mem_nil, or_false] at h
  rcases h with rfl | rfl | rfl <;> decide

/-- **The jobs of a contained request are contained.** -/
theorem EnqueueRequest.Contained.newJob {req : EnqueueRequest} (h : req.Contained iso allow)
    (row : Row) (sourceVmid vmid : ℤ) (node storage archive : String) (now : Instant)
    (hash : Job) :
    (req.newJob row sourceVmid vmid node storage archive now hash).Contained iso allow := by
  simp only [Job.Contained, Job.Boots, Job.Isolates, Job.netMode, EnqueueRequest.newJob]
  intro hboots
  have hon : req.doPowerOn = true := by
    rcases hboots with hon | hlive | hqga
    · exact hon
    · simp [doPowerOn, hlive]
    · simp [doPowerOn, hqga]
  refine (h hon).imp_left fun hnet => ?_
  rwa [lower_strip_of_mem (List.mem_cons_of_mem _ hnet)]

/-- `start_plan_run` derives that guests boot. -/
def StartOptions.Boots (opts : StartOptions) (location : Location) : Prop :=
  opts.doPowerOn location = true ∨ opts.live location = true

/-- The network of the location is isolated. -/
def Location.Isolates (location : Location) : Prop :=
  normalizeNetworkMode location.networkMode ∈ ["unlink", "remap"]

instance (location : Location) : Decidable location.Isolates :=
  inferInstanceAs (Decidable (_ ∈ _))

/-- What a request for a run boots is what was derived at its start. -/
private theorem doPowerOn_follows {run : PlanRun} {req : EnqueueRequest}
    (hrun : run.Follows plan location opts) (hpower : req.powerOn = run.powerOn)
    (hlive : req.liveRestore = run.liveRestore) (hqga : req.qgaWaitSec = run.qgaWaitSec) :
    req.doPowerOn = true ↔ opts.Boots location := by
  simp only [EnqueueRequest.doPowerOn, EnqueueRequest.qgaSec, hpower, hlive, hqga, hrun.powerOn,
    hrun.liveRestore, hrun.qgaWaitSec, Bool.or_eq_true, decide_eq_true_eq, StartOptions.Boots]
  have hwait : 0 < max 0 (opts.qgaSec location) → opts.doPowerOn location = true := by
    intro h
    have hpos : 0 < opts.qgaSec location := by omega
    simp [StartOptions.doPowerOn, hpos]
  tauto

private theorem startRequest_contained {run : PlanRun} {idx : ℕ} {rows : List Row}
    (hrun : run.Follows plan location opts)
    (h : opts.Boots location → location.Isolates ∨ iso = true ∨ allow = true) :
    (startRequest run location idx rows).Contained iso allow := by
  intro hon
  refine (h ((doPowerOn_follows hrun rfl rfl rfl).mp hon)).imp_left fun hnet => ?_
  change normalizeNetworkMode run.networkMode ∈ ["unlink", "remap"]
  rw [hrun.networkMode, normalizeNetworkMode_of_mem (normalizeNetworkMode_mem _)]
  exact hnet

private theorem run_contained {run : PlanRun} (hrun : run.Follows plan location opts)
    (h : opts.Boots location → location.Isolates ∨ iso = true ∨ allow = true) :
    run.Contained iso allow := by
  intro idx rows hon
  refine (h ((doPowerOn_follows hrun rfl rfl rfl).mp hon)).imp_left fun hnet => ?_
  have hne : run.networkMode ≠ "" := by
    rw [hrun.networkMode]
    intro hempty
    have hmem := normalizeNetworkMode_mem location.networkMode
    rw [hempty] at hmem
    exact absurd hmem (by decide)
  change normalizeNetworkMode (if run.networkMode = "" then "none" else run.networkMode) ∈
    ["unlink", "remap"]
  rw [if_neg hne, hrun.networkMode, normalizeNetworkMode_of_mem (normalizeNetworkMode_mem _)]
  exact hnet

/-! ### The gates -/

/-- The isolation gate lets pass what boots nothing, or is isolated, or allowed. -/
private theorem assertPowerOnIsolation_ok {powerOn liveRestore : Bool} {qgaWaitSec : ℤ}
    {networkMode : String}
    (h : assertPowerOnIsolation powerOn qgaWaitSec liveRestore networkMode iso allow = .ok ()) :
    powerOn = true ∨ 0 < qgaWaitSec ∨ liveRestore = true →
      normalizeNetworkMode networkMode ∈ ["unlink", "remap"] ∨ iso = true ∨ allow = true := by
  intro hboots
  rw [assertPowerOnIsolation] at h
  by_contra hnot
  simp only [not_or, Bool.not_eq_true] at hnot
  obtain ⟨hnet, rfl, rfl⟩ := hnot
  have hnet : normalizeNetMode networkMode ∉ ["unlink", "remap"] := hnet
  have hwants : (powerOn || decide (0 < qgaWaitSec) || liveRestore) = true := by
    rcases hboots with rfl | hqga | rfl
    · rfl
    · simp [hqga]
    · simp
  rw [hwants, decide_eq_false hnet] at h
  cases h

private theorem gates_contained {body : RestoreRequest} (h : body.gates = .ok ()) (rows : List Row)
    (nodes : List String) (storage : String × List (String × String)) :
    (body.enqueueRequest rows nodes storage).Contained false body.allowNonIsolated := by
  rw [RestoreRequest.gates] at h
  cases hover : assertOverwriteConfirm body.overwrite body.confirmOverwrite body.restoreMode with
  | error e => rw [hover] at h; cases h
  | ok _ =>
    rw [hover] at h
    intro hon
    refine assertPowerOnIsolation_ok h ?_
    simp only [EnqueueRequest.doPowerOn, RestoreRequest.enqueueRequest, EnqueueRequest.qgaSec,
      Bool.or_eq_true] at hon
    rcases hon with (hon | hlive) | hqga
    · exact .inl hon
    · exact .inr (.inr hlive)
    · have hpos := of_decide_eq_true hqga
      exact .inr (.inl (by omega))

/-- A drill that is not to be powered off, at a location with live restores, and nothing else that
asks for power. -/
def PlanRunRequest.LiveDrill (body : PlanRunRequest) (location : Location) : Prop :=
  body.drill = true ∧ body.poweredOff = some false ∧ location.liveRestore = true ∧
    body.powerOn = false ∧ body.qgaWaitSec = 0

/-- The options of `api_run_plan`. -/
def PlanRunRequest.options (body : PlanRunRequest) : StartOptions :=
  { cutoff := normalizeCutoff body.atOrBefore
    drill := body.drill
    autoTeardown := body.autoTeardown
    poweredOff := body.poweredOff
    powerOn := body.powerOn
    qgaWaitSec := body.qgaWaitSec
    overwrite := body.overwrite }

/-- Without power, only a live restore that is not powered off boots. -/
private theorem boots_of_no_power (hpower : opts.doPowerOn location = false)
    (hboots : opts.Boots location) :
    location.liveRestore = true ∧ opts.poweredOff.getD opts.drill = false := by
  rcases hboots with hon | hlive
  · exact absurd (hpower.symm.trans hon) Bool.false_ne_true
  · simp only [StartOptions.live, StartOptions.off, hpower, Bool.not_false, Bool.true_and,
      Bool.and_eq_true, Bool.not_eq_true'] at hlive
    exact hlive

/-- **The gate of `api_run_plan`** sees all that boots, except in a live drill. -/
private theorem runIsolationGate_ok {body : PlanRunRequest}
    (h : runIsolationGate location body = .ok ()) (hnot : ¬ body.LiveDrill location)
    (hboots : body.options.Boots location) :
    location.Isolates ∨ location.isolated = true ∨ body.allowNonIsolated = true := by
  rw [runIsolationGate] at h
  split_ifs at h with hgate
  · refine assertPowerOnIsolation_ok h ?_
    simp only [Bool.or_eq_true] at hgate
    rcases hgate with (hpower | hlive) | hqga
    · exact .inl (by simpa using hpower)
    · exact .inr (.inr hlive)
    · have hpos := of_decide_eq_true hqga
      refine .inr (.inl ?_)
      rw [orElse, if_pos (by omega)]
      omega
  · -- the gate is not applied: nothing asks for power, so that a live restore is left
    simp only [Bool.or_eq_true, not_or, Bool.not_eq_true, Bool.and_eq_false_iff,
      Bool.not_eq_false', decide_eq_false_iff_not, not_not] at hgate
    obtain ⟨⟨⟨hpower, hlocation⟩, hlive⟩, hqga⟩ := hgate
    have hzero : body.qgaWaitSec = 0 := by omega
    have hoff : body.options.doPowerOn location = false := by
      rcases hlocation with hdrill | hnone <;>
        simp [PlanRunRequest.options, StartOptions.doPowerOn, StartOptions.qgaSec, *]
    obtain ⟨hrestore, hup⟩ := boots_of_no_power hoff hboots
    have hup : body.poweredOff.getD body.drill = false := hup
    refine absurd ?_ hnot
    rcases hlive with (hnone | hdrill) | hdown
    · exact absurd (hnone.symm.trans hrestore) Bool.false_ne_true
    · refine ⟨hdrill, ?_, hrestore, hpower, hzero⟩
      cases hgiven : body.poweredOff with
      | none =>
        rw [hgiven, hdrill] at hup
        cases hup
      | some b =>
        rw [hgiven, Option.getD_some] at hup
        rw [hup]
    · rw [hdown] at hup
      cases hup

/-- The gate of `api_assure_plan` sees all that boots. -/
private theorem assureGates_ok {body : PlanAssureRequest}
    (h : assureGates cfg plan location body = .ok ())
    (hboots : (assureOptions cfg plan location body).Boots location) :
    location.Isolates ∨ location.isolated = true ∨ body.allowNonIsolated = true := by
  rw [assureGates] at h
  cases hmodes : modeGates location body.confirmDr
      "DR location requires confirm_dr=true for assurance runs" body.overwrite
      body.confirmOverwrite with
  | error e => rw [hmodes] at h; cases h
  | ok _ =>
    rw [hmodes] at h
    replace h : (if plan.assuranceRequireHttp ∧ Text.strip location.httpCheckUrl = "" then
        .error (badRequest "assurance_require_http is set but location has no http_check_url")
      else if plan.assuranceRequireQga || plan.assuranceRequireHttp then
        assertPowerOnIsolation true (assureQgaSec cfg plan location) false location.networkMode
          location.isolated body.allowNonIsolated
      else .ok ()) = Except.ok () := h
    split_ifs at h with _ hpower
    · exact assertPowerOnIsolation_ok h (.inl rfl)
    · -- no check asks for power, and the drill is powered off
      rw [Bool.not_eq_true] at hpower
      have hoff : (assureOptions cfg plan location body).doPowerOn location = false := by
        simp [assureOptions, StartOptions.doPowerOn, StartOptions.qgaSec, assureQgaSec, hpower]
      have hdown := (boots_of_no_power hoff hboots).2
      simp [assureOptions, hpower] at hdown

/-- What a scheduled start boots. -/
private theorem scheduleOptions_boots {cutoff : String} :
    (plan.scheduleOptions cutoff).Boots location ↔
      plan.scheduleDrill = false ∧ (location.powerOn = true ∨ location.liveRestore = true) := by
  cases hdrill : plan.scheduleDrill <;> cases hpower : location.powerOn <;>
    simp [StartOptions.Boots, Plan.scheduleOptions, StartOptions.doPowerOn, StartOptions.live,
      StartOptions.off, StartOptions.qgaSec, hdrill, hpower]

/-! ### Gated entries -/

/-- A start that only boots what is contained writes only what is contained. -/
private theorem startResolved_contained (hrd : rd.ReadOnly)
    (h : opts.Boots location → location.Isolates ∨ iso = true ∨ allow = true) :
    Satisfies environment.machine
      (fun _ w' => w.Adds (Job.Contained iso allow)
        (fun run => location.Accepted → run.Contained iso allow) w') w
      (startResolved rd plan location opts) :=
  adds_of_only (startResolved_within hrd
    (fun _ _ _ hrun => apiEnqueueRestores_within (startRequest_contained hrun h).newJob)
    fun _ hrun _ => run_contained hrun h)

private theorem apiAssurePlan_contained (hrd : rd.ReadOnly) {body : PlanAssureRequest}
    (hplan : w.plan plan.id = some plan)
    (hlocation : w.location plan.locationId = some location) :
    Satisfies environment.machine
      (fun _ w' => w.Adds (Job.Contained location.isolated body.allowNonIsolated)
        (fun run => location.Accepted →
          run.Contained location.isolated body.allowNonIsolated) w') w
      (apiAssurePlan cfg rd plan.id body) := by
  refine enabledPlan_then hplan fun _ =>
    Satisfies.ite (fun _ => ?_) fun _ => gate_then fun _ _ => ?_
  · exact satisfies_raise.mpr (.refl w)
  · rw [satisfies_bind, satisfies_getLocation, hlocation, then_ok]
    refine gate_then fun _ hgate => ?_
    exact startResolved_contained hrd (assureGates_ok hgate)

private theorem restoreSelected_contained {R : PlanRun → Prop} (hrd : rd.ReadOnly)
    {body : RestoreSelectedRequest} :
    (restoreSelected cfg rd body).Only
      (Op.Within (Job.Contained false body.allowNonIsolated) R) := by
  refine only_gate fun nodes _ => only_gate fun storage _ => ?_
  refine Only.bind (reads_within hrd.backups) fun backups => ?_
  refine only_gate fun ordered _ => only_gate fun _ _ => only_gate fun _ hgates => ?_
  exact apiEnqueueRestores_within (gates_contained hgates ordered nodes storage).newJob

private theorem restoreTagGroup_contained {R : PlanRun → Prop} (hrd : rd.ReadOnly)
    {body : RestoreTagGroupRequest} :
    (restoreTagGroup cfg rd body).Only
      (Op.Within (Job.Contained false body.allowNonIsolated) R) := by
  refine only_gate fun nodes _ => only_gate fun storage _ => ?_
  refine Only.bind (reads_within hrd.backups) fun backups => ?_
  refine Only.ite (fun _ => only_ret) fun _ => ?_
  refine Only.bind (reads_within (hrd.tags _ _)) fun tags => ?_
  refine Only.ite (fun _ => only_ret) fun _ => only_gate fun _ hgates => ?_
  exact Only.bind (apiEnqueueRestores_within (gates_contained hgates _ nodes storage).newJob)
    fun _ => only_ret

private theorem startScheduled_contained (hrd : rd.ReadOnly)
    (h : plan.scheduleDrill = false → location.powerOn = true ∨ location.liveRestore = true →
      location.Isolates ∨ location.isolated = true) :
    (startScheduled rd plan location).Only (Op.Within (Job.Contained location.isolated false)
      (PlanRun.Contained location.isolated false)) := by
  have hboots : ∀ cutoff, (plan.scheduleOptions cutoff).Boots location →
      location.Isolates ∨ location.isolated = true ∨ false = true := fun cutoff hb => by
    obtain ⟨hdrill, hup⟩ := scheduleOptions_boots.mp hb
    exact (h hdrill hup).imp_right .inl
  refine startScheduled_within hrd (fun cutoff _ _ _ hrun => ?_) fun cutoff _ hrun => ?_
  · exact enqueueRestores_within (startRequest_contained hrun (hboots cutoff)).newJob
  · exact run_contained hrun (hboots cutoff)

/-! ### Entries without a gate -/

private theorem Location.Accepted.not_refused (h : location.Accepted) {run : PlanRun} {idx : ℕ}
    {rows : List Row} : ¬ (startRequest run location idx rows).Refused := by
  rcases location.request.check_spec with ⟨-, hallowed⟩ | ⟨text, herr, -⟩
  · exact hallowed
  · rw [Location.Accepted, herr] at h
    cases h

private theorem sampleRow_restorable : sampleRow.Restorable := ⟨⟨100, rfl⟩, ⟨_, rfl⟩⟩

private theorem startRequest_restorable (h : location.Accepted) {run : PlanRun} {idx : ℕ} :
    (startRequest run location idx [sampleRow]).Restorable where
  allowed := h.not_refused
  rows _ hrow := List.mem_singleton.mp hrow ▸ sampleRow_restorable
  distinct _ := List.nodup_singleton _

/-- A start that boots guests in a network that is not isolated creates jobs that do. -/
private theorem newJob_uncontained {run : PlanRun} {idx : ℕ} {rows : List Row}
    (hrun : run.Follows plan location opts) (hboots : opts.Boots location)
    (hnot : ¬ location.Isolates) {id : Uuid}
    (h : w.Created (startRequest run location idx rows) id) :
    ∃ j, w.job id = some j ∧ ¬ j.Contained false false := by
  obtain ⟨row, sourceVmid, vmid, node, storage, archive, now, hash, hjob⟩ := h
  refine ⟨_, hjob, fun hcontained => ?_⟩
  simp only [Job.Contained, Job.Boots, Job.Isolates, Job.netMode, EnqueueRequest.newJob,
    Bool.false_eq_true, or_false] at hcontained
  have hnet := hcontained (.inl ((doPowerOn_follows hrun rfl rfl rfl).mpr hboots))
  have hmode : (startRequest run location idx rows).netMode =
      normalizeNetworkMode location.networkMode := by
    change normalizeNetworkMode run.networkMode = _
    rw [hrun.networkMode, normalizeNetworkMode_of_mem (normalizeNetworkMode_mem _)]
  rw [hmode, lower_strip_of_mem (normalizeNetworkMode_mem _)] at hnet
  exact hnot hnet

/-- A job that is not contained. -/
private def World.Uncontained (w : World) : Prop :=
  ∃ id j, w.job id = some j ∧ ¬ j.Contained false false

private theorem World.Created.uncontained {run : PlanRun} {idx : ℕ} {rows : List Row}
    (hrun : run.Follows plan location opts) (hboots : opts.Boots location)
    (hnot : ¬ location.Isolates) {ids : List Uuid} (hids : ids ≠ [])
    (h : ∀ id ∈ ids, w.Created (startRequest run location idx rows) id) : w.Uncontained := by
  obtain ⟨id, hid⟩ := List.exists_mem_of_ne_nil ids hids
  exact ⟨id, newJob_uncontained hrun hboots hnot (h id hid)⟩

/-- On an empty cluster, such a start succeeds in enqueueing its first group. -/
private theorem enqueueRestores_uncontained (hw : w.Vacant) (haccepted : location.Accepted)
    (hboots : opts.Boots location) (hnot : ¬ location.Isolates) {run : PlanRun}
    (hrun : run.Follows plan location opts) :
    Satisfies environment.machine (fun out w' => (∃ result, out = .ok result) ∧ w'.Uncontained) w
      (enqueueRestores (startRequest run location 0 [sampleRow])) := by
  refine (enqueueRestores_vacant hw (startRequest_restorable haccepted)).mono ?_
  rintro _ w' ⟨result, rfl, hlen, hcreates⟩
  refine ⟨⟨result, rfl⟩, World.Created.uncontained hrun hboots hnot ?_ hcreates.created⟩
  rintro hnil
  rw [hnil] at hlen
  cases hlen

private theorem apiEnqueueRestores_uncontained (hw : w.Vacant) (haccepted : location.Accepted)
    (hboots : opts.Boots location) (hnot : ¬ location.Isolates) {run : PlanRun}
    (hrun : run.Follows plan location opts) :
    Satisfies environment.machine (fun out w' => (∃ result, out = .ok result) ∧ w'.Uncontained) w
      (apiEnqueueRestores (startRequest run location 0 [sampleRow])) := by
  rw [apiEnqueueRestores, satisfies_bind, satisfies_attempt]
  refine (enqueueRestores_uncontained hw haccepted hboots hnot hrun).mono ?_
  rintro _ w' ⟨⟨result, rfl⟩, hleft⟩
  rw [then_ok]
  exact satisfies_ret.mpr ⟨⟨result, rfl⟩, hleft⟩

/-- Such a start leaves an uncontained job. -/
private theorem startPlanRun_uncontained {enqueueFn : EnqueueFn} (hw : w.Vacant)
    (hgroups : plan.groupIds ≠ [])
    (hfn : ∀ (run : PlanRun) (w₁ : World), run.Follows plan location opts → w₁.Vacant →
      Satisfies environment.machine (fun out w' => (∃ result, out = .ok result) ∧ w'.Uncontained)
        w₁ (enqueueFn (startRequest run location 0 [sampleRow]))) :
    Satisfies environment.machine (fun _ w' => w'.Uncontained) w
      (startPlanRun enqueueFn plan location (plan.groupIds.map fun _ => [sampleRow]) opts) := by
  have hrows : (plan.groupIds.map fun _ => [sampleRow]).getD 0 [] = [sampleRow] := by
    cases hids : plan.groupIds with
    | nil => exact absurd hids hgroups
    | cons id rest => rfl
  rw [startPlanRun, satisfies_bind, satisfies_ofExcept, firstGroup_samples hgroups, then_ok,
    satisfies_bind, satisfies_uuid4, then_ok, satisfies_bind, satisfies_utcNow]
  intro n
  rw [then_ok, satisfies_bind, satisfies_savePlanRun, then_ok, satisfies_bind, enqueueFirst,
    hrows]
  have hvacant : (World.setRun { w with nextUuid := w.nextUuid + 1, clock := w.clock + n }
      (newRun w.nextUuid plan location opts (w.clock + n) 0)).Vacant := ⟨hw.up, hw.guests⟩
  refine (hfn _ _ newRun_follows hvacant).bind ?_ ?_
  · -- the jobs are written; what follows leaves them alone
    rintro result w₁ ⟨-, hleft⟩
    rw [satisfies_bind, satisfies_savePlanRun, then_ok, satisfies_bind, satisfies_ofExcept]
    cases stashRows (plan.groupIds.map fun _ => [sampleRow]) with
    | error e =>
      rw [then_error, then_error]
      exact hleft
    | ok stash =>
      rw [then_ok, satisfies_savePlanRun, then_ok, satisfies_bind, satisfies_setPlan, then_ok]
      exact satisfies_ret.mpr hleft
  · rintro e w₁ ⟨⟨result, hok⟩, -⟩
    cases hok

/-! ### The gaps -/

/-- The checks of `api_run_plan` before the isolation gate pass, and the plan has groups. -/
structure PlanRunRequest.Passes (cfg : Config) (plan : Plan) (location : Location)
    (body : PlanRunRequest) : Prop where
  enabled : plan.enabled = true
  verified : verifiedGate cfg plan body.allowUnverified = .ok ()
  mode : modeGates location body.confirmDr
    "DR location requires confirm_dr=true (keeps source VMIDs/MACs/UUIDs)" body.overwrite
    body.confirmOverwrite = .ok ()
  groups : plan.groupIds ≠ []

/-- Nothing about the location isolates its guests. -/
def Location.Open (location : Location) : Prop :=
  location.Accepted ∧ ¬ location.Isolates ∧ location.isolated = false

/-- **The gaps**: a live drill at an open location, and a scheduled run that is not a drill, at an
open location that powers guests on or restores them live. -/
def RestoreEntry.Gap (cfg : Config) : RestoreEntry → Prop
  | apiRunPlan plan location body =>
    body.Passes cfg plan location ∧ body.LiveDrill location ∧ location.Open ∧
      body.allowNonIsolated = false
  | startScheduled plan location =>
    plan.groupIds ≠ [] ∧ plan.scheduleDrill = false ∧
      (location.powerOn = true ∨ location.liveRestore = true) ∧ location.Open
  | _ => False

/-- A world without jobs, in which the program ends and leaves an uncontained job. -/
private def LeavesUncontained (w : World) (p : Prog Unit) : Prop :=
  w.jobs = ∅ ∧ p.Only (Op.Within (fun _ => True) fun _ => True) ∧
    Satisfies environment.machine (fun _ w' => w'.Uncontained) w p

private theorem not_bootsIsolated {e : RestoreEntry} (hiso : e.locationIsolated = false)
    (hallow : e.allowNonIsolated = false) (hstored : e.Stored w)
    (h : LeavesUncontained w (e.program cfg sampleReaders)) : ¬ BootsIsolated cfg e := by
  intro hall
  obtain ⟨hjobs, honly, hspec⟩ := h
  obtain ⟨out, w', hends⟩ := exists_run (honly.mono fun _ => Op.Within.ne_park) w
  obtain ⟨id, j, hj, hbad⟩ := satisfies_iff_ends.mp hspec out w' hends
  have hadds := hall sampleReaders sampleReaders_readOnly w hstored out w' hends
  rw [hiso, hallow] at hadds
  rcases hadds.jobs id j hj with hold | hgood
  · rw [World.job, hjobs] at hold
    cases hold
  · exact hbad hgood

private theorem discard_uncontained {α : Type} {p : Prog α} (hjobs : w.jobs = ∅)
    (honly : p.Only (Op.Within (fun _ => True) fun _ => True))
    (h : Satisfies environment.machine (fun _ w' => w'.Uncontained) w p) :
    LeavesUncontained w (discard p) := by
  refine ⟨hjobs, Only.bind honly fun _ => only_ret, ?_⟩
  exact h.bind (fun _ _ hleft => satisfies_ret.mpr hleft) fun _ _ hleft => hleft

private theorem startScheduled_gap (hgap : (RestoreEntry.startScheduled plan location).Gap cfg) :
    ¬ BootsIsolated cfg (.startScheduled plan location) := by
  obtain ⟨hgroups, hdrill, hup, haccepted, hnet, hiso⟩ := hgap
  refine not_bootsIsolated (w := {}) hiso rfl trivial (discard_uncontained rfl ?_ ?_)
  · exact startScheduled_within sampleReaders_readOnly
      (fun _ _ _ _ _ => enqueueRestores_within fun _ _ _ _ _ _ _ _ => trivial)
      fun _ _ _ => trivial
  · rw [startScheduled, satisfies_bind, satisfies_utcNow]
    intro n
    rw [then_ok, satisfies_bind]
    refine satisfies_ret.mpr (then_ok.mpr ?_)
    refine Satisfies.ite (fun h => absurd h (samples_ne hgroups)) fun _ => ?_
    exact startPlanRun_uncontained ⟨rfl, rfl⟩ hgroups fun run w₁ hrun hw₁ =>
      enqueueRestores_uncontained hw₁ haccepted (scheduleOptions_boots.mpr ⟨hdrill, hup⟩) hnet hrun

/-- The plan and the location, and nothing else. -/
private def storing (plan : Plan) (locationId : Uuid) (location : Location) : World :=
  { plans := (∅ : AList _).insert plan.id plan
    locations := (∅ : AList _).insert locationId location }

private theorem liveDrill_boots {body : PlanRunRequest} (h : body.LiveDrill location) :
    body.options.Boots location := by
  obtain ⟨hdrill, hoff, hlive, hpower, hqga⟩ := h
  refine .inr ?_
  simp [StartOptions.live, StartOptions.off, PlanRunRequest.options, hlive, hoff]

/-- The gate of `api_run_plan` takes a live drill for one that boots nothing. -/
private theorem runIsolationGate_liveDrill {body : PlanRunRequest} (h : body.LiveDrill location) :
    runIsolationGate location body = .ok () := by
  obtain ⟨hdrill, hoff, hlive, hpower, hqga⟩ := h
  simp [runIsolationGate, hdrill, hpower, hqga]

private theorem apiRunPlan_gap {body : PlanRunRequest}
    (hgap : (RestoreEntry.apiRunPlan plan location body).Gap cfg) :
    ¬ BootsIsolated cfg (.apiRunPlan plan location body) := by
  obtain ⟨hpasses, hlive, ⟨haccepted, hnet, hiso⟩, hallow⟩ := hgap
  have hplan : (storing plan (body.locationId.getD plan.locationId) location).plan plan.id =
      some plan := AList.lookup_insert _
  have hlocation : (storing plan (body.locationId.getD plan.locationId) location).location
      (body.locationId.getD plan.locationId) = some location := AList.lookup_insert _
  refine not_bootsIsolated hiso hallow ⟨hplan, hlocation⟩ (discard_uncontained rfl
    (apiRunPlan_only sampleReaders_readOnly) ?_)
  rw [apiRunPlan, satisfies_bind, enabledPlan, satisfies_bind, satisfies_getPlan, hplan, then_ok]
  simp only [hpasses.enabled, if_true]
  refine satisfies_ret.mpr (then_ok.mpr ?_)
  rw [hpasses.verified, satisfies_bind, satisfies_ofExcept, then_ok, satisfies_bind,
    satisfies_getLocation, hlocation, then_ok]
  simp only
  rw [hpasses.mode, satisfies_bind, satisfies_ofExcept, then_ok,
    runIsolationGate_liveDrill hlive, satisfies_bind, satisfies_ofExcept, then_ok, startResolved,
    satisfies_bind]
  refine satisfies_ret.mpr (then_ok.mpr ?_)
  refine Satisfies.ite (fun h => absurd h (samples_ne hpasses.groups)) fun _ => ?_
  rw [apiStartPlanRun, satisfies_bind, satisfies_attempt]
  have hstart : Satisfies environment.machine (fun _ w' => w'.Uncontained)
      (storing plan (body.locationId.getD plan.locationId) location)
      (startPlanRun apiEnqueueRestores plan location _ body.options) :=
    startPlanRun_uncontained ⟨rfl, rfl⟩ hpasses.groups fun run w₁ hrun hw₁ =>
      apiEnqueueRestores_uncontained hw₁ haccepted (liveDrill_boots hlive) hnet hrun
  refine hstart.mono ?_
  rintro out w' hleft
  rw [then_ok]
  split
  · rw [satisfies_aggregatePlanRun]
    exact hleft
  · exact satisfies_raise.mpr hleft
  · exact satisfies_raise.mpr hleft

/-! ### When guests boot isolated -/

/-- The jobs and runs within the bounds of the property. -/
private abbrev RestoreEntry.Within (e : RestoreEntry) : Op → Prop :=
  Op.Within (Job.Contained e.locationIsolated e.allowNonIsolated)
    fun run => e.Accepted → run.Contained e.locationIsolated e.allowNonIsolated

/-- A start at a location that is not accepted enqueues nothing. -/
private theorem enqueueRestores_refused {G : Job → Prop} {R : PlanRun → Prop} {run : PlanRun}
    {idx : ℕ} {rows : List Row} (h : ¬ location.Accepted) :
    (enqueueRestores (startRequest run location idx rows)).Only (Op.Within G R) :=
  only_gate fun _ hcheck => absurd hcheck h

private theorem apiEnqueueRestores_refused {G : Job → Prop} {R : PlanRun → Prop} {run : PlanRun}
    {idx : ℕ} {rows : List Row} (h : ¬ location.Accepted) :
    (apiEnqueueRestores (startRequest run location idx rows)).Only (Op.Within G R) := by
  refine Only.bind (enqueueRestores_refused h).attempt fun out => ?_
  split
  · exact only_ret
  · exact only_raise
  · exact only_raise

private theorem startScheduled_bounds (hrd : rd.ReadOnly)
    (h : ¬ (RestoreEntry.startScheduled plan location).Gap cfg) :
    (startScheduled rd plan location).Only
      (RestoreEntry.startScheduled plan location).Within := by
  by_cases hgroups : plan.groupIds = []
  · exact startScheduled_groupless hrd hgroups
  by_cases haccepted : location.Accepted
  · refine (startScheduled_contained hrd fun hdrill hup => ?_).mono fun _ ho =>
      ho.mono (fun _ hj => hj) fun _ hrun _ => hrun
    by_contra hopen
    obtain ⟨hnet, hiso⟩ := not_or.mp hopen
    exact h ⟨hgroups, hdrill, hup, haccepted, hnet, by simpa using hiso⟩
  · exact startScheduled_within hrd (fun _ _ _ _ _ => enqueueRestores_refused haccepted)
      fun _ _ _ hyes => absurd hyes haccepted

private theorem apiRunPlan_bounds (hrd : rd.ReadOnly) {body : PlanRunRequest}
    (hplan : w.plan plan.id = some plan)
    (hlocation : w.location (body.locationId.getD plan.locationId) = some location)
    (h : ¬ (RestoreEntry.apiRunPlan plan location body).Gap cfg) :
    Satisfies environment.machine
      (fun _ w' => w.Adds (Job.Contained location.isolated body.allowNonIsolated)
        (fun run => location.Accepted →
          run.Contained location.isolated body.allowNonIsolated) w') w
      (apiRunPlan cfg rd plan.id body) := by
  refine enabledPlan_then hplan fun henabled => gate_then fun _ hverified => ?_
  rw [satisfies_bind, satisfies_getLocation, hlocation, then_ok]
  refine gate_then fun _ hmode => gate_then fun _ hgate => ?_
  by_cases hgroups : plan.groupIds = []
  · exact adds_of_only (startResolved_groupless hrd hgroups)
  by_cases haccepted : location.Accepted
  · refine startResolved_contained hrd fun hboots => ?_
    by_contra hopen
    have hlive : body.LiveDrill location := by
      by_contra hnot
      exact hopen (runIsolationGate_ok hgate hnot hboots)
    simp only [not_or, Bool.not_eq_true] at hopen
    exact h ⟨⟨henabled, hverified, hmode, hgroups⟩, hlive, ⟨haccepted, hopen.1, hopen.2.1⟩,
      hopen.2.2⟩
  · exact adds_of_only (startResolved_within hrd
      (fun _ _ _ _ => apiEnqueueRestores_refused haccepted) fun _ _ hyes => absurd hyes haccepted)

private theorem bootsIsolated_of_not_gap {e : RestoreEntry} (h : ¬ e.Gap cfg) :
    BootsIsolated cfg e := by
  intro rd hrd w hstored
  refine satisfies_iff_ends.mp ?_
  cases e with
  | restoreSelected body =>
    exact discard_holds (adds_of_only (restoreSelected_contained hrd))
  | restoreTagGroup body =>
    exact discard_holds (adds_of_only (restoreTagGroup_contained hrd))
  | apiAssurePlan plan location body =>
    exact discard_holds (apiAssurePlan_contained hrd hstored.1 hstored.2)
  | apiRunPlan plan location body =>
    exact discard_holds (apiRunPlan_bounds hrd hstored.1 hstored.2 h)
  | startScheduled plan location =>
    exact discard_holds (adds_of_only (startScheduled_bounds hrd h))

/-- **When guests boot isolated**: on every entry, except in the gaps. -/
theorem bootsIsolated_iff (cfg : Config) (e : RestoreEntry) :
    BootsIsolated cfg e ↔ ¬ e.Gap cfg := by
  refine ⟨fun h hgap => ?_, bootsIsolated_of_not_gap⟩
  cases e with
  | apiRunPlan plan location body => exact apiRunPlan_gap hgap h
  | startScheduled plan location => exact startScheduled_gap hgap h
  | _ => exact hgap

/-! ### A location with live restores -/

/-- A location that restores live, in the production network. -/
def liveLocation : Location :=
  { id := 2, node := "pve", storage := "local", liveRestore := true }

/-- A plan with one group that is scheduled for real. -/
def livePlan : Plan := { id := 0, groupIds := [1], locationId := 2, scheduleDrill := false }

/-- A drill that is not to be powered off. -/
def liveDrill : PlanRunRequest := { drill := true, poweredOff := some false }

/-- Neither a live drill nor a scheduled run of the plan is isolated. -/
theorem live_restores_uncontained :
    ¬ BootsIsolated {} (.apiRunPlan livePlan liveLocation liveDrill) ∧
      ¬ BootsIsolated {} (.startScheduled livePlan liveLocation) := by
  have hopen : liveLocation.Open := ⟨rfl, by decide, rfl⟩
  refine ⟨apiRunPlan_gap ⟨⟨rfl, rfl, rfl, List.cons_ne_nil _ _⟩, ⟨rfl, rfl, rfl, rfl, rfl⟩, hopen,
    rfl⟩, startScheduled_gap ⟨List.cons_ne_nil _ _, rfl, .inr rfl, hopen⟩⟩

end RestoreEngine
