import RestoreEngine.Runs.Underway

/-!
# Later groups are restored like the first

The jobs of the first group are made from the location, those of the later groups from the record
of the run: from the rows that it has stashed, and from its own copy of some fifteen choices. The
two requests ask for the same (`EnqueueRequest.Alike`), so the jobs say the same of their restores
(`later_groups_alike`), whatever has become of the location in the meantime.
-/

namespace RestoreEngine

open Effects Prog Program

variable {cfg : Config} {A : Op → Answer → Bool} {w w' v v' : World} {run started : PlanRun}
  {idx : ℕ} {Between : World → World → Prop} {R : Uuid} {c d : Commission}
  {req req' : EnqueueRequest}

/-- What a job says of its restore: all that `enqueue_restores` enters, but for the run and the
group, the target VMID, and the times. -/
def Job.choices (job : Job) : Job where
  state := job.state
  backupId := job.backupId
  vmName := job.vmName
  sourceVmid := job.sourceVmid
  sourceLabel := job.sourceLabel
  proxmoxNode := job.proxmoxNode
  proxmoxStorage := job.proxmoxStorage
  liveRestore := job.liveRestore
  poweredOff := job.poweredOff
  powerOn := job.powerOn
  qgaWaitSec := job.qgaWaitSec
  qgaOk := job.qgaOk
  qgaWaitedSec := job.qgaWaitedSec
  networkMode := job.networkMode
  labBridge := job.labBridge
  overwrite := job.overwrite
  httpCheckUrl := job.httpCheckUrl
  httpCheckOk := job.httpCheckOk
  bwlimit := job.bwlimit
  restoreMode := job.restoreMode
  unique := job.unique
  force := job.force
  archive := job.archive
  backupSizeBytes := job.backupSizeBytes
  error := job.error

/-! ### Requests that ask for the same -/

/-- The first request asks for the stashed rows of the second, on the same terms. -/
structure EnqueueRequest.Alike (req req' : EnqueueRequest) : Prop where
  rows : req.rows = req'.rows.map Row.stashed
  candidates : req.candidates = req'.candidates
  targetStorage : req.targetStorage = req'.targetStorage
  storageByNode : req.storageByNode = req'.storageByNode
  mode : req.mode = req'.mode
  liveRestore : req.liveRestore = req'.liveRestore
  bwlimit : req.bwlimit = req'.bwlimit
  powerOn : req.powerOn = req'.powerOn
  qgaWaitSec : req.qgaWaitSec = req'.qgaWaitSec
  netMode : req.netMode = req'.netMode
  labBridge : req.labBridge = req'.labBridge
  overwrite : req.overwrite = req'.overwrite
  httpCheckUrl : req.httpCheckUrl = req'.httpCheckUrl

namespace EnqueueRequest.Alike

/-- The rows are placed the same way. -/
theorem place (h : req.Alike req') (counts : String → ℕ) : req.place counts = req'.place counts := by
  have hstorage : req.storageFor = req'.storageFor := by
    funext node
    rw [storageFor, storageFor, byNode, byNode, h.storageByNode, h.targetStorage]
  have hlength : req.rows.length = req'.rows.length := by rw [h.rows, List.length_map]
  rw [EnqueueRequest.place, EnqueueRequest.place, h.candidates, hlength, hstorage]

/-- The jobs of a row say the same. -/
theorem newJob (h : req.Alike req') (row : Row) (sourceVmid vmid vmid' : ℤ)
    (node storage archive : String) (now now' : Instant) (hash hash' : Job) :
    (req.newJob row.stashed sourceVmid vmid node storage archive now hash).choices =
      (req'.newJob row sourceVmid vmid' node storage archive now' hash').choices := by
  have hqga : req.qgaSec = req'.qgaSec := by rw [qgaSec, qgaSec, h.qgaWaitSec]
  have hpower : req.doPowerOn = req'.doPowerOn := by
    rw [doPowerOn, doPowerOn, h.powerOn, h.liveRestore, hqga]
  have hunique : req.uniqueFlag = req'.uniqueFlag := by rw [uniqueFlag, uniqueFlag, h.mode]
  have hforce : req.forceFlag = req'.forceFlag := by
    rw [forceFlag, forceFlag, h.mode, h.overwrite]
  rw [Job.choices, Job.choices, EnqueueRequest.newJob, EnqueueRequest.newJob, hqga, hpower,
    hunique, hforce, h.mode, h.netMode, h.labBridge, h.overwrite, h.httpCheckUrl, h.bwlimit,
    h.liveRestore]
  rfl

end EnqueueRequest.Alike

/-- The jobs of the entries of the two requests say the same. -/
private theorem jobs_alike (h : req.Alike req') {rows : List Row} {vmids vmids' : List ℤ}
    {places : List (String × String)} {ids ids' : List Uuid}
    (hlength : rows.length = vmids.length) (hlength' : rows.length = vmids'.length)
    (hjobs : w.HoldsJobs req ((rows.map Row.stashed).zip (vmids.zip places)) ids)
    (hjobs' : v.HoldsJobs req' (rows.zip (vmids'.zip places)) ids') :
    List.Forall₂ (fun id id' => ∃ job job', w.job id = some job ∧ v.job id' = some job' ∧
      job.choices = job'.choices) ids ids' := by
  induction rows generalizing vmids vmids' places ids ids' with
  | nil =>
    cases hjobs
    cases hjobs'
    exact .nil
  | cons row rest ih =>
    cases vmids with
    | nil => cases hlength
    | cons vmid vmids =>
      cases vmids' with
      | nil => cases hlength'
      | cons vmid' vmids' =>
        cases places with
        | nil =>
          cases hjobs
          cases hjobs'
          exact .nil
        | cons place places =>
          obtain ⟨node, storage⟩ := place
          cases hjobs with
          | cons hjob hjobs =>
            cases hjobs' with
            | cons hjob' hjobs' =>
              refine .cons ?_ (ih (Nat.succ.inj hlength) (Nat.succ.inj hlength') hjobs hjobs')
              obtain ⟨job, hstored, source, archive, now, hash, hsource, harchive, rfl⟩ := hjob
              obtain ⟨job', hstored', source', archive', now', hash', hsource', harchive', rfl⟩ :=
                hjob'
              obtain rfl := Option.some.inj (hsource.symm.trans hsource')
              obtain rfl := Except.ok.inj (harchive.symm.trans harchive')
              exact ⟨_, _, hstored, hstored', h.newJob ..⟩

/-! ### The request of a tick and the request of a start -/

/-- `x or y` for texts. -/
private theorem or_or (x y : String) (hy : y ≠ "") :
    (if (if x = "" then y else x) = "" then y else if x = "" then y else x) =
      if x = "" then y else x := by
  by_cases hx : x = ""
  · rw [if_pos hx, if_neg hy]
  · rw [if_neg hx, if_neg hx]

/-- A mode that a start accepts is stored as it is read. -/
private theorem mode_alike {location : Location} {k : ℕ} {rows : List Row}
    (hmode : run.restoreMode = location.mode)
    (hallowed : ¬ (startRequest started location k rows).Refused) :
    (run.request idx (rows.map Row.stashed)).mode = (startRequest started location k rows).mode := by
  have hread : (startRequest started location k rows).mode =
      Text.lower (Text.strip (if location.restoreMode = "" then "normal"
        else location.restoreMode)) := by
    rw [EnqueueRequest.mode, startRequest, or_or _ _ (by decide)]
  have hone : (startRequest started location k rows).mode ∈ ["normal", "dr"] := by
    by_contra hnot
    exact hallowed (.inl hnot)
  have hne : (startRequest started location k rows).mode ≠ "" := by
    intro hempty
    rw [hempty] at hone
    revert hone
    decide
  have hstored : run.restoreMode = (startRequest started location k rows).mode := by
    rw [hmode, Location.mode, ← hread]
    exact if_neg hne
  rw [EnqueueRequest.mode, PlanRun.request, or_or _ _ (by decide), hstored, if_neg hne]
  rcases List.mem_cons.mp hone with h | h
  · rw [h]
    decide
  · rw [List.mem_singleton.mp h]
    decide

/-- The nodes of a location. -/
private theorem candidates_alike {location : Location} {k : ℕ} {rows : List Row}
    (hnode : run.node = location.node) (hnodes : run.nodes = location.nodeList)
    (hallowed : ¬ (startRequest started location k rows).Refused) :
    (run.request idx (rows.map Row.stashed)).candidates =
      (startRequest started location k rows).candidates := by
  have hsome : location.nodeList ≠ [] := by
    rw [Location.nodeList]
    split_ifs with hnone
    · exact List.cons_ne_nil _ _
    · exact hnone
  have hlist : (run.request idx (rows.map Row.stashed)).nodes = location.nodeList := by
    change (if run.nodes = [] ∧ run.node ≠ "" then [run.node] else run.nodes) = _
    rw [hnodes, if_neg fun h => hsome h.1]
  have hcandidates : (startRequest started location k rows).candidates ≠ [] := by
    intro hnone
    exact hallowed (.inr (.inl hnone))
  have hlist' : (startRequest started location k rows).nodes = location.nodeList := rfl
  have hnode' : (startRequest started location k rows).node = location.node := rfl
  rw [EnqueueRequest.candidates, hlist', hnode'] at hcandidates
  rw [EnqueueRequest.candidates, EnqueueRequest.candidates, hlist, hlist', hnode']
  cases hblank : (location.nodeList.map Text.strip).filter (· ≠ "") with
  | cons node rest => rfl
  | nil =>
    rw [hblank] at hcandidates
    have hnamed : location.node ≠ "" := by
      intro hempty
      refine hcandidates ?_
      rw [hempty]
      decide
    have hsame : (run.request idx (rows.map Row.stashed)).node = location.node := by
      rw [PlanRun.request, hnode, if_pos hnamed]
    rw [hsame]

/-- **A tick asks for what a start asks for**, of the same rows and on the same terms. -/
theorem request_alike {k : ℕ} {rows : List Row} (hrun : run.terms = c.terms)
    (hstarted : started.terms = c.terms)
    (hallowed : ¬ (startRequest started c.location k rows).Refused) :
    (run.request idx (rows.map Row.stashed)).Alike (startRequest started c.location k rows) := by
  have hsame := hrun.trans hstarted.symm
  rw [PlanRun.terms, PlanRun.terms, Terms.mk.injEq] at hsame
  rw [PlanRun.terms, Commission.terms, Terms.mk.injEq] at hrun
  obtain ⟨hnode, hnodes, hstorage, hstorages, -, hbwlimit, -, -, -, -, -, -, -, hrestore⟩ := hrun
  obtain ⟨-, -, -, -, -, -, hlive, hpower, hqga, hnet, hbridge, hcheck, hoverwrite, -⟩ := hsame
  have hnetMode : (run.request idx (rows.map Row.stashed)).netMode =
      (startRequest started c.location k rows).netMode := by
    rw [EnqueueRequest.netMode, EnqueueRequest.netMode, PlanRun.request, startRequest, hnet,
      or_or _ _ (by decide)]
  have hcandidates : (run.request idx (rows.map Row.stashed)).candidates =
      (startRequest started c.location k rows).candidates :=
    candidates_alike hnode hnodes hallowed
  have hmode : (run.request idx (rows.map Row.stashed)).mode =
      (startRequest started c.location k rows).mode := mode_alike hrestore hallowed
  exact ⟨rfl, hcandidates, hstorage, hstorages, hmode, hlive, hbwlimit, hpower, hqga, hnetMode,
    hbridge, hoverwrite, hcheck⟩

/-! ### The jobs -/

/-- **Later groups are restored like the first.** The jobs that a tick creates for a group of a
run under way say the same of their restores as the jobs that a start on the same terms creates
for the rows of the group, while the nodes are under the same load. -/
theorem later_groups_alike {out : Except Exn Bool} {run' : PlanRun}
    (h : Underway cfg A Between c R w) (hrun : w.run R = some run)
    (hstatus : run.status = .RUNNING) (hnone : run.jobsAt idx = [])
    (htick : Ends (environment.restrict A) (advanceRun cfg enqueueRestores R) w out w')
    (hrun' : w'.run R = some run') (hjobs : run'.jobsAt idx ≠ [])
    (hlocation : d.location = c.location) (hopts : d.opts = c.opts)
    (hstart : Ends (environment.restrict A) d.program v (.ok started) v')
    (hrows : d.groupRows.getD started.currentGroupIndex [] = c.groupRows.getD idx [])
    (hload : v.load = w.load) :
    List.Forall₂ (fun id id' => ∃ job job', w'.job id = some job ∧ v'.job id' = some job' ∧
      job.choices = job'.choices) (run'.jobsAt idx) (started.jobsAt started.currentGroupIndex) := by
  have hstands := h.stands run hrun hstatus
  obtain ⟨result, w₁, hends, -, hids, hmade, -⟩ :=
    tick_enqueues hrun hstands.id hstatus hnone htick hrun' hjobs
  obtain ⟨new, k, result', v₁, v₂, hbegins⟩ := Commission.begins hstart
  obtain ⟨inUse, vmids, nodes, storages, hplaces, hholds, -⟩ := enqueueRestores_made hends
  obtain ⟨inUse', vmids', nodes', storages', hplaces', hholds', -⟩ :=
    enqueueRestores_made hbegins.enqueues
  have hterms : new.terms = c.terms := by
    rw [hbegins.terms, Commission.terms, Commission.terms, hlocation, hopts]
  rw [hbegins.current] at hrows ⊢
  rw [hlocation, hrows] at hplaces' hholds'
  rw [hstands.rowsAt] at hplaces hholds
  have halike : (run.request idx ((c.groupRows.getD idx []).map Row.stashed)).Alike
      (startRequest new c.location k (c.groupRows.getD idx [])) :=
    request_alike hstands.terms hterms hplaces'.allowed
  have hload' : v₁.load = w.load := (World.load_congr hbegins.jobs_before).trans hload
  have hplaced := hplaces.placed
  rw [halike.place, ← hload', hplaces'.placed] at hplaced
  obtain ⟨rfl, rfl⟩ := Prod.mk.inj (Except.ok.inj hplaced)
  have hlength : (c.groupRows.getD idx []).length = vmids.length := by
    rw [EnqueueRequest.allocate_length hplaces.allocated, PlanRun.request, List.length_map]
  have hlength' : (c.groupRows.getD idx []).length = vmids'.length := by
    rw [EnqueueRequest.allocate_length hplaces'.allocated, startRequest]
  rw [hids, hbegins.jobs, if_pos rfl]
  exact jobs_alike halike hlength hlength' (hholds.congr hmade)
    (hholds'.congr hbegins.jobs_after)

/-! ### A location that is deleted -/

/-- A backup of the VMID. -/
private def backupOf (vmid : ℤ) : Row :=
  { backupId := "b", vmid := some vmid, pveStorage := "pbs", voltail := "vm/100/t", sourceId := "s" }

/-- A plan of two groups with one guest each. -/
private def twoGroups : Commission where
  starter := .scheduler
  plan := { id := 7, groupIds := [8, 9], locationId := 5 }
  location := { id := 5, node := "pve", nodes := ["pve"], storage := "local" }
  groupRows := [[backupOf 100], [backupOf 101]]
  opts := {}

/-- A plan of the second group alone, at the same location. -/
private def secondGroup : Commission :=
  { twoGroups with
    plan := { id := 7, groupIds := [9], locationId := 5 }
    groupRows := [[backupOf 101]] }

/-- The first job ends, and the locations are deleted. -/
private def deleteLocations (w : World) : World :=
  { w.setJob 1 (fun _ job => { job with state := some .COMPLETED }) with locations := ∅ }

private abbrev everyChoice : Op → Answer → Bool := fun _ _ => true

private theorem toOption_eq_some {α : Type} {out : Except Exn α} {a : α}
    (h : out.toOption = some a) : out = .ok a := by
  cases out with
  | error e => cases h
  | ok b => exact congrArg Except.ok (Option.some.inj h)

/-- The second group is restored like the first, after the location has been deleted. -/
theorem later_groups_alike_deleted :
    ∃ (w w' v' : World) (run' started : PlanRun), w.location 5 = none ∧ run'.jobsAt 1 ≠ [] ∧
      Underway {} everyChoice (fun w w' => w' = deleteLocations w) twoGroups 0 w ∧
      List.Forall₂ (fun id id' => ∃ job job', w'.job id = some job ∧ v'.job id' = some job' ∧
        job.choices = job'.choices) (run'.jobsAt 1)
        (started.jobsAt started.currentGroupIndex) := by
  have hexec : (twoGroups.program.run (environment.restrict everyChoice) [] {}).any (fun e₁ =>
      e₁.1.toOption.any fun run₁ => decide (run₁.id = 0) &&
      ((advanceRun {} enqueueRestores 0).run (environment.restrict everyChoice) []
          (deleteLocations e₁.2)).any fun e₂ =>
        (e₂.2.location 5).isNone && (e₂.2.run 0).any fun run =>
          decide (run.status = .RUNNING ∧ run.jobsAt 1 = []) &&
          ((advanceRun {} enqueueRestores 0).run (environment.restrict everyChoice) []
              e₂.2).any fun e₃ => (e₃.2.run 0).any fun run' => decide (run'.jobsAt 1 ≠ []) &&
            (secondGroup.program.run (environment.restrict everyChoice) [] e₂.2).any fun e₄ =>
              e₄.1.toOption.any fun started => decide
                (secondGroup.groupRows.getD started.currentGroupIndex [] =
                  twoGroups.groupRows.getD 1 [])) = true := by decide +kernel
  obtain ⟨⟨out₁, w₁⟩, hrun₁, hrest⟩ := (Option.any_eq_true _ _).mp hexec
  obtain ⟨run₁, hout₁, hrest⟩ := (Option.any_eq_true _ _).mp hrest
  obtain ⟨hid, hrest⟩ := Bool.and_eq_true_iff.mp hrest
  obtain ⟨⟨out₂, w₂⟩, hrun₂, hrest⟩ := (Option.any_eq_true _ _).mp hrest
  obtain ⟨hgone, hrest⟩ := Bool.and_eq_true_iff.mp hrest
  obtain ⟨run, hrun, hrest⟩ := (Option.any_eq_true _ _).mp hrest
  obtain ⟨hready, hrest⟩ := Bool.and_eq_true_iff.mp hrest
  obtain ⟨hstatus, hnone⟩ := of_decide_eq_true hready
  obtain ⟨⟨out₃, w₃⟩, hrun₃, hrest⟩ := (Option.any_eq_true _ _).mp hrest
  obtain ⟨run', hrun', hrest⟩ := (Option.any_eq_true _ _).mp hrest
  obtain ⟨hjobs, hrest⟩ := Bool.and_eq_true_iff.mp hrest
  obtain ⟨⟨out₄, w₄⟩, hrun₄, hrest⟩ := (Option.any_eq_true _ _).mp hrest
  obtain ⟨started, hout₄, hrows⟩ := (Option.any_eq_true _ _).mp hrest
  obtain rfl : out₁ = .ok run₁ := toOption_eq_some hout₁
  obtain rfl : out₄ = .ok started := toOption_eq_some hout₄
  have hbegun : Underway {} everyChoice (fun w w' => w' = deleteLocations w) twoGroups run₁.id w₁ :=
    .start (ends_of_run hrun₁)
  rw [of_decide_eq_true hid] at hbegun
  have hedited : Underway {} everyChoice (fun w w' => w' = deleteLocations w) twoGroups 0
      (deleteLocations w₁) := .other hbegun rfl fun run hrun _ => hrun
  have hunderway := hedited.tick (ends_of_run hrun₂)
  have hjobs : run'.jobsAt 1 ≠ [] := of_decide_eq_true hjobs
  have hrows : secondGroup.groupRows.getD started.currentGroupIndex [] =
      twoGroups.groupRows.getD 1 [] := of_decide_eq_true hrows
  have hsame := later_groups_alike hunderway hrun hstatus hnone (ends_of_run hrun₃) hrun' hjobs
    (d := secondGroup) rfl rfl (ends_of_run hrun₄) hrows rfl
  exact ⟨w₂, w₃, w₄, run', started, Option.isNone_iff_eq_none.mp hgone, hjobs, hunderway, hsame⟩

end RestoreEngine
