import RestoreEngine.Enqueue.Steps

/-!
# What an enqueueing comes to

The outcomes of an undisturbed `enqueueRestores`, case by case (`enqueuings`): it is refused, the
cluster cannot be reached, there are no VMIDs, a guest cannot be reclaimed, a row has no archive, or
one job is written for each row, with the VMIDs, nodes and storages that the request and the load
of the nodes determine.

The choices that the world may make are restricted to `A`.
-/

namespace RestoreEngine

open Effects Prog Program

variable {A : Op → Answer → Bool} {w w' : World} {req : EnqueueRequest}

/-- The job occupies the node. -/
def Job.Occupies (job : Job) (node : String) : Prop :=
  job.IsLive ∧ Text.strip (job.proxmoxNode.getD "") = node

instance (job : Job) (node : String) : Decidable (job.Occupies node) :=
  inferInstanceAs (Decidable (_ ∧ _))

/-- **The load of a node**: the live jobs on it. -/
def World.load (w : World) (node : String) : ℕ :=
  if node = "" then 0
  else w.jobs.keys.countP fun id => decide (((w.job id).getD {}).Occupies node)

/-- Counting the load. -/
private theorem countActive_eq (counts : String → ℕ) (ids : List Uuid) :
    Satisfies environment.machine
      (fun out w' => w' = w ∧ out = .ok fun node => counts node +
        if node = "" then 0
        else ids.countP fun id => decide (((w.job id).getD {}).Occupies node)) w
      (countActive counts ids) := by
  induction ids generalizing counts with
  | nil =>
    refine satisfies_ret.mpr ⟨rfl, congrArg Except.ok (funext fun node => ?_)⟩
    simp
  | cons id rest ih =>
    simp only [countActive, satisfies_bind, satisfies_hgetall, then_ok]
    refine Satisfies.ite (fun hlive => ?_) fun hnot => ?_
    · refine (ih _).mono ?_
      rintro out w' ⟨rfl, rfl⟩
      refine ⟨rfl, congrArg Except.ok (funext fun node => ?_)⟩
      rw [List.countP_cons]
      by_cases hnode : node = Text.strip ((((w'.job id).getD {}).proxmoxNode).getD "")
      · have hne : node ≠ "" := hnode ▸ hlive.2
        have hoccupies : ((w'.job id).getD {}).Occupies node := ⟨hlive.1, hnode.symm⟩
        rw [if_pos hnode, if_neg hne, if_neg hne, if_pos (decide_eq_true hoccupies)]
        omega
      · have hfree : ¬ ((w'.job id).getD {}).Occupies node := fun h => hnode h.2.symm
        rw [if_neg hnode, if_neg (mt of_decide_eq_true hfree)]
        rfl
    · refine (ih _).mono ?_
      rintro out w' ⟨rfl, rfl⟩
      refine ⟨rfl, congrArg Except.ok (funext fun node => ?_)⟩
      rw [List.countP_cons]
      by_cases hempty : node = ""
      · rw [if_pos hempty, if_pos hempty]
      · have hfree : ¬ ((w'.job id).getD {}).Occupies node := by
          rintro ⟨hlive, rfl⟩
          exact hnot ⟨hlive, hempty⟩
        rw [if_neg hempty, if_neg hempty, if_neg (mt of_decide_eq_true hfree)]
        rfl

/-- The load is one of jobs. -/
theorem World.load_congr (h : w'.jobs = w.jobs) : w'.load = w.load := by
  have hjob : ∀ id, w'.job id = w.job id := by
    intro id
    rw [World.job, World.job, h]
  funext node
  rw [World.load, World.load, h]
  simp only [hjob]

/-- **The counts are the load.** -/
theorem activeRestoreCountsByNode_eq :
    Satisfies environment.machine (fun out w' => w' = w ∧ out = .ok w.load) w
      activeRestoreCountsByNode := by
  rw [activeRestoreCountsByNode, satisfies_bind, satisfies_scanJobs, then_ok]
  refine (countActive_eq _ _).mono ?_
  rintro out w' ⟨rfl, rfl⟩
  refine ⟨rfl, congrArg Except.ok (funext fun node => ?_)⟩
  exact Nat.zero_add _

/-! ### The jobs -/

/-- The job is one that the request makes for a row, with its VMID, node and storage. -/
def EnqueueRequest.JobOf (req : EnqueueRequest) (entry : Row × ℤ × String × String) (job : Job) :
    Prop :=
  ∃ sourceVmid archive now hash, entry.1.vmid = some sourceVmid ∧
    archivePath entry.1.pveStorage entry.1.voltail = .ok archive ∧
    job = req.newJob entry.1 sourceVmid entry.2.1 entry.2.2.1 entry.2.2.2 archive now hash

/-- The jobs of the entries are stored under the ids. -/
def World.HoldsJobs (w : World) (req : EnqueueRequest) (entries : List (Row × ℤ × String × String))
    (ids : List Uuid) : Prop :=
  List.Forall₂ (fun entry id => ∃ job, w.job id = some job ∧ req.JobOf entry job) entries ids

theorem World.HoldsJobs.congr {entries : List (Row × ℤ × String × String)} {ids : List Uuid}
    (hjobs : w'.jobs = w.jobs) (h : w.HoldsJobs req entries ids) : w'.HoldsJobs req entries ids := by
  refine List.Forall₂.imp (fun entry id hjob => ?_) h
  rwa [World.job, hjobs]

/-- **The writing loop** makes a job for each entry, and leaves the other jobs alone. -/
theorem writeJobs_wrote (entries : List (Row × ℤ × String × String)) :
    Satisfies environment.machine
      (fun out w' => w.nextUuid ≤ w'.nextUuid ∧ (∀ id < w.nextUuid, w'.job id = w.job id) ∧
        ∀ ids, out = .ok ids → w'.HoldsJobs req entries ids) w
      (writeJobs req entries) := by
  induction entries generalizing w with
  | nil =>
    refine satisfies_ret.mpr ⟨le_rfl, fun _ _ => rfl, fun ids hids => ?_⟩
    obtain rfl := Except.ok.inj hids
    exact .nil
  | cons entry rest ih =>
    obtain ⟨row, vmid, node, storage⟩ := entry
    simp only [writeJobs, satisfies_bind, satisfies_uuid4, then_ok, satisfies_utcNow,
      satisfies_ofExcept]
    intro n
    have hkept : ∀ e : Exn, w.nextUuid ≤ w.nextUuid + 1 ∧ (∀ id < w.nextUuid, w.job id = w.job id) ∧
        ∀ ids, (.error e : Except Exn (List Uuid)) = .ok ids → False :=
      fun e => ⟨Nat.le_succ _, fun _ _ => rfl, fun ids hids => by cases hids⟩
    cases harchive : archivePath row.pveStorage row.voltail with
    | error e =>
      obtain ⟨hnext, hothers, hnever⟩ := hkept e
      exact then_error.mpr ⟨hnext, hothers, fun ids hids => (hnever ids hids).elim⟩
    | ok archive =>
      rw [then_ok, satisfies_bind, satisfies_ofExcept]
      cases hvmid : row.vmid with
      | none =>
        obtain ⟨hnext, hothers, hnever⟩ := hkept (.keyError "'vmid'")
        exact then_error.mpr ⟨hnext, hothers, fun ids hids => (hnever ids hids).elim⟩
      | some sourceVmid =>
        simp only [Option.elim_some, then_ok, satisfies_bind, satisfies_hset, satisfies_rpush]
        refine ih.mono ?_
        rintro out w' ⟨hnext, hothers, hjobs⟩
        have hnext : w.nextUuid + 1 ≤ w'.nextUuid := hnext
        have hmine := (hothers w.nextUuid (Nat.lt_succ_self _)).trans (World.job_setJob _ _ _)
        have hkept : ∀ id < w.nextUuid, w'.job id = w.job id := by
          intro id hid
          refine (hothers id (Nat.lt_succ_of_lt hid)).trans ?_
          exact World.job_setJob_ne _ _ (Nat.ne_of_lt hid)
        cases out with
        | error e =>
          exact then_error.mpr ⟨Nat.le_of_succ_le hnext, hkept, fun ids hids => by cases hids⟩
        | ok ids =>
          refine then_ok.mpr (satisfies_ret.mpr ⟨Nat.le_of_succ_le hnext, hkept, ?_⟩)
          intro ids' hids
          obtain rfl := Except.ok.inj hids
          exact .cons ⟨_, hmine, sourceVmid, archive, _, _, hvmid, harchive, rfl⟩ (hjobs ids rfl)

/-! ### The cases -/

/-- A listing that the world may give: the guests, or none if it is lost. -/
def World.Lists (A : Op → Answer → Bool) (w : World) (req : EnqueueRequest) (inUse : Finset ℤ) :
    Prop :=
  Ends (environment.restrict A) (listInUse (.enqueue req.planRunId)) w (.ok inUse) w

/-- The entries of the writing loop. -/
def EnqueueRequest.entries (req : EnqueueRequest) (vmids : List ℤ) (nodes storages : List String) :
    List (Row × ℤ × String × String) :=
  req.rows.zip (vmids.zip (nodes.zip storages))

/-- The result of an enqueueing. -/
def EnqueueRequest.result (req : EnqueueRequest) (jobIds : List Uuid) (vmids : List ℤ)
    (nodes storages : List String) : EnqueueResult where
  jobIds
  proxmoxVmidsAssigned := vmids
  proxmoxNodesAssigned := nodes
  proxmoxStoragesAssigned := storages
  loadBalanceNodes := req.candidates
  restoreMode := req.mode
  powerOn := req.doPowerOn
  qgaWaitSec := req.qgaSec

/-- The placement of the rows. -/
structure EnqueueRequest.Places (req : EnqueueRequest) (A : Op → Answer → Bool) (w : World)
    (inUse : Finset ℤ) (vmids : List ℤ) (nodes storages : List String) : Prop where
  allowed : ¬ req.Refused
  lists : w.Lists A req inUse
  allocated : req.allocate inUse = .ok vmids
  placed : req.place w.load = .ok (nodes, storages)

/-- **What an enqueueing comes to.** -/
inductive Enqueuing (A : Op → Answer → Bool) (req : EnqueueRequest) (w : World) :
    Except Exn EnqueueResult → World → Prop
  | refused (text : String) (hrefused : req.Refused) :
    Enqueuing A req w (.error (.runtimeError text)) w
  | unreachable (text : String) (hdown : w.up = false) : Enqueuing A req w (.error (.api text)) w
  | unallocated (inUse : Finset ℤ) (e : Exn) (hlists : w.Lists A req inUse)
      (hallocate : req.allocate inUse = .error e) : Enqueuing A req w (.error e) w
  | unreclaimed (inUse : Finset ℤ) (vmids : List ℤ) (nodes storages : List String) (e : Exn)
      (w' : World) (hplaces : req.Places A w inUse vmids nodes storages)
      (hreclaim : Ends (environment.restrict A)
        (reclaimStep req (.enqueue req.planRunId) inUse vmids) w (.error e) w') :
    Enqueuing A req w (.error e) w'
  | unwritten (inUse : Finset ℤ) (vmids : List ℤ) (nodes storages : List String) (e : Exn)
      (w₁ w' : World) (hplaces : req.Places A w inUse vmids nodes storages)
      (hreclaim : Ends (environment.restrict A)
        (reclaimStep req (.enqueue req.planRunId) inUse vmids) w (.ok ()) w₁)
      (hwrite : Ends (environment.restrict A) (writeJobs req (req.entries vmids nodes storages)) w₁
        (.error e) w') : Enqueuing A req w (.error e) w'
  | enqueued (inUse : Finset ℤ) (vmids : List ℤ) (nodes storages : List String)
      (jobIds : List Uuid) (w₁ w' : World) (hplaces : req.Places A w inUse vmids nodes storages)
      (hreclaim : Ends (environment.restrict A)
        (reclaimStep req (.enqueue req.planRunId) inUse vmids) w (.ok ()) w₁)
      (hwrite : Ends (environment.restrict A) (writeJobs req (req.entries vmids nodes storages)) w₁
        (.ok jobIds) w') :
    Enqueuing A req w (.ok (req.result jobIds vmids nodes storages)) w'

private theorem ends_listInUse {px : Client} {out : Except Exn (Finset ℤ)}
    (h : Ends (environment.restrict A) (listInUse px) w out w') :
    w = w' ∧ ∃ inUse, out = .ok inUse := by
  obtain ⟨rfl, rows, rfl, -⟩ := h.of_restrict.post listInUse_spec
  exact ⟨rfl, _, rfl⟩

private theorem ends_lift {α : Type} {x out : Except Exn α}
    (h : Ends (environment.restrict A) (Program.ofExcept x : Prog α) w out w') :
    out = x ∧ w = w' :=
  h.of_restrict.post (Q := fun out w' => out = x ∧ w = w') (satisfies_ofExcept.mpr ⟨rfl, rfl⟩)

private theorem ends_connect {px : Client} {out : Except Exn Unit}
    (h : Ends (environment.restrict A) (connect px) w out w') :
    out = (if w.up then .ok () else .error (.api "connection refused")) ∧ w = w' :=
  h.of_restrict.post (Q := fun out w' => out = (if w.up then .ok () else
    .error (.api "connection refused")) ∧ w = w') (satisfies_connect.mpr ⟨rfl, rfl⟩)

/-- **The enqueuings.** -/
theorem enqueuings {out : Except Exn EnqueueResult}
    (h : Ends (environment.restrict A) (enqueueRestores req) w out w') :
    Enqueuing A req w out w' := by
  rw [enqueueRestores] at h
  rcases req.check_spec with ⟨hcheck, hallowed⟩ | ⟨text, hcheck, hrefused⟩
  swap
  · rcases ends_bind.mp h with ⟨a, w₁, hlift, -⟩ | ⟨e, rfl, hlift⟩
    · cases (ends_lift hlift).1.trans hcheck
    · obtain ⟨herror, rfl⟩ := ends_lift hlift
      obtain rfl := Except.error.inj (herror.trans hcheck)
      exact .refused text hrefused
  rcases ends_bind.mp h with ⟨a, w₁, hlift, hrest⟩ | ⟨e, -, hlift⟩
  swap
  · cases (ends_lift hlift).1.trans hcheck
  obtain ⟨-, rfl⟩ := ends_lift hlift
  rcases ends_bind.mp hrest with ⟨a, w₁, hconnect, hrest⟩ | ⟨e, rfl, hconnect⟩
  swap
  · obtain ⟨hreply, rfl⟩ := ends_connect hconnect
    cases hup : w.up with
    | true =>
      rw [hup] at hreply
      cases hreply
    | false =>
      rw [hup] at hreply
      obtain rfl := Except.error.inj hreply
      exact .unreachable _ hup
  obtain ⟨-, rfl⟩ := ends_connect hconnect
  rcases ends_bind.mp hrest with ⟨inUse, w₁, hlists, hrest⟩ | ⟨e, -, hlists⟩
  swap
  · obtain ⟨-, inUse, hnever⟩ := ends_listInUse hlists
    cases hnever
  obtain ⟨rfl, -⟩ := ends_listInUse hlists
  rcases ends_bind.mp hrest with ⟨vmids, w₁, hallocate, hrest⟩ | ⟨e, rfl, hallocate⟩
  swap
  · obtain ⟨herror, rfl⟩ := ends_lift hallocate
    exact .unallocated inUse e hlists herror.symm
  obtain ⟨hvmids, rfl⟩ := ends_lift hallocate
  rw [enqueueAllocated] at hrest
  rcases ends_bind.mp hrest with ⟨counts, w₁, hcounts, hrest⟩ | ⟨e, -, hcounts⟩
  swap
  · cases (hcounts.of_restrict.post activeRestoreCountsByNode_eq).2
  obtain ⟨hsame, hload⟩ := hcounts.of_restrict.post activeRestoreCountsByNode_eq
  obtain rfl := Except.ok.inj hload
  obtain rfl := hsame.symm
  obtain ⟨nodes, storages, hplaced, -, -⟩ := req.place_spec w.load hallowed
  rw [hplaced] at hrest
  have hplaces : req.Places A w inUse vmids nodes storages :=
    ⟨hallowed, hlists, hvmids.symm, hplaced⟩
  rcases ends_bind.mp hrest with ⟨placed, w₁, hlift, hrest⟩ | ⟨e, -, hlift⟩
  swap
  · cases (ends_lift hlift).1
  obtain ⟨hok, rfl⟩ := ends_lift hlift
  obtain rfl := Except.ok.inj hok
  rcases ends_bind.mp hrest with ⟨_, w₁, hreclaim, hrest⟩ | ⟨e, rfl, hreclaim⟩
  swap
  · exact .unreclaimed inUse vmids nodes storages e w' hplaces hreclaim
  rcases ends_bind.mp hrest with ⟨jobIds, w₂, hwrite, hrest⟩ | ⟨e, rfl, hwrite⟩
  · cases hrest
    exact .enqueued inUse vmids nodes storages jobIds w₁ w' hplaces hreclaim hwrite
  · exact .unwritten inUse vmids nodes storages e w₁ w' hplaces hreclaim hwrite

/-- **What an enqueueing has made**: a job for each row. -/
theorem enqueueRestores_made {result : EnqueueResult}
    (h : Ends (environment.restrict A) (enqueueRestores req) w (.ok result) w') :
    ∃ inUse vmids nodes storages, req.Places A w inUse vmids nodes storages ∧
      w'.HoldsJobs req (req.entries vmids nodes storages) result.jobIds ∧
      result.proxmoxVmidsAssigned = vmids := by
  generalize hout : Except.ok result = out at h
  cases enqueuings h with
  | refused | unreachable | unallocated | unreclaimed | unwritten => cases hout
  | enqueued inUse vmids nodes storages jobIds w₁ _ hplaces hreclaim hwrite =>
    obtain rfl := Except.ok.inj hout
    obtain ⟨-, -, hjobs⟩ := hwrite.of_restrict.post (writeJobs_wrote _)
    exact ⟨inUse, vmids, nodes, storages, hplaces, hjobs jobIds rfl, rfl⟩

/-- The entries are as many as the rows. -/
theorem EnqueueRequest.Places.length {inUse : Finset ℤ} {vmids : List ℤ}
    {nodes storages : List String} (h : req.Places A w inUse vmids nodes storages) :
    (req.entries vmids nodes storages).length = req.rows.length := by
  obtain ⟨nodes', storages', hplaced, hnodes, hstorages⟩ := req.place_spec w.load h.allowed
  obtain ⟨rfl, rfl⟩ := Prod.mk.inj (Except.ok.inj (h.placed.symm.trans hplaced))
  have hvmids := req.allocate_length h.allocated
  rw [EnqueueRequest.entries, List.length_zip, List.length_zip, List.length_zip]
  omega

/-- There is one job for each row. -/
theorem enqueueRestores_length {result : EnqueueResult}
    (h : Ends (environment.restrict A) (enqueueRestores req) w (.ok result) w') :
    result.jobIds.length = req.rows.length := by
  obtain ⟨inUse, vmids, nodes, storages, hplaces, hjobs, -⟩ := enqueueRestores_made h
  exact hjobs.length_eq.symm.trans hplaces.length

end RestoreEngine
