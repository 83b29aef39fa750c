import RestoreEngine.Enqueue.Cases
import RestoreEngine.Model.Changes
import RestoreEngine.Model.Footprints

/-!
# Where the jobs are placed

Every job that an enqueueing writes is for one of the candidate nodes, with the storage that is
found for this node (`enqueueRestores_placed`). That holds for the jobs of an enqueueing that
raises in the middle, too. What else is true of all jobs of a request carries over in the same way
(`enqueueRestores_writes`).
-/

namespace RestoreEngine

open Effects Prog Program

variable {A : Op → Answer → Bool} {w w' : World} {req : EnqueueRequest}

/-- The job is for a candidate node of the request, with the storage of this node. -/
def EnqueueRequest.PlacedJob (req : EnqueueRequest) (job : Job) : Prop :=
  ∃ node storage, job.proxmoxNode = some node ∧ node ∈ req.candidates ∧
    job.proxmoxStorage = some storage ∧ req.storageFor node = .ok storage

/-- The entry of the writing loop has a candidate node, and its storage. -/
def EnqueueRequest.PlacedEntry (req : EnqueueRequest) (entry : Row × ℤ × String × String) : Prop :=
  entry.2.2.1 ∈ req.candidates ∧ req.storageFor entry.2.2.1 = .ok entry.2.2.2

private theorem newJob_placed {row : Row} {sourceVmid vmid : ℤ} {node storage archive : String}
    {now : Instant} {hash : Job} (h : req.PlacedEntry (row, vmid, node, storage)) :
    req.PlacedJob (req.newJob row sourceVmid vmid node storage archive now hash) :=
  ⟨node, storage, rfl, h.1, rfl, h.2⟩

/-! ### The placement -/

/-- The nodes are candidates, and the storages are theirs. -/
theorem EnqueueRequest.place_mapped {counts : String → ℕ} {nodes storages : List String}
    (h : req.place counts = .ok (nodes, storages)) :
    ∀ e ∈ nodes.zip storages, e.1 ∈ req.candidates ∧ req.storageFor e.1 = .ok e.2 := by
  obtain ⟨assigned, hassigned, h⟩ := of_bind_ok h
  obtain ⟨found, hfound, h⟩ := of_bind_ok h
  obtain ⟨rfl, rfl⟩ := Prod.mk.inj (Except.ok.inj h)
  intro e he
  refine ⟨?_, List.forall₂_zip (mapM_ok_iff.mp hfound) he⟩
  rw [assignNodesLeastLoaded, req.candidates_same] at hassigned
  obtain ⟨hne, hassigned⟩ := of_ite_ok hassigned
  obtain rfl := Except.ok.inj hassigned
  have hdedup : req.candidates.dedup ≠ [] := mt (List.dedup_eq_nil _).mp hne
  have hmem := (assignNodes_spec counts req.rows.length hdedup).2 e.1 (List.of_mem_zip he).1
  exact List.mem_dedup.mp hmem

/-! ### The jobs -/

/-- **Only jobs with `P` are written**, and pushed to the queue. -/
structure World.Writes (P : Job → Prop) (w w' : World) : Prop where
  jobs : ∀ id, w'.job id = w.job id ∨ ∃ job, w'.job id = some job ∧ P job
  queue : ∃ new, w'.queue = w.queue ++ new ∧ ∀ id ∈ new, ∃ job, w'.job id = some job ∧ P job

namespace World.Writes

variable {P : Job → Prop} {w₁ : World}

theorem of_same (hjobs : w'.jobs = w.jobs) (hqueue : w'.queue = w.queue) : w.Writes P w' := by
  refine ⟨fun id => .inl ?_, [], hqueue.trans (List.append_nil _).symm, nofun⟩
  rw [World.job, World.job, hjobs]

theorem trans (h : w.Writes P w₁) (h' : w₁.Writes P w') : w.Writes P w' := by
  obtain ⟨new, hnew, hjobs⟩ := h.queue
  obtain ⟨new', hnew', hjobs'⟩ := h'.queue
  refine ⟨fun id => ?_, new ++ new', by rw [hnew', hnew, List.append_assoc], fun id hid => ?_⟩
  · rcases h'.jobs id with hsame | hwritten
    · rw [hsame]
      exact h.jobs id
    · exact .inr hwritten
  · rcases List.mem_append.mp hid with hid | hid
    · rcases h'.jobs id with hsame | hwritten
      · rw [hsame]
        exact hjobs id hid
      · exact hwritten
    · exact hjobs' id hid

/-- A job is written and pushed. -/
theorem push {id : Uuid} {f : Instant → Job → Job} {clock : Instant} {nextUuid : Uuid}
    (hP : ∀ now hash, P (f now hash)) :
    w.Writes P { ({ w with clock, nextUuid }.setJob id f) with queue := w.queue ++ [id] } := by
  have hmine : ({ w with clock, nextUuid }.setJob id f).job id =
      some (f clock ((w.job id).getD {})) := World.job_setJob _ _ _
  refine ⟨fun id' => ?_, [id], rfl, fun id' hid' => ?_⟩
  · by_cases hid : id' = id
    · subst hid
      exact .inr ⟨_, hmine, hP _ _⟩
    · exact .inl (World.job_setJob_ne _ _ hid)
  · obtain rfl := List.mem_singleton.mp hid'
    exact ⟨_, hmine, hP _ _⟩

end World.Writes

/-- The request makes only jobs with `P`. -/
def EnqueueRequest.Makes (req : EnqueueRequest) (P : Job → Prop) : Prop :=
  ∀ entry, req.PlacedEntry entry → ∀ sourceVmid archive now hash,
    P (req.newJob entry.1 sourceVmid entry.2.1 entry.2.2.1 entry.2.2.2 archive now hash)

section writes

variable {P : Job → Prop}

/-- The writing loop writes the jobs of its entries. -/
private theorem writeJobs_writes (hP : req.Makes P) (entries : List (Row × ℤ × String × String))
    (hentries : ∀ e ∈ entries, req.PlacedEntry e) :
    Satisfies environment.machine (fun _ w' => w.Writes P w') w (writeJobs req entries) := by
  induction entries generalizing w with
  | nil => exact satisfies_ret.mpr (.of_same rfl rfl)
  | cons entry rest ih =>
    have hentry := hentries entry List.mem_cons_self
    obtain ⟨row, vmid, node, storage⟩ := entry
    simp only [writeJobs, satisfies_bind, satisfies_uuid4, then_ok, satisfies_utcNow,
      satisfies_ofExcept]
    intro n
    cases archivePath row.pveStorage row.voltail with
    | error e => exact then_error.mpr (.of_same rfl rfl)
    | ok archive =>
      rw [then_ok, satisfies_bind, satisfies_ofExcept]
      cases row.vmid with
      | none => exact then_error.mpr (.of_same rfl rfl)
      | some sourceVmid =>
        simp only [Option.elim_some, then_ok, satisfies_bind, satisfies_hset, satisfies_rpush]
        refine (ih fun e he => hentries e (List.mem_cons_of_mem _ he)).mono ?_
        intro out w' hrest
        have hall : w.Writes P w' :=
          (World.Writes.push (hP _ hentry sourceVmid archive)).trans hrest
        cases out with
        | error e => exact then_error.mpr hall
        | ok ids => exact then_ok.mpr (satisfies_ret.mpr hall)

private theorem reclaimStep_same {px : Client} {inUse : Finset ℤ} {vmids : List ℤ}
    {out : Except Exn Unit}
    (h : Ends (environment.restrict A) (reclaimStep req px inUse vmids) w out w') :
    w'.jobs = w.jobs ∧ w'.queue = w.queue := by
  have hkept : Satisfies environment.machine (fun _ w' => w'.jobs = w.jobs ∧ w'.queue = w.queue) w
      (reclaimStep req px inUse vmids) := by
    refine Only.satisfies (I := fun w' : World => w'.jobs = w.jobs ∧ w'.queue = w.queue)
      (A := environment.machine) reclaimStep_only ⟨rfl, rfl⟩ (fun _ _ _ _ => trivial) ?_
    rintro s o r s' ⟨v, ho⟩ hs ⟨a, ha⟩
    rw [(after_step ha).jobs, (after_step ha).queue]
    cases o <;> first | exact hs | exact ho.elim
  exact h.of_restrict.post hkept

theorem EnqueueRequest.Places.entries_placed {inUse : Finset ℤ} {vmids : List ℤ}
    {nodes storages : List String} (h : req.Places A w inUse vmids nodes storages) :
    ∀ e ∈ req.entries vmids nodes storages, req.PlacedEntry e := by
  intro e he
  have hzip := (List.of_mem_zip (List.of_mem_zip he).2).2
  exact EnqueueRequest.place_mapped h.placed _ hzip

/-- **What an enqueueing writes** are jobs that its request makes. -/
theorem enqueueRestores_writes (hP : req.Makes P) {out : Except Exn EnqueueResult}
    (h : Ends (environment.restrict A) (enqueueRestores req) w out w') : w.Writes P w' := by
  have hwritten : ∀ {inUse vmids nodes storages w₁} {reclaimed : Except Exn Unit}
      {out : Except Exn (List Uuid)}, req.Places A w inUse vmids nodes storages →
      Ends (environment.restrict A) (reclaimStep req (.enqueue req.planRunId) inUse vmids) w
        reclaimed w₁ →
      Ends (environment.restrict A) (writeJobs req (req.entries vmids nodes storages)) w₁ out w' →
      w.Writes P w' := by
    intro inUse vmids nodes storages w₁ reclaimed out hplaces hreclaim hwrite
    obtain ⟨hjobs, hqueue⟩ := reclaimStep_same hreclaim
    exact (World.Writes.of_same hjobs hqueue).trans
      (hwrite.of_restrict.post (writeJobs_writes hP _ hplaces.entries_placed))
  cases enqueuings h with
  | refused | unreachable | unallocated => exact .of_same rfl rfl
  | unreclaimed _ _ _ _ _ _ _ hreclaim =>
    obtain ⟨hjobs, hqueue⟩ := reclaimStep_same hreclaim
    exact .of_same hjobs hqueue
  | unwritten _ _ _ _ _ _ _ hplaces hreclaim hwrite => exact hwritten hplaces hreclaim hwrite
  | enqueued _ _ _ _ _ _ _ hplaces hreclaim hwrite => exact hwritten hplaces hreclaim hwrite

end writes

/-- **Every job that an enqueueing writes is placed**: on a candidate node, with its storage. -/
theorem enqueueRestores_placed {out : Except Exn EnqueueResult}
    (h : Ends (environment.restrict A) (enqueueRestores req) w out w') :
    w.Writes req.PlacedJob w' :=
  enqueueRestores_writes (fun _ hentry _ _ _ _ => newJob_placed hentry) h

/-- **The jobs of an enqueueing that succeeds** are placed. -/
theorem enqueueRestores_jobs_placed {result : EnqueueResult}
    (h : Ends (environment.restrict A) (enqueueRestores req) w (.ok result) w') :
    ∀ id ∈ result.jobIds, ∃ job, w'.job id = some job ∧ req.PlacedJob job := by
  obtain ⟨inUse, vmids, nodes, storages, hplaces, hjobs, -⟩ := enqueueRestores_made h
  have hentries := hplaces.entries_placed
  rw [World.HoldsJobs] at hjobs
  generalize req.entries vmids nodes storages = entries at hjobs hentries
  generalize result.jobIds = ids at hjobs
  induction hjobs with
  | nil => exact nofun
  | cons hjob _ ih =>
    intro id hid
    rcases List.mem_cons.mp hid with rfl | hid
    · obtain ⟨job, hstored, _, _, _, _, -, -, rfl⟩ := hjob
      exact ⟨_, hstored, newJob_placed (hentries _ List.mem_cons_self)⟩
    · exact ih (fun e he => hentries e (List.mem_cons_of_mem _ he)) id hid

end RestoreEngine
