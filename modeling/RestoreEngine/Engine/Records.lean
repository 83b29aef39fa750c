import RestoreEngine.Effects.Views
import RestoreEngine.Engine.Dispatch
import RestoreEngine.Lists.Groups
import RestoreEngine.Runs.Settling

/-!
# The jobs that the records of runs list

The record of a run lists the ids of its jobs, group by group. It is written by the API and by
workers, from copies that may be out of date, and the jobs have hashes of their own. Still, what
is listed is right (`records_sound`): whatever the processes do and however their commands
interleave, every id that the record of a run lists under a group is the id of a job that has been
made for this group of this run, and no id is listed twice.

The reason is that a process lists only what it knows to be jobs of the run: the ids that it has
read in a record of the run, and the ids of jobs that it has made for the run (`recordProtocol`).
The finalization of a run writes records, too, but it leaves the lists alone; it is taken as a whole
(`Settling`).
-/

namespace RestoreEngine

open Effects Prog Program RestoreEngine.Lists

/-! ### What a process knows of runs -/

/-- A job of a run: the run, the index of its group, and the id of the job. -/
structure RunJob where
  run : Uuid
  group : ℕ
  id : Uuid

/-- The record lists the job. -/
def PlanRun.Lists (run : PlanRun) (e : RunJob) : Prop := e.run = run.id ∧ e.id ∈ run.jobsAt e.group

/-- What a process knows: jobs of runs, and ids of runs that are stored. -/
structure RecordView where
  known : Set RunJob := ∅
  stored : Set Uuid := ∅

/-- The write makes a job of the run. -/
def MakesFor (f : Instant → Job → Job) (e : RunJob) : Prop :=
  (f 0 {}).planRunId = some e.run ∧ (f 0 {}).planGroupIndex = some e.group

/-- The record lists jobs that are known, none of them twice. -/
structure RecordView.Sound (m : RecordView) (run : PlanRun) : Prop where
  known : ∀ e, run.Lists e → e ∈ m.known
  nodup : run.jobIdsByGroup.flatten.Nodup

/-- What a process knows after a command. -/
def RecordView.after (m : RecordView) : (o : Op) → o.Res → RecordView
  | .getRun _, some run =>
    { known := m.known ∪ {e | run.Lists e}, stored := m.stored ∪ {run.id} }
  | .setRun run, _ => { m with stored := m.stored ∪ {run.id} }
  | .hset id f, _ => { m with known := m.known ∪ {e | e.id = id ∧ MakesFor f e} }
  | _, _ => m

/-- **The protocol of records**: a record lists what is known; and what a job is about is decided
when its hash is made. -/
def recordProtocol : Protocol commands RecordView where
  observe := RecordView.after
  Permits m o :=
    match o with
    | .setRun run => m.Sound run
    | .hset _ f => KeepsOrigin f ∨ ∀ now j, (f now j).origin = (f 0 {}).origin
    | .hsetLrem _ f => KeepsOrigin f
    | _ => True

/-- What may be relied on: a stored record is there, is stored under its id, and lists nothing
twice; and new ids are new. -/
def RecordView.Genuine (m : RecordView) (o : Op) (r : o.Res) : Prop :=
  match o, r with
  | .getRun id, found => (id ∈ m.stored → found ≠ none) ∧
      ∀ run, found = some run → run.id = id ∧ run.jobIdsByGroup.flatten.Nodup
  | .uuid4, id => ∀ e ∈ m.known, e.id ≠ id
  | _, _ => True

/-- The view has grown. -/
structure RecordView.Grows (m m' : RecordView) : Prop where
  known : m.known ⊆ m'.known
  stored : m.stored ⊆ m'.stored

namespace RecordView

variable {m m' m'' : RecordView} {run run' : PlanRun}

theorem Grows.refl (m : RecordView) : m.Grows m := ⟨subset_rfl, subset_rfl⟩

theorem Grows.trans (h : m.Grows m') (h' : m'.Grows m'') : m.Grows m'' :=
  ⟨h.known.trans h'.known, h.stored.trans h'.stored⟩

/-- Knowledge grows. -/
theorem grows_after (m : RecordView) (o : Op) (r : o.Res) : m.Grows (m.after o r) := by
  cases o with
  | getRun id =>
    cases r with
    | none => exact .refl m
    | some run => exact ⟨Set.subset_union_left, Set.subset_union_left⟩
  | setRun run => exact ⟨subset_rfl, Set.subset_union_left⟩
  | hset id f => exact ⟨Set.subset_union_left, subset_rfl⟩
  | _ => exact .refl m

theorem Sound.grows (h : m.Sound run) (hm : m.Grows m') : m'.Sound run :=
  ⟨fun e he => hm.known (h.known e he), h.nodup⟩

/-- A record with the same lists. -/
theorem Sound.congr (h : m.Sound run) (hid : run'.id = run.id)
    (hjobs : run'.jobIdsByGroup = run.jobIdsByGroup) : m.Sound run' := by
  refine ⟨fun e he => h.known e ⟨he.1.trans hid, ?_⟩, hjobs ▸ h.nodup⟩
  have hmem := he.2
  rwa [PlanRun.jobsAt, hjobs] at hmem

end RecordView

/-! ### Every process keeps to the protocol -/

section Walk

variable {α : Type} {cfg : Config} {mt : Matching} {polls : ℕ} {m m' : RecordView}
  {run : PlanRun} {R : Uuid} {k : ℕ}

/-- The machine of the protocol. -/
private abbrev recordMachine : Machine commands RecordView :=
  recordProtocol.guarded RecordView.Genuine

/-- What a process knows it goes on knowing. -/
private theorem grows_of_satisfies {p : Prog α} {Q : Except Exn α → RecordView → Prop}
    (hp : Satisfies recordMachine Q m p) :
    Satisfies recordMachine (fun out m' => Q out m' ∧ m.Grows m') m p := by
  refine hp.grows RecordView.Grows.refl (fun h h' => h.trans h') ?_
  rintro m o r _ ⟨-, rfl⟩
  exact m.grows_after o r

/-- The command writes no record, and makes no job. -/
def Op.MakesNothing : Op → Prop
  | setRun _ => False
  | hset _ f | hsetLrem _ f => KeepsOrigin f
  | _ => True

private theorem permits_of_makesNothing {o : Op} (ho : o.MakesNothing) :
    recordProtocol.Permits m o := by
  cases o <;> first | exact trivial | exact ho.elim | exact .inl ho | exact ho

/-- Such commands are permitted whatever is known. -/
private theorem makesNothing_kept {p : Prog α} (hp : p.Only Op.MakesNothing) :
    Satisfies recordMachine (fun _ _ => True) m p :=
  hp.satisfies (I := fun _ => True) trivial (fun _ _ ho _ => permits_of_makesNothing ho)
    fun _ _ _ _ _ _ _ => trivial

theorem Op.OfWork.makesNothing {o : Op} (ho : o.OfWork) : o.MakesNothing := by
  have hwatch : ∀ {id}, o.OfWatch id → o.MakesNothing := fun hwatch => by
    cases o <;> first | exact trivial | exact hwatch.elim | exact hwatch.2
  rcases ho with rfl | ⟨id, hjob | ⟨node, p, rfl⟩ | ⟨node, v, rfl⟩⟩
  · trivial
  · exact hwatch hjob
  · trivial
  · trivial

theorem Op.OfCancel.makesNothing {o : Op} (ho : o.OfCancel) : o.MakesNothing := by
  cases o <;> first | exact trivial | exact ho.elim | exact ho.1

theorem Op.LeavesRecords.makesNothing {o : Op} (ho : o.LeavesRecords) : o.MakesNothing := by
  cases o <;> first | exact trivial | exact ho.elim

/-! #### Records that are settled -/

/-- The record is known. -/
private structure Knows (run : PlanRun) (m : RecordView) : Prop extends m.Sound run where
  stored : run.id ∈ m.stored

private theorem Knows.grows (h : Knows run m) (hm : m.Grows m') : Knows run m' :=
  ⟨h.toSound.grows hm, hm.stored h.stored⟩

/-- What is known once a record has been read. -/
private theorem knows_of_read {id : Uuid} {new : PlanRun}
    (hgenuine : m.Genuine (.getRun id) (some new)) :
    new.id = id ∧ Knows new (m.after (.getRun id) (some new)) := by
  obtain ⟨hid, hnodup⟩ := hgenuine.2 new rfl
  exact ⟨hid, ⟨fun e he => .inr he, hnodup⟩, .inr rfl⟩

/-- A known record can be settled. -/
private theorem settling_records : Settling recordMachine Knows where
  aside {run m} o hK ho := by
    refine ⟨?_, ?_⟩
    · cases o <;> first | exact trivial | exact ho.elim
    · rintro r m' ⟨-, rfl⟩
      exact hK.grows (m.grows_after o r)
  save {run run' m} hK hrun := by
    have hsound : m.Sound run' := hK.toSound.congr hrun.id hrun.jobIdsByGroup
    refine ⟨hsound, ?_⟩
    rintro r m' ⟨-, rfl⟩
    exact ⟨hsound.grows (m.grows_after (.setRun run') r), .inr rfl⟩
  load {run run' m} hK hid := by
    refine ⟨trivial, ?_⟩
    rintro r m' ⟨hgenuine, rfl⟩
    cases r with
    | none => exact absurd rfl (hgenuine.1 (hid ▸ hK.stored))
    | some new => exact knows_of_read hgenuine

/-- A sound record is stored. -/
private theorem save_sound {p : PlanRun → Prog α} {Q : Except Exn α → RecordView → Prop}
    (hsound : m.Sound run) (hp : ∀ m', Knows run m' → m.Grows m' →
      Satisfies recordMachine Q m' (p run)) :
    Satisfies recordMachine Q m (savePlanRun run >>= p) := by
  rw [savePlanRun, satisfies_bind, satisfies_bind]
  refine (guarded_issue (.setRun run)).mpr ⟨hsound, fun r _ => ?_⟩
  refine then_ok.mpr (satisfies_ret.mpr (then_ok.mpr (hp _ ⟨?_, .inr rfl⟩ ?_)))
  · exact hsound.grows (m.grows_after (.setRun run) r)
  · exact m.grows_after (.setRun run) r

/-! #### Enqueueing -/

/-- The jobs that an enqueue for the group at `k` of the run `R` reports are known, new, and
different. -/
private structure Filled (R : Uuid) (k : ℕ) (m : RecordView) (ids : List Uuid) (m' : RecordView) :
    Prop where
  known : ∀ id ∈ ids, (⟨R, k, id⟩ : RunJob) ∈ m'.known
  new : ∀ id ∈ ids, ∀ e ∈ m.known, e.id ≠ id
  nodup : ids.Nodup

/-- The `enqueue_fn` reports the jobs that it has made. -/
private def EnqueueFn.Fills (enqueueFn : EnqueueFn) : Prop :=
  ∀ (req : EnqueueRequest) (R : Uuid) (k : ℕ) (m : RecordView), req.planRunId = some R →
    req.planGroupIndex = some k → Satisfies recordMachine
      (fun out m' => ∀ result, out = .ok result → Filled R k m result.jobIds m') m (enqueueFn req)

private theorem ofExcept_then {β : Type} {x : Except Exn β} {f : β → Prog α}
    {Q : Except Exn α → RecordView → Prop} (hraise : ∀ e, Q (.error e) m)
    (hf : ∀ b, Satisfies recordMachine Q m (f b)) :
    Satisfies recordMachine Q m (Program.ofExcept x >>= f) := by
  cases x with
  | ok b => exact hf b
  | error e => exact satisfies_raise.mpr (hraise e)

private theorem writeJobs_filled {req : EnqueueRequest} (hR : req.planRunId = some R)
    (hk : req.planGroupIndex = some k) (rows : List (Row × ℤ × String × String)) :
    Satisfies recordMachine (fun out m' => ∀ ids, out = .ok ids → Filled R k m ids m') m
      (writeJobs req rows) := by
  induction rows generalizing m with
  | nil =>
    refine satisfies_ret.mpr fun ids hids => ?_
    obtain rfl := Except.ok.inj hids
    exact ⟨List.forall_mem_nil _, List.forall_mem_nil _, List.nodup_nil⟩
  | cons e rest ih =>
    obtain ⟨row, vmid, node, storage⟩ := e
    rw [writeJobs, satisfies_bind]
    refine (guarded_issue .uuid4).mpr ⟨trivial, fun jobId hnew => ?_⟩
    rw [then_ok, satisfies_bind]
    refine (guarded_issue .utcNow).mpr ⟨trivial, fun now _ => ?_⟩
    have hsame : recordProtocol.observe (recordProtocol.observe m .uuid4 jobId) .utcNow now = m :=
      rfl
    rw [then_ok, hsame]
    refine ofExcept_then (fun _ _ hids => by cases hids) fun archive => ?_
    refine ofExcept_then (fun _ _ hids => by cases hids) fun sourceVmid => ?_
    rw [satisfies_bind]
    have hmade : recordProtocol.Permits m (.hset jobId fun _ =>
        req.newJob row sourceVmid vmid node storage archive now) := .inr fun _ _ => rfl
    refine (guarded_issue (.hset jobId _)).mpr ⟨hmade, fun _ _ => ?_⟩
    rw [then_ok, satisfies_bind]
    refine (guarded_issue (.rpush jobId)).mpr ⟨trivial, fun _ _ => then_ok.mpr ?_⟩
    -- the new job is known from now on, so that the ids that follow are different
    refine (grows_of_satisfies ih).bind ?_ fun _ _ _ _ hids => by cases hids
    rintro ids m' ⟨hrest, hgrows⟩
    obtain ⟨hknown, hfresh, hnodup⟩ := hrest ids rfl
    have hjob : (⟨R, k, jobId⟩ : RunJob) ∈ m.known ∪ {e : RunJob | e.id = jobId ∧ MakesFor
        (fun _ => req.newJob row sourceVmid vmid node storage archive now) e} :=
      .inr ⟨rfl, hR, hk⟩
    refine satisfies_ret.mpr fun ids' hids' => ?_
    obtain rfl := Except.ok.inj hids'
    refine ⟨List.forall_mem_cons.mpr ⟨hgrows.known hjob, hknown⟩,
      List.forall_mem_cons.mpr ⟨hnew, fun id hid e he => hfresh id hid e (.inl he)⟩,
      List.nodup_cons.mpr ⟨fun hmem => ?_, hnodup⟩⟩
    exact hfresh jobId hmem _ hjob rfl

/-- What precedes the writing of the jobs. -/
private theorem makesNothing_then {β : Type} {p : Prog β} {f : β → Prog α}
    {Q : Except Exn α → RecordView → Prop} (hp : p.Only Op.MakesNothing)
    (hraise : ∀ e m', m.Grows m' → Q (.error e) m')
    (hf : ∀ b m', m.Grows m' → Satisfies recordMachine Q m' (f b)) :
    Satisfies recordMachine Q m (p >>= f) :=
  (grows_of_satisfies (makesNothing_kept hp)).bind (fun b m' hm' => hf b m' hm'.2)
    fun e m' hm' => hraise e m' hm'.2

private theorem Filled.of_grows {ids : List Uuid} {m'' : RecordView} (hm : m.Grows m')
    (h : Filled R k m' ids m'') : Filled R k m ids m'' :=
  ⟨h.known, fun id hid e he => h.new id hid e (hm.known he), h.nodup⟩

private theorem enqueueRestores_fills : EnqueueFn.Fills enqueueRestores := by
  intro req R k m hR hk
  have hraise : ∀ e, ∀ result : EnqueueResult, ∀ m' : RecordView,
      (.error e : Except Exn EnqueueResult) = .ok result → Filled R k m result.jobIds m' :=
    fun e result m' h => by cases h
  have hreclaim : ∀ {px v} {o : Op}, o.OfDestroy px v → o.MakesNothing := fun ho => by
    cases ‹Op› <;> first | exact trivial | exact ho.elim
  refine makesNothing_then only_ofExcept (fun e m' _ r h => hraise e r m' h) fun _ m₁ h₁ => ?_
  refine makesNothing_then (Only.bind (only_perform.mpr trivial) fun _ => only_ofExcept)
    (fun e m' _ r h => hraise e r m' h) fun _ m₂ h₂ => ?_
  refine makesNothing_then (listInUse_only trivial) (fun e m' _ r h => hraise e r m' h)
    fun inUse m₃ h₃ => ?_
  refine makesNothing_then only_ofExcept (fun e m' _ r h => hraise e r m' h) fun vmids m₄ h₄ => ?_
  refine makesNothing_then (activeRestoreCountsByNode_only trivial fun _ => trivial)
    (fun e m' _ r h => hraise e r m' h) fun counts m₅ h₅ => ?_
  refine makesNothing_then only_ofExcept (fun e m' _ r h => hraise e r m' h) fun placed m₆ h₆ => ?_
  refine makesNothing_then (reclaimStep_only.mono fun o ho => ?_)
    (fun e m' _ r h => hraise e r m' h) fun _ m₇ h₇ => ?_
  · obtain ⟨v, ho⟩ := ho
    exact hreclaim ho
  · have hall : m.Grows m₇ :=
      h₁.trans (h₂.trans (h₃.trans (h₄.trans (h₅.trans (h₆.trans h₇)))))
    refine (writeJobs_filled hR hk _).bind (fun ids m₈ hids => ?_) fun e m' _ r h => hraise e r m' h
    refine satisfies_ret.mpr fun result hresult => ?_
    obtain rfl := Except.ok.inj hresult
    exact (hids ids rfl).of_grows hall

private theorem Starter.fills (starter : Starter) : EnqueueFn.Fills starter.enqueueFn := by
  cases starter with
  | scheduler => exact enqueueRestores_fills
  | api =>
    intro req R k m hR hk
    refine Satisfies.bind (R := fun out m' => ∃ x, out = .ok x ∧
      ∀ result, x = .ok result → Filled R k m result.jobIds m') ?_ ?_ ?_
    · exact satisfies_attempt.mpr ((enqueueRestores_fills req R k m hR hk).mono
        fun x _ hx => ⟨x, rfl, hx⟩)
    · rintro out m' ⟨x, hx, hfilled⟩
      obtain rfl := Except.ok.inj hx
      split
      · refine satisfies_ret.mpr fun result hresult => hfilled result ?_
        rw [Except.ok.inj hresult]
      · exact satisfies_raise.mpr fun _ h => by cases h
      · exact satisfies_raise.mpr fun _ h => by cases h
    · rintro e m' ⟨x, hx, -⟩
      cases hx

/-- Restores without a run are enqueued. -/
private theorem enqueue_keeps (req : EnqueueRequest) :
    Satisfies recordMachine (fun _ _ => True) m (apiEnqueueRestores req) := by
  have hmade : (enqueueRestores req).Only (Op.OfEnqueue req) := enqueueRestores_only
  have hpermits : ∀ (m : RecordView) (o : Op), o.OfEnqueue req → recordProtocol.Permits m o := by
    intro m o ho
    cases o with
    | hset id f =>
      obtain ⟨row, sourceVmid, vmid, node, storage, archive, now, rfl⟩ := ho
      exact .inr fun _ _ => rfl
    | _ => first | exact trivial | exact ho.elim
  refine Satisfies.bind (R := fun _ _ => True) ?_ (fun out m' _ => ?_) fun _ _ _ => trivial
  · exact satisfies_attempt.mpr (hmade.satisfies (I := fun _ => True) trivial
      (fun m o ho _ => hpermits m o ho) fun _ _ _ _ _ _ _ => trivial)
  · split
    · exact satisfies_ret.mpr trivial
    · exact satisfies_raise.mpr trivial
    · exact satisfies_raise.mpr trivial

/-- The jobs of a group that has been enqueued are listed. -/
private theorem RecordView.Sound.recordGroup {result : EnqueueResult} (hsound : m.Sound run)
    (hm : m.Grows m') (hfilled : Filled run.id k m result.jobIds m') :
    m'.Sound (RestoreEngine.recordGroup run k result) := by
  refine ⟨?_, ?_⟩
  · rintro ⟨R, j, id⟩ ⟨hrun, hid⟩
    obtain rfl : R = run.id := hrun
    rcases mem_getD_set (L := run.jobIdsByGroup) hid with ⟨hgroup, hnew⟩ | hold
    · obtain rfl : j = k := hgroup
      exact hfilled.known id hnew
    · exact hm.known (hsound.known _ ⟨rfl, hold⟩)
  · refine nodup_flatten_set hsound.nodup hfilled.nodup fun id hid hmem => ?_
    obtain ⟨j, hj⟩ := mem_flatten_iff_getD.mp hmem
    exact hfilled.new id hid ⟨run.id, j, id⟩ (hsound.known _ ⟨rfl, hj⟩) rfl

/-! #### Runs -/

/-- A procedure that may be followed by anything. -/
private abbrev Keeps (m : RecordView) (p : Prog α) : Prop :=
  Satisfies recordMachine (fun _ _ => True) m p

private theorem keeps_then {β : Type} {p : Prog β} {f : β → Prog α} (hp : Keeps m p)
    (hf : ∀ b m', m.Grows m' → Keeps m' (f b)) : Keeps m (p >>= f) :=
  (grows_of_satisfies hp).bind (fun b m' hm' => hf b m' hm'.2) fun _ _ _ => trivial

private theorem aggregate_keeps (run : PlanRun) : Keeps m (aggregatePlanRun run) :=
  makesNothing_kept (aggregatePlanRun_only (fun _ => trivial) run)

private theorem finalize_keeps (hK : Knows run m) : Keeps m (finalizePlanRunReport cfg run) :=
  (settling_records.finalize hK cfg).mono fun _ _ _ => trivial

private theorem endRun_keeps (hsound : m.Sound run) : Keeps m (endRun cfg run) := by
  refine keeps_then (makesNothing_kept (only_perform.mpr trivial)) fun now m₁ h₁ => ?_
  refine save_sound ((hsound.grows h₁).congr rfl rfl) fun m₂ hK _ => ?_
  exact keeps_then (finalize_keeps hK) fun _ _ _ => satisfies_ret.mpr trivial

private theorem enqueueGroup_keeps (hsound : m.Sound run) :
    Keeps m (enqueueGroup enqueueRestores run k) := by
  refine Satisfies.ite (fun _ => ?_) fun _ => ?_
  · exact save_sound (hsound.congr rfl rfl) fun _ _ _ => satisfies_ret.mpr trivial
  · have henqueue := enqueueRestores_fills (run.request k (run.rowsAt k)) run.id k m rfl rfl
    refine (grows_of_satisfies henqueue).bind (fun result m₁ h₁ => ?_) fun _ _ _ => trivial
    refine save_sound ?_ fun _ _ _ => satisfies_ret.mpr trivial
    exact (hsound.recordGroup h₁.2 (h₁.1 result rfl)).congr rfl rfl

private theorem awaitGroup_keeps (hsound : m.Sound run) : Keeps m (awaitGroup cfg run k) := by
  have hstates : ∀ ids, (jobStates ids).Only Op.MakesNothing := fun ids => by
    induction ids with
    | nil => exact only_ret
    | cons id rest ih =>
      exact Only.bind (only_perform.mpr trivial) fun _ => Only.bind ih fun _ => only_ret
  have hended : ∀ {states ended}, run.outcome k states = .inl ended →
      ended.id = run.id ∧ ended.jobIdsByGroup = run.jobIdsByGroup := by
    intro states ended hout
    simp only [PlanRun.outcome] at hout
    split_ifs at hout <;> obtain rfl := Sum.inl.inj hout <;> exact ⟨rfl, rfl⟩
  refine keeps_then (makesNothing_kept (hstates _)) fun states m₁ h₁ => ?_
  refine Satisfies.ite (fun _ => ?_) fun _ => satisfies_ret.mpr trivial
  split
  · next ended hout =>
    exact endRun_keeps ((hsound.grows h₁).congr (hended hout).1 (hended hout).2)
  · exact save_sound ((hsound.grows h₁).congr rfl rfl) fun _ _ _ => satisfies_ret.mpr trivial

private theorem advanceRun_keeps (runId : Uuid) :
    Keeps m (advanceRun cfg enqueueRestores runId) := by
  rw [advanceRun, Keeps, satisfies_bind]
  refine (guarded_issue (.getRun runId)).mpr ⟨trivial, fun found hgenuine => then_ok.mpr ?_⟩
  split
  · exact keeps_then (makesNothing_kept (only_perform.mpr trivial)) fun _ _ _ =>
      satisfies_ret.mpr trivial
  · next run hfilter =>
    obtain ⟨rfl, -⟩ := Option.filter_eq_some_iff.mp hfilter
    have hK := (knows_of_read hgenuine).2
    refine Satisfies.ite (fun _ => endRun_keeps (hK.toSound.congr rfl rfl)) fun _ => ?_
    exact Satisfies.ite (fun _ => enqueueGroup_keeps hK.toSound) fun _ =>
      awaitGroup_keeps hK.toSound

private theorem advancePlanRuns_keeps : Keeps m (advancePlanRuns cfg enqueueRestores) := by
  have hruns : ∀ ids m, Keeps m (advanceRuns cfg enqueueRestores ids) := fun ids => by
    induction ids with
    | nil => exact fun _ => satisfies_ret.mpr trivial
    | cons id rest ih =>
      exact fun _ => keeps_then (advanceRun_keeps id) fun _ m' _ => keeps_then (ih m')
        fun _ _ _ => satisfies_ret.mpr trivial
  exact keeps_then (makesNothing_kept (only_perform.mpr trivial)) fun ids m' _ => hruns ids m'

private theorem startPlanRun_keeps (starter : Starter) {plan : Plan} {location : Location}
    {groupRows : List (List Row)} {opts : StartOptions} :
    Keeps m (startPlanRun starter.enqueueFn plan location groupRows opts) := by
  have hnew : ∀ {id now startIdx} (m : RecordView),
      m.Sound (newRun id plan location opts now startIdx) := by
    intro id now startIdx m
    have hempty : ∀ l ∈ (newRun id plan location opts now startIdx).jobIdsByGroup, l = [] := by
      intro l hl
      obtain ⟨-, -, rfl⟩ := List.mem_map.mp hl
      rfl
    have hflat : (newRun id plan location opts now startIdx).jobIdsByGroup.flatten = [] :=
      List.flatten_eq_nil_iff.mpr hempty
    refine ⟨fun e he => ?_, hflat ▸ List.nodup_nil⟩
    have hmem := mem_flatten_iff_getD.mpr ⟨e.group, he.2⟩
    rw [hflat] at hmem
    exact absurd hmem List.not_mem_nil
  refine ofExcept_then (fun _ => trivial) fun startIdx => ?_
  refine keeps_then (makesNothing_kept (only_perform.mpr trivial)) fun runId m₁ _ => ?_
  refine keeps_then (makesNothing_kept (only_perform.mpr trivial)) fun now m₂ _ => ?_
  refine save_sound (hnew m₂) fun m₃ hK _ => keeps_then ?_ fun _ m' _ =>
    keeps_then (makesNothing_kept (only_perform.mpr trivial)) fun _ _ _ => satisfies_ret.mpr trivial
  have henqueue := starter.fills (startRequest (newRun runId plan location opts now startIdx)
    location startIdx (groupRows.getD startIdx [])) runId startIdx m₃ rfl rfl
  refine (grows_of_satisfies henqueue).bind (fun result m₄ h₄ => ?_) fun _ _ _ => trivial
  have hfilled := hK.toSound.recordGroup h₄.2 (h₄.1 result rfl)
  refine save_sound (hfilled.congr rfl rfl) fun m₅ _ h₅ => ?_
  refine ofExcept_then (fun _ => trivial) fun stash => ?_
  refine save_sound (p := ret) ?_ fun _ _ _ => satisfies_ret.mpr trivial
  exact (hfilled.grows h₅).congr rfl rfl

private theorem cancelPlanRun_keeps (runId : Uuid) : Keeps m (cancelPlanRun cfg runId) := by
  have hcancel : ∀ ids, (cancelJobs ids).Only Op.MakesNothing := fun ids => by
    induction ids with
    | nil => exact only_ret
    | cons id rest ih =>
      exact Only.bind (cancelJob_only.mono fun _ ho => ho.makesNothing) fun _ =>
        Only.bind ih fun _ => only_ret
  rw [cancelPlanRun, Keeps, satisfies_bind]
  refine (guarded_issue (.getRun runId)).mpr ⟨trivial, fun found hgenuine => then_ok.mpr ?_⟩
  cases found with
  | none => exact satisfies_raise.mpr trivial
  | some run =>
    have hK := (knows_of_read hgenuine).2
    refine Satisfies.ite (fun _ => aggregate_keeps run) fun _ => ?_
    refine keeps_then (makesNothing_kept (hcancel _)) fun stats m₁ h₁ => ?_
    refine keeps_then (makesNothing_kept (only_perform.mpr trivial)) fun now m₂ h₂ => ?_
    refine save_sound ((hK.toSound.grows (h₁.trans h₂)).congr rfl rfl) fun m₃ hK' _ => ?_
    refine keeps_then (finalize_keeps hK') fun _ m₄ _ => ?_
    refine keeps_then (makesNothing_kept (Only.bind (only_perform.mpr trivial) fun _ => only_ret))
      fun run' m₅ _ => aggregate_keeps run'

private theorem teardown_keeps (hK : Knows run m) : Keeps m (teardownPlanRun run) :=
  (settling_records.teardownPlanRun hK).mono fun _ _ _ => trivial

private theorem apiTeardownPlanRun_keeps (runId : Uuid) (force : Bool) :
    Keeps m (apiTeardownPlanRun cfg runId force) := by
  rw [apiTeardownPlanRun, Keeps, satisfies_bind]
  refine (guarded_issue (.getRun runId)).mpr ⟨trivial, fun found hgenuine => then_ok.mpr ?_⟩
  cases found with
  | none => exact satisfies_raise.mpr trivial
  | some run =>
    obtain ⟨hid, hK⟩ := knows_of_read hgenuine
    refine Satisfies.ite (fun _ => satisfies_raise.mpr trivial) fun _ => keeps_then ?_ ?_
    · refine satisfies_attempt.mpr (Satisfies.ite (fun _ => ?_) fun _ => teardown_keeps hK)
      refine keeps_then (cancelPlanRun_keeps runId) fun _ m' hm' => ?_
      rw [Keeps, satisfies_bind]
      refine (guarded_issue (.getRun runId)).mpr ⟨trivial, fun found hfound => then_ok.mpr ?_⟩
      cases found with
      | none => exact absurd rfl (hfound.1 (hid ▸ (hK.grows hm').stored))
      | some run' => exact teardown_keeps (knows_of_read hfound).2
    · intro out m' _
      split
      · exact aggregate_keeps _
      · exact satisfies_raise.mpr trivial
      · exact satisfies_raise.mpr trivial

/-- **Every process keeps to the protocol of records.** -/
theorem Activity.onRecords (act : Activity) :
    Satisfies (recordProtocol.guarded RecordView.Genuine) (fun _ _ => True) m
      (act.program cfg mt polls) := by
  refine act.undertaken.satisfies (I := fun _ => True) (fun m o ho _ => ?_)
    (fun _ _ _ _ _ _ _ => trivial) (fun β q m hpart _ => ?_) trivial
  · exact permits_of_makesNothing ho.makesNothing
  · cases hpart with
    | enqueue req => exact enqueue_keeps req
    | start starter => exact startPlanRun_keeps starter
    | advance => exact advancePlanRuns_keeps
    | cancel runId => exact cancelPlanRun_keeps runId
    | teardown runId force => exact apiTeardownPlanRun_keeps runId force
    | work => exact makesNothing_kept (claimJob_only.mono fun _ ho => ho.makesNothing)
    | stop id => exact makesNothing_kept (stopJob_only.mono fun _ ho => ho.makesNothing)
    | drain fuel => exact makesNothing_kept (drainPendingJobs_only.mono fun _ ho => ho.makesNothing)

end Walk

/-! ### The invariant -/

/-- The job has been made for the group of the run. -/
def World.IsJobOf (w : World) (e : RunJob) : Prop :=
  ∃ job, w.job e.id = some job ∧ job.planRunId = some e.run ∧ job.planGroupIndex = some e.group

/-- What the stored records list has been made for their runs, and nothing is listed twice. -/
def World.RecordsSound (w : World) : Prop :=
  ∀ R run, w.run R = some run → run.id = R ∧ run.jobIdsByGroup.flatten.Nodup ∧
    ∀ e, run.Lists e → w.IsJobOf e ∧ e.id < w.nextUuid

section Invariant

variable {ι : Type} [DecidableEq ι] {w₀ w w' : World} {h : List (ι × Event commands)}
  {u : ι → JobHold} {c : ι → RecordView} {i : ι} {o : Op} {a : Answer} {r : o.Res} {e : RunJob}

/-- The job is known to a process, or listed by a record. -/
private def Held (c : ι → RecordView) (w : World) (e : RunJob) : Prop :=
  (∃ i, e ∈ (c i).known) ∨ ∃ R run, w.run R = some run ∧ run.Lists e

/-- **What is known and listed is right.** -/
private structure Recorded (u : ι → JobHold) (c : ι → RecordView) (w : World) : Prop where
  held : ∀ e, Held c w e → w.IsJobOf e ∧ e.id < w.nextUuid ∧ ∀ i, u i ≠ .made e.id
  records : ∀ R run, w.run R = some run → run.id = R ∧ run.jobIdsByGroup.flatten.Nodup
  stored : ∀ i R, R ∈ (c i).stored → w.run R ≠ none

/-- The records after a step. -/
private theorem run_step (henv : environment o a w = some (r, w')) (R : Uuid) :
    w'.run R = w.run R ∨ ∃ run, o = .setRun run ∧ run.id = R ∧ w'.run R = some run := by
  have hruns : w'.runs = o.runsAfter w := (after_step henv).runs
  rw [World.run, hruns]
  cases o with
  | setRun run =>
    by_cases hR : R = run.id
    · subst hR
      exact .inr ⟨run, rfl, rfl, AList.lookup_insert _⟩
    · exact .inl (AList.lookup_insert_ne hR)
  | _ => exact .inl rfl

section Step

variable (hc : Recorded u c w) (hd : Dispatched w₀.queue h u w)
  (hjob : jobProtocol.Permits (u i) o) (hrecord : recordProtocol.Permits (c i) o)
  (henv : environment o a w = some (r, w'))

include hrecord henv in
/-- What is held after a step was held before, or has just been made. -/
private theorem held_or_made (he : Held (Function.update c i ((c i).after o r)) w' e) :
    Held c w e ∨ ∃ f, o = .hset e.id f ∧ MakesFor f e := by
  rcases he with ⟨j, hj⟩ | ⟨R, run, hrun, hlists⟩
  · by_cases hji : j = i
    · subst hji
      rw [Function.update_self] at hj
      cases o with
      | getRun id =>
        have hpair : (w.run id, w) = (r, w') := Option.some.inj henv
        obtain ⟨rfl, -⟩ := Prod.mk.inj hpair
        cases hfound : w.run id with
        | none =>
          rw [hfound] at hj
          exact .inl (.inl ⟨j, hj⟩)
        | some run =>
          rw [hfound] at hj
          exact .inl (hj.imp (fun hold => ⟨j, hold⟩) fun hnew => ⟨id, run, hfound, hnew⟩)
      | hset id f =>
        rcases hj with hold | ⟨rfl, hmakes⟩
        · exact .inl (.inl ⟨j, hold⟩)
        · exact .inr ⟨f, rfl, hmakes⟩
      | _ => exact .inl (.inl ⟨j, hj⟩)
    · rw [Function.update_of_ne hji] at hj
      exact .inl (.inl ⟨j, hj⟩)
  · rcases run_step henv R with hsame | ⟨run', rfl, rfl, hset⟩
    · exact .inl (.inr ⟨R, run, hsame ▸ hrun, hlists⟩)
    · obtain rfl := Option.some.inj (hset.symm.trans hrun)
      exact .inl (.inl ⟨i, hrecord.known e hlists⟩)

/-- A write that keeps what a job is about does not make a job of a run. -/
private theorem not_makesFor {f : Instant → Job → Job} (hf : KeepsOrigin f) : ¬ MakesFor f e := by
  rintro ⟨hmakes, -⟩
  have hnone : (f 0 {}).planRunId = none := congrArg (·.2.2.2.1) (hf 0 {})
  rw [hnone] at hmakes
  cases hmakes

include hd hjob hrecord henv in
/-- A job that has just been made is a new one. -/
private theorem made_step {f : Instant → Job → Job} (ho : o = .hset e.id f)
    (hmakes : MakesFor f e) :
    w'.IsJobOf e ∧ e.id < w'.nextUuid ∧
      ∀ j, Function.update u i ((u i).after o r) j ≠ .made e.id := by
  subst ho
  have hmade : u i = .made e.id := hjob.resolve_right fun hkeeps => not_makesFor hkeeps hmakes
  have hown : (u i).own = some e.id := congrArg JobHold.own hmade
  refine ⟨?_, ?_, fun j => ?_⟩
  · have hconst := hrecord.resolve_left fun hkeeps => not_makesFor hkeeps hmakes
    have hjobs : w'.jobs = (w.setJob e.id f).jobs := (after_step henv).jobs
    have horigin := hconst w.clock ((w.job e.id).getD {})
    refine ⟨_, ?_, (congrArg (·.2.2.2.1) horigin).trans hmakes.1,
      (congrArg (·.2.2.2.2.1) horigin).trans hmakes.2⟩
    rw [World.job, hjobs]
    exact World.job_setJob w e.id f
  · rw [(after_step henv).nextUuid]
    exact (hd.minted.own i e.id hown).1
  · by_cases hji : j = i
    · subst hji
      rw [Function.update_self, JobHold.after, if_pos hmade]
      rintro ⟨⟩
    · rw [Function.update_of_ne hji]
      exact fun hj => hji (hd.minted.exclusive j i e.id (congrArg JobHold.own hj) hown)

include hc hjob henv in
/-- A job stays the job of its group. -/
private theorem kept_step (he : Held c w e) :
    w'.IsJobOf e ∧ e.id < w'.nextUuid ∧
      ∀ j, Function.update u i ((u i).after o r) j ≠ .made e.id := by
  obtain ⟨⟨job, hfound, hrun, hgroup⟩, hlt, hnew⟩ := hc.held e he
  have hnext : w'.nextUuid = o.uuidAfter w := (after_step henv).nextUuid
  refine ⟨?_, ?_, fun j => ?_⟩
  · rcases job_step henv e.id with hsame | ⟨f, ho, hwrite⟩
    · exact ⟨job, hsame.trans hfound, hrun, hgroup⟩
    · -- only who has just made the id may write a hash that says something else
      have horigin : KeepsOrigin f := by
        rcases ho with rfl | rfl
        · exact hjob.resolve_left (hnew i)
        · exact hjob
      rw [hfound, Option.getD_some] at hwrite
      exact ⟨_, hwrite, (congrArg (·.2.2.2.1) (horigin w.clock job)).trans hrun,
        (congrArg (·.2.2.2.2.1) (horigin w.clock job)).trans hgroup⟩
  · rw [hnext]
    cases o with
    | uuid4 => exact Nat.lt_succ_of_lt hlt
    | _ => exact hlt
  · by_cases hji : j = i
    · subst hji
      rw [Function.update_self]
      intro hmade
      cases o with
      | uuid4 =>
        -- the id has been made before
        have hpair : (w.nextUuid, { w with nextUuid := w.nextUuid + 1 }) = (r, w') :=
          Option.some.inj henv
        obtain ⟨rfl, -⟩ := Prod.mk.inj hpair
        exact absurd hlt (JobHold.made.inj hmade ▸ lt_irrefl _)
      | hset id f =>
        by_cases hown : u j = .made id
        · rw [JobHold.after, if_pos hown] at hmade
          cases hmade
        · rw [JobHold.after, if_neg hown] at hmade
          exact hnew j hmade
      | hgetall id =>
        by_cases htaken : u j = .taken id
        · rw [JobHold.after, if_pos htaken] at hmade
          cases r with
          | none => exact hnew j hmade
          | some data => cases hmade
        · rw [JobHold.after, if_neg htaken] at hmade
          exact hnew j hmade
      | blpop => cases r <;> cases hmade
      | rpush _ | qemuRestore _ _ _ => cases hmade
      | _ => exact hnew j hmade
    · rw [Function.update_of_ne hji]
      exact hnew j

include hc hd hjob hrecord henv in
/-- **The step.** -/
private theorem Recorded.step : Recorded (Function.update u i ((u i).after o r))
    (Function.update c i ((c i).after o r)) w' := by
  refine ⟨fun e he => ?_, fun R run hrun => ?_, fun j R hj => ?_⟩
  · rcases held_or_made hrecord henv he with hold | ⟨f, ho, hmakes⟩
    · exact kept_step hc hjob henv hold
    · exact made_step hd hjob hrecord henv ho hmakes
  · rcases run_step henv R with hsame | ⟨run', rfl, rfl, hset⟩
    · exact hc.records R run (hsame ▸ hrun)
    · obtain rfl := Option.some.inj (hset.symm.trans hrun)
      exact ⟨rfl, hrecord.nodup⟩
  · have hkept : w.run R ≠ none → w'.run R ≠ none := fun hsome => by
      rcases run_step henv R with hsame | ⟨run', -, -, hset⟩
      · rwa [hsame]
      · rw [hset]
        rintro ⟨⟩
    by_cases hji : j = i
    · subst hji
      rw [Function.update_self] at hj
      cases o with
      | getRun id =>
        have hpair : (w.run id, w) = (r, w') := Option.some.inj henv
        obtain ⟨rfl, -⟩ := Prod.mk.inj hpair
        cases hfound : w.run id with
        | none =>
          rw [hfound] at hj
          exact hkept (hc.stored j R hj)
        | some run =>
          rw [hfound] at hj
          rcases hj with hold | rfl
          · exact hkept (hc.stored j R hold)
          · refine hkept ?_
            rw [(hc.records id run hfound).1, hfound]
            rintro ⟨⟩
      | setRun run =>
        rcases hj with hold | rfl
        · exact hkept (hc.stored j R hold)
        · have hruns : w'.runs = w.runs.insert run.id run := (after_step henv).runs
          rw [World.run, hruns, AList.lookup_insert]
          rintro ⟨⟩
      | _ => exact hkept (hc.stored j R hj)
    · rw [Function.update_of_ne hji] at hj
      exact hkept (hc.stored j R hj)

include hc henv in
omit [DecidableEq ι] in
private theorem Recorded.genuine : (c i).Genuine o r := by
  cases o with
  | getRun id =>
    have hpair : (w.run id, w) = (r, w') := Option.some.inj henv
    obtain ⟨rfl, -⟩ := Prod.mk.inj hpair
    exact ⟨hc.stored i id, hc.records id⟩
  | uuid4 =>
    have hpair : (w.nextUuid, { w with nextUuid := w.nextUuid + 1 }) = (r, w') :=
      Option.some.inj henv
    obtain ⟨rfl, -⟩ := Prod.mk.inj hpair
    exact fun e he => (hc.held e (.inl ⟨i, he⟩)).2.1.ne
  | _ => trivial

end Step

end Invariant

/-! ### The runs -/

section Run

variable {ι : Type} [DecidableEq ι] {cfg : Config} {mt : Matching} {polls : ℕ}
  {acts : ι → Activity} {w₀ w : World} {h : List (ι × Event commands)} {p : ι → Prog Unit}

/-- **The records are right.** In every run, each id that the record of a run lists under a group is
the id of a job that was made for this group of this run, and no id is listed twice. -/
theorem records_sound
    (hrun : Interleaved environment (fun _ _ => True)
      (fun i => (acts i).program cfg mt polls) w₀ h p w) (hw : w₀.QueueFresh)
    (hrecords : w₀.RecordsSound) : w.RecordsSound := by
  have hinit : Dispatched w₀.queue [] (fun _ : ι => .nothing) w₀ ∧
      Recorded (fun _ : ι => .nothing) (fun _ => {}) w₀ := by
    refine ⟨.start hw, fun e he => ?_, fun R run hR => ?_,
      fun i R hR => absurd hR (Set.notMem_empty R)⟩
    · rcases he with ⟨i, he⟩ | ⟨R, run, hR, hlists⟩
      · exact absurd he (Set.notMem_empty e)
      · obtain ⟨hjob, hlt⟩ := (hrecords R run hR).2.2 e hlists
        exact ⟨hjob, hlt, fun i => by rintro ⟨⟩⟩
    · exact ⟨(hrecords R run hR).1, (hrecords R run hR).2.1⟩
  refine Exists.elim (hrun.invariant_both jobProtocol recordProtocol RecordView.Genuine
    (fun h u c w => Dispatched w₀.queue h u w ∧ Recorded u c w)
    (fun i => (acts i).onProtocol) (fun i => (acts i).onRecords) hinit ?_) ?_
  · rintro h u c w i o a r w' ⟨hd, hc⟩ hjob hrecord henv -
    exact ⟨hc.genuine henv, hd.step hjob henv, hc.step hd hjob hrecord henv⟩
  · rintro u ⟨c, ⟨-, hc⟩, -⟩ R run hR
    obtain ⟨hid, hnodup⟩ := hc.records R run hR
    refine ⟨hid, hnodup, fun e hlists => ?_⟩
    obtain ⟨hjob, hlt, -⟩ := hc.held e (.inr ⟨R, run, hR, hlists⟩)
    exact ⟨hjob, hlt⟩

end Run

/-! ### A record that is written from an old copy -/

/-- A world that stores the run, and the job of its first group. -/
private def halfwayWorld : World where
  jobs := (∅ : AList fun _ : Uuid => Job).insert 7
    { state := some .COMPLETED, planRunId := some 1, planGroupIndex := some 0 }
  runs := AList.insert 1 (halfwayRun
    [{ backupId := "b", vmid := some 100, pveStorage := "pbs", voltail := "vm/100/t" }]) ∅
  active := [1]
  nextUuid := 8

private theorem halfwayWorld_fresh : halfwayWorld.QueueFresh where
  nodup := List.nodup_nil
  below := List.forall_mem_nil _

private theorem halfwayWorld_sound : halfwayWorld.RecordsSound := by
  intro R run hR
  by_cases hid : R = 1
  · subst hid
    obtain rfl := Option.some.inj ((AList.lookup_insert (∅ : AList _)).symm.trans hR)
    refine ⟨rfl, by decide, ?_⟩
    rintro ⟨R', k, id⟩ ⟨rfl, hmem⟩
    -- the record lists the job 7, under the first group
    rcases k with _ | _ | k
    · obtain rfl := List.mem_singleton.mp hmem
      exact ⟨⟨_, rfl, rfl, rfl⟩, by decide⟩
    · cases hmem
    · cases hmem
  · have hnone : halfwayWorld.run R = none := AList.lookup_insert_ne hid
    rw [hnone] at hR
    cases hR

/-- A worker that advances the run, and an operator who cancels it. -/
private def advanceAndCancel : Fin 2 → Activity
  | 0 => .iteration 2
  | 1 => .cancelRun 1

private abbrev advancePrograms : Fin 2 → Prog Unit := fun i =>
  (advanceAndCancel i).program {} .unused 0

/-- The worker reads the record, which the operator then writes; it makes a job, and writes the
record in turn. The record lists the new job, and all is right. -/
theorem records_sound_halfway : ∃ h p w,
    Interleaved environment (fun _ _ => True) advancePrograms halfwayWorld h p w ∧
      (w.run 1).any (fun run => run.jobIdsByGroup == [[7], [8]]) = true ∧ w.RecordsSound := by
  have hshown : (interleave environment (fun _ _ => true)
      ((List.replicate 3 0 ++ List.replicate 5 1 ++ List.replicate 9 (0 : Fin 2)).map
        fun i => (i, .ok)) [] advancePrograms halfwayWorld).any (fun end_ =>
          (end_.2.2.run 1).any fun run => run.jobIdsByGroup == [[7], [8]]) = true := by
    decide +kernel
  obtain ⟨h, p, w, hrun, hend⟩ := exists_interleaved (fun _ _ _ => trivial) hshown
  exact ⟨h, p, w, hrun, hend, records_sound hrun halfwayWorld_fresh halfwayWorld_sound⟩

end RestoreEngine
