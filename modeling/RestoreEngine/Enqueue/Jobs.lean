import RestoreEngine.Enqueue.Steps
import RestoreEngine.Runs.Writers

/-!
# The jobs that `enqueue_restores` makes for a run

`enqueue_restores` is an `enqueue_fn` as the writers of a run expect it: it makes a job for each
row of its request, in their order, and returns their ids (`enqueueRestores_keeps`). It may raise
after some of them.
-/

namespace RestoreEngine

open Effects Prog Program

variable {R : Uuid} {m m' : RunView} {req : EnqueueRequest}

/-- The jobs of the group may be made, those with the given backups as the next ones. -/
private structure RunView.MakesNext (R : Uuid) (req : EnqueueRequest) (backups : List String)
    (h : PlanRun) (k : ℕ) (m : RunView) : Prop where
  held : m.held = some h
  status : h.status = .RUNNING
  index : req.planGroupIndex = some k
  same : ∀ e ∈ m.made, e.group = some k
  jobs : h.jobsAt k = []
  backups : List.IsPrefix (m.made.map (·.backupId) ++ backups) ((m.rowsAt h k).map (·.backupId))
  first : h.pendingGroupRows = none → m.owns = true ∧ k = h.currentGroupIndex
  next : h.pendingGroupRows ≠ none → h.IsNext h.currentGroupIndex k

/-- The rows of a group, for a program that has the same rows in hand. -/
private theorem RunView.rowsAt_congr (hrows : m'.rows = m.rows) (h : PlanRun) (k : ℕ) :
    m'.rowsAt h k = m.rowsAt h k := by
  rw [RunView.rowsAt, RunView.rowsAt, hrows]

private theorem RunView.MakesNext.past {backups : List String} {h : PlanRun} {k : ℕ}
    (hm : m.MakesNext R req backups h k) (hpast : m.Past m') : m'.MakesNext R req backups h k where
  held := hpast.held.trans hm.held
  status := hm.status
  index := hm.index
  same := hpast.made.symm ▸ hm.same
  jobs := hm.jobs
  backups := by
    rw [hpast.made, RunView.rowsAt_congr hpast.rows]
    exact hm.backups
  first hnone := ⟨hpast.owns (hm.first hnone).1, (hm.first hnone).2⟩
  next := hm.next

/-- The command that stores the job of a row. -/
private abbrev storeJob (req : EnqueueRequest) (id : Uuid) (row : Row) (sourceVmid vmid : ℤ)
    (node storage archive : String) (now : Instant) : Op :=
  .hset id fun _ => req.newJob row sourceVmid vmid node storage archive now

private theorem madeFor_storeJob {id : Uuid} {row : Row} {sourceVmid vmid : ℤ}
    {node storage archive : String} {now : Instant} :
    (storeJob req id row sourceVmid vmid node storage archive now).madeFor R =
      if req.planRunId = some R then some ⟨req.planGroupIndex, id, row.backupId⟩ else none := rfl

/-- What the writing loop makes. -/
private structure Wrote (R : Uuid) (req : EnqueueRequest) (backups : List String)
    (new : List Made) (out : Except Exn (List Uuid)) : Prop where
  other : req.planRunId ≠ some R → new = []
  result : ∀ ids k, out = .ok ids → req.planRunId = some R → req.planGroupIndex = some k →
    new.map (·.id) = ids ∧ new.map (·.backupId) = backups ∧ ∀ e ∈ new, e.group = some k

private theorem Wrote.raised {backups : List String} {e : Exn} :
    Wrote R req backups [] (.error e) :=
  ⟨fun _ => rfl, fun _ _ hout => by cases hout⟩

/-- The job of a row is stored. -/
private theorem storeJob_onRun {id : Uuid} {row : Row} {sourceVmid vmid : ℤ}
    {node storage archive : String} {now : Instant} {backups : List String}
    (hmaking : m.making = none)
    (hm : req.planRunId = some R → ∃ h k, m.MakesNext R req (row.backupId :: backups) h k) :
    Satisfies (runMachine R) (fun out m' => out = .ok () ∧
      m.Makes (if req.planRunId = some R then [⟨req.planGroupIndex, id, row.backupId⟩] else []) m' ∧
      (req.planRunId = some R → ∃ h k, m'.MakesNext R req backups h k) ∧
      (m'.making = some id → ∃ h, m'.held = some h ∧ h.status = .RUNNING)) m
      (issue (storeJob req id row sourceVmid vmid node storage archive now)) := by
  by_cases hplan : req.planRunId = some R
  · obtain ⟨h, k, hnext⟩ := hm hplan
    have hmade : (storeJob req id row sourceVmid vmid node storage archive now).madeFor R =
        some ⟨req.planGroupIndex, id, row.backupId⟩ := madeFor_storeJob.trans (if_pos hplan)
    have hpermits : (runProtocol R).Permits m
        (storeJob req id row sourceVmid vmid node storage archive now) := by
      intro e he
      obtain rfl := Option.some.inj (hmade.symm.trans he)
      refine ⟨h, k, hnext.held, hnext.status, hnext.index, hnext.same, hnext.jobs,
        List.IsPrefix.trans ?_ hnext.backups, hnext.first, hnext.next⟩
      exact ⟨backups, by simp⟩
    rw [if_pos hplan]
    refine (guarded_issue _).mpr ⟨hpermits, fun r _ => ⟨rfl, ?_, fun _ => ⟨h, k, ?_⟩, fun _ => ?_⟩⟩
    · rw [observe_hset hmade]
      exact ⟨rfl, rfl, rfl, fun howns => howns, rfl, rfl, rfl, rfl⟩
    · rw [observe_hset hmade]
      refine ⟨hnext.held, hnext.status, hnext.index, fun e he => ?_, hnext.jobs, ?_, hnext.first,
        hnext.next⟩
      · rcases List.mem_append.mp he with he | he
        · exact hnext.same e he
        · rw [List.mem_singleton.mp he]
          exact hnext.index
      · have hrows (e : Made) : (m.make e).rowsAt h k = m.rowsAt h k :=
          RunView.rowsAt_congr rfl h k
        rw [hrows]
        simpa [RunView.make] using hnext.backups
    · rw [observe_hset hmade]
      exact ⟨h, hnext.held, hnext.status⟩
  · have hspares : (storeJob req id row sourceVmid vmid node storage archive now).SparesRun R :=
      madeFor_storeJob.trans (if_neg hplan)
    rw [if_neg hplan]
    refine (guarded_issue _).mpr ⟨hspares.permits, fun r _ =>
      ⟨rfl, (hspares.observe r).makes, fun h => absurd h hplan, ?_⟩⟩
    rw [observe_hset_none hspares, hmaking]
    exact nofun

/-- The writing loop makes a job for each row. -/
private theorem writeJobs_onRun (L : List (Row × ℤ × String × String))
    (hm : req.planRunId = some R → ∃ h k, m.MakesNext R req (L.map (·.1.backupId)) h k) :
    Satisfies (runMachine R) (fun out m' => ∃ new, m.Makes new m' ∧
      Wrote R req (L.map (·.1.backupId)) new out) m (writeJobs req L) := by
  induction L generalizing m with
  | nil =>
    refine satisfies_ret.mpr ⟨[], (RunView.Past.refl m).makes, fun _ => rfl, ?_⟩
    intro ids k hout _ _
    obtain rfl := Except.ok.inj hout
    exact ⟨rfl, rfl, nofun⟩
  | cons entry rest ih =>
    obtain ⟨row, vmid, node, storage⟩ := entry
    rw [writeJobs, satisfies_bind]
    refine (guarded_issue .uuid4).mpr ⟨trivial, fun id _ => then_ok.mpr ?_⟩
    rw [satisfies_bind]
    refine (guarded_issue .utcNow).mpr ⟨trivial, fun now _ => then_ok.mpr ?_⟩
    have huuid : (Op.uuid4).SparesRun R := trivial
    have hpast : m.Past ((runProtocol R).observe m .uuid4 id) := huuid.observe (m := m) id
    have hmaking : ((runProtocol R).observe m .uuid4 id).making = none := rfl
    change Satisfies _ _ ((runProtocol R).observe m .uuid4 id) _
    generalize (runProtocol R).observe m .uuid4 id = m₁ at hpast hmaking
    have hm₁ : req.planRunId = some R →
        ∃ h k, m₁.MakesNext R req (row.backupId :: rest.map (·.1.backupId)) h k := fun hplan => by
      obtain ⟨h, k, hnext⟩ := hm hplan
      exact ⟨h, k, hnext.past hpast⟩
    rw [satisfies_bind, satisfies_ofExcept]
    cases archivePath row.pveStorage row.voltail with
    | error e => exact then_error.mpr ⟨[], hpast.makes, .raised⟩
    | ok archive =>
      rw [then_ok, satisfies_bind, satisfies_ofExcept]
      cases row.vmid with
      | none => exact then_error.mpr ⟨[], hpast.makes, .raised⟩
      | some sourceVmid =>
        rw [Option.elim_some, then_ok, satisfies_bind]
        refine (storeJob_onRun hmaking hm₁).mono ?_
        rintro _ m₂ ⟨rfl, hmakes, hm₂, hpush⟩
        rw [then_ok, satisfies_bind]
        refine (guarded_issue (.rpush id)).mpr ⟨hpush, fun r _ => then_ok.mpr ?_⟩
        have hmakes' := hpast.makes.trans hmakes
        obtain ⟨pushed, hpushed⟩ := observe_rpush (R := R) (m := m₂) r
        rw [hpushed]
        have hmakes' : m.Makes _ { m₂ with pushed } :=
          ⟨hmakes'.rows, hmakes'.blind, hmakes'.careful, hmakes'.owns, hmakes'.held,
            hmakes'.closed, hmakes'.made, hmakes'.log⟩
        have hm₃ : req.planRunId = some R → ∃ h k, RunView.MakesNext R req
            (rest.map (·.1.backupId)) h k { m₂ with pushed } := fun hplan => by
          obtain ⟨h, k, hnext⟩ := hm₂ hplan
          exact ⟨h, k, hnext.held, hnext.status, hnext.index, hnext.same, hnext.jobs,
            hnext.backups, hnext.first, hnext.next⟩
        refine (ih hm₃).bind ?_ ?_
        · rintro ids m₃ ⟨new, hmakes₃, hwrote⟩
          refine satisfies_ret.mpr ⟨_, hmakes'.trans hmakes₃, fun hplan => ?_, ?_⟩
          · rw [if_neg hplan, hwrote.other hplan]
            rfl
          · intro all k hout hplan hindex
            obtain ⟨hids, hbackups, hgroup⟩ := hwrote.result ids k rfl hplan hindex
            obtain rfl := Except.ok.inj hout
            rw [if_pos hplan]
            refine ⟨congrArg (id :: ·) hids, congrArg (row.backupId :: ·) hbackups, ?_⟩
            exact List.forall_mem_cons.mpr ⟨hindex, hgroup⟩
        · rintro e m₃ ⟨new, hmakes₃, hwrote⟩
          refine ⟨_, hmakes'.trans hmakes₃, fun hplan => ?_, fun _ _ hout => by cases hout⟩
          rw [if_neg hplan, hwrote.other hplan]
          rfl

/-! ### The whole program -/

/-- What is proved of the program. -/
private abbrev Kept (R : Uuid) (req : EnqueueRequest) (m : RunView)
    (out : Except Exn EnqueueResult) (m' : RunView) : Prop :=
  (false = true → ∃ result, out = .ok result) ∧ ∃ new, m.Enqueued R req new out m'

private theorem Kept.raised (hpast : m.Past m') (e : Exn) : Kept R req m (.error e) m' := by
  refine ⟨nofun, [], ?_⟩
  exact { hpast.makes with
    other := fun _ => rfl
    result := fun _ _ hout => by cases hout }

/-- A program that leaves the run alone, as a part of one that enqueues. -/
private theorem spares_bind {m₀ : RunView} {α : Type} {p : Prog α} {f : α → Prog EnqueueResult}
    (hm : m₀.Past m) (hp : p.Only (Op.SparesRun R))
    (hf : ∀ a m', m₀.Past m' → Satisfies (runMachine R) (Kept R req m₀) m' (f a)) :
    Satisfies (runMachine R) (Kept R req m₀) m (p >>= f) :=
  (spares_run hp).bind (fun a _ h => hf a _ (hm.trans h)) fun e _ h => Kept.raised (hm.trans h) e

/-- The rows of the writing loop are those of the request. -/
private theorem zip_rows {rows : List Row} {vmids : List ℤ} {nodes storages : List String}
    (hvmids : vmids.length = rows.length) (hnodes : nodes.length = rows.length)
    (hstorages : storages.length = rows.length) :
    (rows.zip (vmids.zip (nodes.zip storages))).map (·.1.backupId) = rows.map (·.backupId) := by
  have hfst : (rows.zip (vmids.zip (nodes.zip storages))).map Prod.fst = rows := by
    rw [List.map_fst_zip]
    simp only [List.length_zip, hvmids, hnodes, hstorages, Nat.min_self, le_refl]
  calc (rows.zip (vmids.zip (nodes.zip storages))).map (·.1.backupId)
      = ((rows.zip (vmids.zip (nodes.zip storages))).map Prod.fst).map (·.backupId) := by
        rw [List.map_map]
        rfl
    _ = rows.map (·.backupId) := by rw [hfst]

/-- **`enqueue_restores` is an `enqueue_fn`**, which may raise. -/
theorem enqueueRestores_keeps : EnqueueFn.Keeps R false enqueueRestores := by
  intro req m _ hmay
  have hdestroy {v : ℤ} {o : Op} (ho : o.OfDestroy (.enqueue req.planRunId) v) : o.SparesRun R := by
    cases o <;> trivial
  have hrefused : req.check = .ok () → ¬ req.Refused := fun hok => by
    rcases req.check_spec with ⟨-, h⟩ | ⟨text, herr, -⟩
    · exact h
    · rw [hok] at herr
      cases herr
  rw [enqueueRestores, satisfies_bind, satisfies_ofExcept]
  cases hcheck : req.check with
  | error e => exact then_error.mpr (Kept.raised (.refl m) e)
  | ok _ =>
    rw [then_ok]
    refine spares_bind (.refl m) ?_ fun _ m₁ h₁ => spares_bind h₁ ?_ fun inUse m₂ h₂ => ?_
    · exact Only.bind (only_perform.mpr trivial) fun _ => only_ofExcept
    · exact listInUse_only trivial
    rw [satisfies_bind, satisfies_ofExcept]
    cases halloc : req.allocate inUse with
    | error e => exact then_error.mpr (Kept.raised h₂ e)
    | ok vmids =>
      rw [then_ok]
      refine spares_bind h₂ (activeRestoreCountsByNode_only trivial fun _ => trivial)
        fun counts m₃ h₃ => ?_
      obtain ⟨nodes, storages, hplace, hnodes, hstorages⟩ :=
        req.place_spec counts (hrefused hcheck)
      rw [hplace, satisfies_bind]
      refine satisfies_ofExcept.mpr (then_ok.mpr ?_)
      refine spares_bind h₃ (reclaimStep_only.mono fun _ ⟨_, ho⟩ => hdestroy ho)
        fun _ m₄ h₄ => ?_
      have hrows := zip_rows (req.allocate_length halloc) hnodes hstorages
      refine (writeJobs_onRun _ fun hplan => ?_).bind ?_ ?_
      · obtain ⟨hmade, h, k, hheld, hstatus, hindex, hjobs, hsame, hfirst, hnext⟩ := hmay hplan
        have hnone : m₄.made = [] := h₄.made.trans hmade
        refine ⟨h, k, h₄.held.trans hheld, hstatus, hindex, ?_, hjobs, ?_,
          fun hpending => ⟨h₄.owns (hfirst hpending).1, (hfirst hpending).2⟩, hnext⟩
        · rw [hnone]
          exact nofun
        · rw [hnone, hrows, RunView.rowsAt_congr h₄.rows, ← hsame]
          exact List.prefix_rfl
      · rintro ids m₅ ⟨new, hmakes, hwrote⟩
        refine satisfies_ret.mpr ⟨nofun, new, { h₄.makes.trans hmakes with
          other := hwrote.other
          result := fun result k hout hplan hindex => ?_ }⟩
        obtain ⟨hids, hbackups, hgroup⟩ := hwrote.result ids k rfl hplan hindex
        obtain rfl := Except.ok.inj hout
        exact ⟨hids, hbackups.trans hrows, hgroup⟩
      · rintro e m₅ ⟨new, hmakes, hwrote⟩
        exact ⟨nofun, new, { h₄.makes.trans hmakes with
          other := hwrote.other
          result := fun _ _ hout => by cases hout }⟩

end RestoreEngine
