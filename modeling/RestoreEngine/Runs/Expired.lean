import RestoreEngine.Runs.Turns

/-!
# Runs whose jobs have expired

The hash of a job that has ended is kept for a while and then removed. A tick takes a job without a
hash for one that is PENDING, so that a run whose current group has ended moves on exactly if the
hashes of the group are all still there (`moves_iff_kept`). If the jobs of a group end at very
different times, or no tick comes for a long time, they are not.
-/

namespace RestoreEngine

open Effects Prog Program

variable {cfg : Config} {enqueueFn : EnqueueFn} {w w' : World} {run : PlanRun} {idx : ℕ}
  {removed : List Uuid}

/-! ### Removing hashes -/

/-- The world without the hashes of the jobs. -/
def World.dropJobs (w : World) (ids : List Uuid) : World :=
  { w with jobs := ids.foldl (fun jobs id => jobs.erase id) w.jobs }

theorem World.job_dropJobs (w : World) (ids : List Uuid) (id : Uuid) :
    (w.dropJobs ids).job id = if id ∈ ids then none else w.job id := by
  have hfold : ∀ (ids : List Uuid) (jobs : AList fun _ : Uuid => Job),
      (ids.foldl (fun jobs id => jobs.erase id) jobs).lookup id =
        if id ∈ ids then none else jobs.lookup id := by
    intro ids
    induction ids with
    | nil => exact fun jobs => (if_neg List.not_mem_nil).symm
    | cons first rest ih =>
      intro jobs
      rw [List.foldl_cons, ih]
      by_cases hid : id = first
      · subst hid
        rw [if_pos List.mem_cons_self, AList.lookup_erase, ite_self]
      · rw [AList.lookup_erase_ne hid]
        exact if_congr (by simp [hid]) rfl rfl
  exact hfold ids w.jobs

/-- The states of the jobs of the group at `idx`, as a tick reads them. -/
def World.statesAt (w : World) (run : PlanRun) (idx : ℕ) : List RestoreState :=
  (run.jobsAt idx).map fun id => ((w.job id).getD {}).stateOrPending

/-- Other hashes are not looked at. -/
theorem World.statesAt_dropJobs (hkept : ∀ id ∈ removed, id ∉ run.jobsAt idx) :
    (w.dropJobs removed).statesAt run idx = w.statesAt run idx := by
  refine List.map_congr_left fun id hid => ?_
  rw [World.job_dropJobs, if_neg fun hmem => hkept id hmem hid]

/-! ### The turn of a run -/

/-- Where the states of the jobs bring a run whose current group is the one at `idx`: nowhere before
the group has ended, and then to an end, or to the next group. -/
def World.nextOf (w : World) (run : PlanRun) (idx : ℕ) : Option (PlanRun ⊕ ℕ) :=
  if (w.statesAt run idx).all (·.IsTerminal) then some (run.outcome idx (w.statesAt run idx))
  else none

/-- The record is the one that `next` wants. -/
def PlanRun.Reaches (run run' : PlanRun) : Option (PlanRun ⊕ ℕ) → Prop
  | none => run' = run
  | some (.inl ended) => run'.status = ended.status
  | some (.inr nextIdx) => run'.status = .RUNNING ∧ run'.currentGroupIndex = nextIdx

/-- The turn of the run in a tick brings it where `next` says. -/
def TurnsTo (cfg : Config) (enqueueFn : EnqueueFn) (w : World) (run : PlanRun)
    (next : Option (PlanRun ⊕ ℕ)) : Prop :=
  ∀ out w', Ends environment (advanceRun cfg enqueueFn run.id) w out w' →
    ∃ run', w'.run run.id = some run' ∧ run.Reaches run' next

/-- A run whose current group has jobs waits for them. -/
private theorem satisfies_advanceRun_awaiting {Q : Except Exn Bool → World → Prop}
    (hrun : w.run run.id = some run) (hstatus : run.status = .RUNNING)
    (hcurrent : run.IsNext run.currentGroupIndex idx) (hjobs : run.jobsAt idx ≠ []) :
    Satisfies environment.machine Q w (advanceRun cfg enqueueFn run.id) ↔
      Satisfies environment.machine Q w (awaitGroup cfg run idx) := by
  have hidx := (PlanRun.isNext_nextGroup hcurrent.not_runsOut).unique hcurrent
  rw [satisfies_advanceRun hrun hstatus, advanceRunning, hidx,
    if_neg (Nat.not_le.mpr hcurrent.lt), if_neg hjobs]

/-- **The turn of a run** that waits for a group. -/
private theorem turnsTo_nextOf (hrun : w.run run.id = some run) (hstatus : run.status = .RUNNING)
    (hcurrent : run.IsNext run.currentGroupIndex idx) (hjobs : run.jobsAt idx ≠ []) :
    TurnsTo cfg enqueueFn w run (w.nextOf run idx) := by
  refine fun out w' hends => hends.post
    (Q := fun _ w' => ∃ run', w'.run run.id = some run' ∧ run.Reaches run' (w.nextOf run idx)) ?_
  rw [satisfies_advanceRun_awaiting hrun hstatus hcurrent hjobs, awaitGroup, satisfies_bind,
    satisfies_jobStates, then_ok, ← World.statesAt, World.nextOf]
  refine Satisfies.ite (fun hall => ?_) fun hwaits => ?_
  · rw [if_pos hall]
    cases houtcome : run.outcome idx (w.statesAt run idx) with
    | inl ended =>
      obtain ⟨status, error, current, -, rfl⟩ := outcome_spec houtcome
      refine endRun_settles.mono ?_
      rintro out w' ⟨-, run', hrun', hsettles⟩
      exact ⟨run', hrun', hsettles.status⟩
    | inr nextIdx =>
      dsimp only
      rw [satisfies_bind, satisfies_savePlanRun, then_ok, pure_eq_ret, satisfies_ret]
      exact ⟨_, World.run_setRun _ _, hstatus, rfl⟩
  · rw [if_neg hwaits]
    exact satisfies_ret.mpr ⟨run, hrun, rfl⟩

/-- A group that follows is a later one. -/
private theorem outcome_later {states : List RestoreState} {nextIdx : ℕ}
    (h : run.outcome idx states = .inr nextIdx) : idx < nextIdx := by
  rw [PlanRun.outcome] at h
  dsimp only at h
  split_ifs at h with hhalt hcancel hout
  rw [← Sum.inr.inj h]
  have hrest := mt (run.length_le_nextGroup_iff (idx + 1)).mpr hout
  exact (PlanRun.isNext_nextGroup hrest).le

/-- A run that stays where it is does not move on. -/
private theorem not_reaches_self (hstatus : run.status = .RUNNING)
    (hcurrent : run.IsNext run.currentGroupIndex idx) (states : List RestoreState) :
    ¬ run.Reaches run (some (run.outcome idx states)) := by
  intro hreaches
  cases houtcome : run.outcome idx states with
  | inl ended =>
    rw [houtcome] at hreaches
    obtain ⟨status, error, current, hne, rfl⟩ := outcome_spec houtcome
    have hsame : run.status = status := hreaches
    exact hne (hsame.symm.trans hstatus)
  | inr nextIdx =>
    rw [houtcome] at hreaches
    have hlater := outcome_later houtcome
    have hle := hcurrent.le
    obtain ⟨-, hindex⟩ := hreaches
    omega

/-- Without the hash of one of its jobs a group has not ended. -/
private theorem nextOf_removed {id : Uuid} (hid : id ∈ run.jobsAt idx) (hnone : w.job id = none) :
    w.nextOf run idx = none := by
  rw [World.nextOf, if_neg]
  intro hall
  have hpending := List.all_eq_true.mp hall _ (List.mem_map.mpr ⟨id, hid, rfl⟩)
  rw [hnone] at hpending
  cases hpending

/-- A run with a stored record has a turn that ends. -/
private theorem exists_turn (w : World) (hrun : w.run run.id = some run)
    (hstatus : run.status = .RUNNING) (hcurrent : run.IsNext run.currentGroupIndex idx)
    (hjobs : run.jobsAt idx ≠ []) (hnone : w.nextOf run idx = none) :
    Ends environment (advanceRun cfg enqueueFn run.id) w (.ok false) w := by
  refine (ends_congr fun Q => ?_).mpr (.ret false w)
  rw [satisfies_advanceRun_awaiting hrun hstatus hcurrent hjobs, awaitGroup, satisfies_bind,
    satisfies_jobStates, then_ok, ← World.statesAt, if_neg]
  · rfl
  · intro hall
    rw [World.nextOf, if_pos hall] at hnone
    cases hnone

/-- **When a run moves on as if no hash had been removed.** The run waits for the jobs of its
current group, and hashes of jobs that have ended are removed. The turn of the run in the next tick
brings it where it would have come with all hashes (to the next group, or to the same end), exactly
if the group has not ended yet or the hashes of its jobs are all still there. -/
theorem moves_iff_kept (cfg : Config) (enqueueFn : EnqueueFn) (hrun : w.run run.id = some run)
    (hstatus : run.status = .RUNNING) (hcurrent : run.IsNext run.currentGroupIndex idx)
    (hjobs : run.jobsAt idx ≠ []) (removed : List Uuid)
    (hremoved : ∀ id ∈ removed, ∃ job, w.job id = some job ∧
      job.stateOrPending.IsTerminal = true) :
    TurnsTo cfg enqueueFn w run (w.nextOf run idx) ∧
      (TurnsTo cfg enqueueFn (w.dropJobs removed) run (w.nextOf run idx) ↔
        ((∀ s ∈ w.statesAt run idx, s.IsTerminal = true) →
          ∀ id ∈ removed, id ∉ run.jobsAt idx)) := by
  have hstored : (w.dropJobs removed).run run.id = some run := hrun
  refine ⟨turnsTo_nextOf hrun hstatus hcurrent hjobs, fun hturns hended id hid hmem => ?_,
    fun hkept => ?_⟩
  · have hgone : (w.dropJobs removed).job id = none := by
      rw [World.job_dropJobs, if_pos hid]
    obtain ⟨run', hrun', hreaches⟩ := hturns _ _
      (exists_turn _ hstored hstatus hcurrent hjobs (nextOf_removed hmem hgone))
    obtain rfl := Option.some.inj (hstored.symm.trans hrun')
    rw [World.nextOf, if_pos (List.all_eq_true.mpr hended)] at hreaches
    exact not_reaches_self hstatus hcurrent _ hreaches
  · by_cases hended : ∀ s ∈ w.statesAt run idx, s.IsTerminal = true
    · have hsame : (w.dropJobs removed).nextOf run idx = w.nextOf run idx := by
        rw [World.nextOf, World.statesAt_dropJobs (hkept hended), World.nextOf]
      exact hsame ▸ turnsTo_nextOf hstored hstatus hcurrent hjobs
    · -- a job that has not ended is still there, and still has not ended
      have hwaits : ∀ v : World, (∃ s ∈ v.statesAt run idx, ¬ s.IsTerminal = true) →
          v.nextOf run idx = none := by
        rintro v ⟨s, hs, hnot⟩
        rw [World.nextOf, if_neg fun hall => hnot (List.all_eq_true.mp hall s hs)]
      simp only [not_forall] at hended
      obtain ⟨s, hs, hnot⟩ := hended
      rw [hwaits w ⟨s, hs, hnot⟩]
      obtain ⟨id, hid, rfl⟩ := List.mem_map.mp hs
      have hkept : id ∉ removed := by
        intro hmem
        obtain ⟨job, hjob, hterminal⟩ := hremoved id hmem
        rw [hjob] at hnot
        exact hnot hterminal
      have hgone := hwaits (w.dropJobs removed) ⟨_, List.mem_map.mpr ⟨id, hid, rfl⟩, by
        rwa [World.job_dropJobs, if_neg hkept]⟩
      exact hgone ▸ turnsTo_nextOf hstored hstatus hcurrent hjobs

/-! ### A group whose jobs end at different times -/

/-- A run with a group of two jobs. -/
def longRun : PlanRun :=
  { id := 5, planId := 1, status := .RUNNING, locationId := 3, node := "pve", nodes := ["pve"]
    storage := "local", vmidStart := 100, groupIds := [2], jobIdsByGroup := [[10, 11]] }

/-- The world in which both jobs have ended, the first one so long ago that its hash is about to
expire. -/
def longWorld : World where
  jobs := ((∅ : AList fun _ : Uuid => Job).insert 11 { state := some .COMPLETED }).insert 10
    { state := some .COMPLETED }
  expiring := [11, 10]
  runs := (∅ : AList fun _ : Uuid => PlanRun).insert 5 longRun
  active := [5]

private theorem longRun_current : longRun.IsNext longRun.currentGroupIndex 0 := by
  refine ⟨le_refl 0, by decide, .inl (by decide), fun m _ hm => ?_⟩
  omega

private theorem longRun_stored : longWorld.run longRun.id = some longRun := AList.lookup_insert _

private theorem longWorld_next :
    longWorld.nextOf longRun 0 = some (longRun.outcome 0 (longWorld.statesAt longRun 0)) := by
  rw [World.nextOf, if_pos (by decide)]

/-- With all hashes the run is COMPLETED by the next tick. Without the one that expires first it is
left RUNNING. -/
theorem long_run_left : ∃ (w : World) (run : PlanRun) (idx : ℕ) (removed : List Uuid),
    w.run run.id = some run ∧ run.status = .RUNNING ∧ run.IsNext run.currentGroupIndex idx ∧
      run.jobsAt idx ≠ [] ∧ (∀ s ∈ w.statesAt run idx, s.IsTerminal = true) ∧
      (∀ id ∈ removed, id ∈ w.expiring) ∧
      ¬ TurnsTo {} enqueueRestores (w.dropJobs removed) run (w.nextOf run idx) ∧
      Ends environment (advanceRun {} enqueueRestores run.id) (w.dropJobs removed) (.ok false)
        (w.dropJobs removed) := by
  have hstored : (longWorld.dropJobs [10]).run longRun.id = some longRun := longRun_stored
  have hgone : (longWorld.dropJobs [10]).job 10 = none := by
    rw [World.job_dropJobs, if_pos List.mem_cons_self]
  have hstays : Ends environment (advanceRun {} enqueueRestores longRun.id)
      (longWorld.dropJobs [10]) (.ok false) (longWorld.dropJobs [10]) :=
    exists_turn _ hstored rfl longRun_current (by decide) (nextOf_removed (by decide) hgone)
  refine ⟨longWorld, longRun, 0, [10], longRun_stored, rfl, longRun_current, by decide, by decide,
    by decide, fun hturns => ?_, hstays⟩
  obtain ⟨run', hrun', hreaches⟩ := hturns _ _ hstays
  obtain rfl := Option.some.inj (hstored.symm.trans hrun')
  rw [longWorld_next] at hreaches
  exact not_reaches_self rfl longRun_current _ hreaches

/-- The run without the hash, by the theorem on all removals. -/
theorem moves_iff_kept_long :
    TurnsTo {} enqueueRestores longWorld longRun (longWorld.nextOf longRun 0) ∧
      (TurnsTo {} enqueueRestores (longWorld.dropJobs [10]) longRun (longWorld.nextOf longRun 0) ↔
        ((∀ s ∈ longWorld.statesAt longRun 0, s.IsTerminal = true) →
          ∀ id ∈ [10], id ∉ longRun.jobsAt 0)) := by
  refine moves_iff_kept {} enqueueRestores longRun_stored rfl longRun_current (by decide) [10] ?_
  intro id hid
  obtain rfl := List.mem_singleton.mp hid
  exact ⟨_, AList.lookup_insert _, rfl⟩

end RestoreEngine
