import RestoreEngine.Runs.Ending

/-!
# Ticks

What one undisturbed tick of `advanceRun` does to a RUNNING run. It ends the run as COMPLETED
exactly when no group is left or the last one has passed (`World.EndsCompleted`); then the tick
is `endRun` on the completed record (`advanceRun_completes`). Otherwise it leaves the plans alone
or ends the run with another status (`advanceRun_spec`).
-/

namespace RestoreEngine

open Effects Prog Program

variable {w w' : World} {plan : Plan} {run : PlanRun} {runId : Uuid} {idx : ℕ}

/-! ### The groups that are left -/

namespace PlanRun

/-- The group at `i` has jobs, or stashed rows to make jobs of. -/
def HasGroup (run : PlanRun) (i : ℕ) : Prop := run.jobsAt i ≠ [] ∨ run.rowsAt i ≠ []

/-- No group from `i` on has jobs or rows. -/
def RunsOut (run : PlanRun) (i : ℕ) : Prop :=
  ∀ k, i ≤ k → k < run.jobIdsByGroup.length → ¬ run.HasGroup k

/-- The group at `k` is the first one from `i` on with jobs or rows. -/
structure IsNext (run : PlanRun) (i k : ℕ) : Prop where
  le : i ≤ k
  lt : k < run.jobIdsByGroup.length
  has : run.HasGroup k
  skipped : ∀ m, i ≤ m → m < k → ¬ run.HasGroup m

private theorem nextGroup_spec (run : PlanRun) (fuel i : ℕ) :
    i ≤ run.nextGroup fuel i ∧ (∀ m, i ≤ m → m < run.nextGroup fuel i → ¬ run.HasGroup m) ∧
      (run.jobIdsByGroup.length ≤ i + fuel → run.nextGroup fuel i < run.jobIdsByGroup.length →
        run.HasGroup (run.nextGroup fuel i)) := by
  induction fuel generalizing i with
  | zero =>
    refine ⟨le_rfl, fun m hm hlt => absurd hlt (by simpa [nextGroup] using hm), fun hlen hlt => ?_⟩
    rw [nextGroup] at hlt
    omega
  | succ fuel ih =>
    rw [nextGroup]
    split_ifs with hskip
    · obtain ⟨hle, hskipped, hhas⟩ := ih (i + 1)
      refine ⟨by omega, fun m hm hlt => ?_, fun hlen => hhas (by omega)⟩
      rcases Nat.eq_or_lt_of_le hm with rfl | hm
      · exact not_or.mpr ⟨not_not.mpr hskip.2.1, not_not.mpr hskip.2.2⟩
      · exact hskipped m hm hlt
    · refine ⟨le_rfl, fun m hm hlt => absurd hlt (by omega), fun _ hlt => ?_⟩
      by_contra hnone
      exact hskip ⟨hlt, not_not.mp (not_or.mp hnone).1, not_not.mp (not_or.mp hnone).2⟩

theorem length_le_nextGroup_iff (run : PlanRun) (i : ℕ) :
    run.jobIdsByGroup.length ≤ run.nextGroup run.jobIdsByGroup.length i ↔ run.RunsOut i := by
  obtain ⟨hle, hskipped, hhas⟩ := run.nextGroup_spec run.jobIdsByGroup.length i
  constructor
  · intro hlen k hk hlt
    exact hskipped k hk (by omega)
  · intro hout
    by_contra hlt
    exact hout _ hle (by omega) (hhas (by omega) (by omega))

theorem isNext_nextGroup {i : ℕ} (h : ¬ run.RunsOut i) :
    run.IsNext i (run.nextGroup run.jobIdsByGroup.length i) := by
  have hlt := mt (run.length_le_nextGroup_iff i).mp h
  obtain ⟨hle, hskipped, hhas⟩ := run.nextGroup_spec run.jobIdsByGroup.length i
  exact ⟨hle, by omega, hhas (by omega) (by omega), hskipped⟩

theorem IsNext.unique {i k k' : ℕ} (h : run.IsNext i k) (h' : run.IsNext i k') : k = k' := by
  rcases Nat.lt_trichotomy k k' with hlt | rfl | hlt
  · exact absurd h.has (h'.skipped k h.le hlt)
  · rfl
  · exact absurd h'.has (h.skipped k' h'.le hlt)

theorem IsNext.not_runsOut {i k : ℕ} (h : run.IsNext i k) : ¬ run.RunsOut i :=
  fun hout => hout k h.le h.lt h.has

end PlanRun

/-! ### When a tick ends a run as COMPLETED -/

/-- The jobs of the group at `idx` have ended, and not in a way that fails or cancels the run. -/
structure World.GroupPassed (w : World) (run : PlanRun) (idx : ℕ) : Prop where
  jobs : run.jobsAt idx ≠ []
  terminal : ∀ id ∈ run.jobsAt idx, ((w.job id).getD {}).stateOrPending.IsTerminal = true
  noHalt : run.haltOnError = true →
    ∀ id ∈ run.jobsAt idx, ((w.job id).getD {}).stateOrPending ≠ .FAILED
  notCancelled : (∃ id ∈ run.jobsAt idx, ((w.job id).getD {}).stateOrPending = .CANCELLED) →
    ∃ id ∈ run.jobsAt idx, ((w.job id).getD {}).stateOrPending = .COMPLETED

/-- The next tick ends the run as COMPLETED: no group is left, or the last one has passed. -/
def World.EndsCompleted (w : World) (run : PlanRun) : Prop :=
  run.RunsOut run.currentGroupIndex ∨
    ∃ idx, run.IsNext run.currentGroupIndex idx ∧ run.RunsOut (idx + 1) ∧ w.GroupPassed run idx

@[simp] theorem satisfies_jobStates {ids : List Uuid}
    {Q : Except Exn (List RestoreState) → World → Prop} :
    Satisfies environment.machine Q w (jobStates ids) ↔
      Q (.ok (ids.map fun id => ((w.job id).getD {}).stateOrPending)) w := by
  induction ids generalizing Q with
  | nil => exact satisfies_ret
  | cons id rest ih => simp [jobStates, ih]

/-- What ends a run after a group keeps its course, apart from the status. -/
theorem outcome_spec {states : List RestoreState} {ended : PlanRun}
    (h : run.outcome idx states = .inl ended) :
    ∃ status error current, status ≠ .RUNNING ∧
      ended = { run with status, error, currentGroupIndex := current } := by
  rw [PlanRun.outcome] at h
  dsimp only at h
  split_ifs at h
  · exact ⟨.FAILED, _, run.currentGroupIndex, nofun, (Sum.inl.inj h).symm⟩
  · exact ⟨.CANCELLED, run.error, run.currentGroupIndex, nofun, (Sum.inl.inj h).symm⟩
  · exact ⟨.COMPLETED, run.error, _, nofun, (Sum.inl.inj h).symm⟩

/-- A group that has ended ends the run as COMPLETED exactly if it has passed and is the last. -/
private theorem outcome_completed_iff
    (hterminal : ∀ id ∈ run.jobsAt idx, ((w.job id).getD {}).stateOrPending.IsTerminal = true)
    (hjobs : run.jobsAt idx ≠ []) :
    (∃ ended, run.outcome idx
        ((run.jobsAt idx).map fun id => ((w.job id).getD {}).stateOrPending) = .inl ended ∧
          ended.status = .COMPLETED) ↔
      run.RunsOut (idx + 1) ∧ w.GroupPassed run idx := by
  have hfailed : 0 < ((run.jobsAt idx).map fun id =>
      ((w.job id).getD {}).stateOrPending).countP (· = .FAILED) ↔
        ∃ id ∈ run.jobsAt idx, ((w.job id).getD {}).stateOrPending = .FAILED := by
    simp [List.countP_pos_iff]
  rw [PlanRun.outcome]
  dsimp only
  split_ifs with hhalt hcancel hout
  · refine iff_of_false (by rintro ⟨ended, h, hs⟩; cases h; cases hs) ?_
    rintro ⟨-, hpassed⟩
    obtain ⟨id, hid, hstate⟩ := hfailed.mp hhalt.1
    exact hpassed.noHalt hhalt.2 id hid hstate
  · refine iff_of_false (by rintro ⟨ended, h, hs⟩; cases h; cases hs) ?_
    rintro ⟨-, hpassed⟩
    obtain ⟨id, hid, hstate⟩ := hpassed.notCancelled (List.mem_map.mp hcancel.1)
    exact hcancel.2.1 (List.mem_map.mpr ⟨id, hid, hstate⟩)
  · refine iff_of_true ⟨_, rfl, rfl⟩ ⟨(run.length_le_nextGroup_iff _).mp hout, hjobs, hterminal,
      fun hreq id hid hstate => hhalt ⟨hfailed.mpr ⟨id, hid, hstate⟩, hreq⟩, fun hsome => ?_⟩
    by_contra hnone
    refine hcancel ⟨List.mem_map.mpr hsome, fun hmem => hnone (List.mem_map.mp hmem), ?_⟩
    rintro s hs
    obtain ⟨id, hid, rfl⟩ := List.mem_map.mp hs
    have hterm := hterminal id hid
    cases hstate : ((w.job id).getD {}).stateOrPending with
    | CANCELLED => exact .inl rfl
    | FAILED => exact .inr rfl
    | COMPLETED => exact absurd ⟨id, hid, hstate⟩ hnone
    | PENDING | RESTORING => rw [hstate] at hterm; cases hterm
  · refine iff_of_false (by rintro ⟨ended, h, -⟩; cases h) ?_
    rintro ⟨hruns, -⟩
    exact hout ((run.length_le_nextGroup_iff _).mpr hruns)

/-! ### The tick -/

theorem satisfies_advanceRun {cfg : Config} {enqueueFn : EnqueueFn}
    {Q : Except Exn Bool → World → Prop} (hrun : w.run runId = some run)
    (hstatus : run.status = .RUNNING) :
    Satisfies environment.machine Q w (advanceRun cfg enqueueFn runId) ↔
      Satisfies environment.machine Q w (advanceRunning cfg enqueueFn run) := by
  rw [advanceRun, satisfies_bind, satisfies_getRun, then_ok, hrun, Option.filter_some]
  simp only [hstatus, decide_true, if_true]

/-- The completed record that a run is ended with. -/
def PlanRun.completed (run : PlanRun) (idx : ℕ) : PlanRun :=
  { run with status := .COMPLETED, currentGroupIndex := idx }

/-- **A tick that completes a run** is the ending of its completed record. -/
theorem advanceRun_completes (cfg : Config) (enqueueFn : EnqueueFn)
    (hrun : w.run runId = some run) (hstatus : run.status = .RUNNING) (h : w.EndsCompleted run) :
    ∃ k, ∀ out w', Ends environment (advanceRun cfg enqueueFn runId) w out w' ↔
      Ends environment (endRun cfg (run.completed k)) w out w' := by
  obtain hout | ⟨idx, hnext, hout, hpassed⟩ := h
  · refine ⟨run.nextGroup run.jobIdsByGroup.length run.currentGroupIndex, fun out w' =>
      ends_congr fun Q => (satisfies_advanceRun hrun hstatus).trans ?_⟩
    rw [advanceRunning, if_pos ((run.length_le_nextGroup_iff _).mpr hout)]
    rfl
  · obtain ⟨ended, hended, hcompleted⟩ :=
      (outcome_completed_iff hpassed.terminal hpassed.jobs).mpr ⟨hout, hpassed⟩
    obtain ⟨k, rfl⟩ : ∃ k, ended = run.completed k := by
      rw [PlanRun.outcome] at hended
      dsimp only at hended
      split_ifs at hended
      · exact absurd hcompleted (by rw [← Sum.inl.inj hended]; exact nofun)
      · exact absurd hcompleted (by rw [← Sum.inl.inj hended]; exact nofun)
      · exact ⟨_, (Sum.inl.inj hended).symm⟩
    refine ⟨k, fun out w' => ends_congr fun Q => (satisfies_advanceRun hrun hstatus).trans ?_⟩
    have hidx := (PlanRun.isNext_nextGroup hnext.not_runsOut).unique hnext
    have hlt := hnext.lt
    have hall : ((run.jobsAt idx).map fun id =>
        ((w.job id).getD {}).stateOrPending).all (·.IsTerminal) = true := by
      simpa [List.all_eq_true] using hpassed.terminal
    rw [advanceRunning, hidx, if_neg (by omega), if_neg hpassed.jobs, awaitGroup, satisfies_bind,
      satisfies_jobStates, then_ok, if_pos hall, hended]

/-- **A tick** leaves the plans alone, or it ends the run, as COMPLETED only if no group is left
or the last one has passed. -/
theorem advanceRun_spec (cfg : Config) (hrun : w.run runId = some run)
    (hstatus : run.status = .RUNNING) (hplan : w.plan run.planId = some plan)
    (hid : plan.id = run.planId) :
    Satisfies environment.machine
      (fun _ w' => w'.plans = w.plans ∨
        ∃ (status : PlanRunStatus) (error : String) (k n : ℕ) (run' : PlanRun) (plan' : Plan),
          (status = .COMPLETED → w.EndsCompleted run) ∧
          w.Finalized plan
            { run with
              status, error, currentGroupIndex := k, finishedAt := some (w.clock + n) }
            run' plan' w') w
      (advanceRun cfg enqueueRestores runId) := by
  rw [satisfies_advanceRun hrun hstatus, advanceRunning]
  refine Satisfies.ite (fun hout => ?_) fun hsome => ?_
  · have hended : (run.completed
        (run.nextGroup run.jobIdsByGroup.length run.currentGroupIndex)).status ≠ .RUNNING := nofun
    refine (endRun_spec cfg hended hplan hid).mono ?_
    rintro out w' ⟨n, run', plan', h⟩
    exact .inr ⟨.COMPLETED, run.error, _, n, run', plan',
      fun _ => .inl ((run.length_le_nextGroup_iff _).mp hout), h⟩
  have hnext := PlanRun.isNext_nextGroup (mt (run.length_le_nextGroup_iff _).mpr hsome)
  generalize run.nextGroup run.jobIdsByGroup.length run.currentGroupIndex = idx at hnext
  refine Satisfies.ite (fun _ => Satisfies.ite (fun _ => ?_) fun _ => ?_) fun hjobs => ?_
  · simp only [satisfies_bind, savePlanRun, satisfies_setRun, then_ok, pure_eq_ret, satisfies_ret]
    exact .inl rfl
  · rw [satisfies_bind]
    refine satisfies_iff_ends.mpr fun out w₁ hends => ?_
    have hplans := (enqueueRestores_sameRuns hends).plans
    cases out with
    | error e => exact then_error.mpr (.inl hplans)
    | ok result =>
      simp only [then_ok, satisfies_bind, savePlanRun, satisfies_setRun, pure_eq_ret, satisfies_ret]
      exact .inl hplans
  · rw [awaitGroup, satisfies_bind, satisfies_jobStates, then_ok]
    refine Satisfies.ite (fun hall => ?_) fun _ => ?_
    · cases houtcome : run.outcome idx
        ((run.jobsAt idx).map fun id => ((w.job id).getD {}).stateOrPending) with
      | inr k =>
        simp only [satisfies_bind, savePlanRun, satisfies_setRun, then_ok, pure_eq_ret,
          satisfies_ret]
        exact .inl rfl
      | inl ended =>
        have hterminal : ∀ id ∈ run.jobsAt idx,
            ((w.job id).getD {}).stateOrPending.IsTerminal = true := by
          simpa [List.all_eq_true] using hall
        have hiff := outcome_completed_iff hterminal hjobs
        obtain ⟨status, error, k, hne, rfl⟩ := outcome_spec houtcome
        have hended :
            { run with status, error, currentGroupIndex := k : PlanRun }.status ≠ .RUNNING := hne
        refine (endRun_spec cfg hended hplan hid).mono ?_
        rintro out w' ⟨n, run', plan', h⟩
        refine .inr ⟨status, error, k, n, run', plan', fun hcompleted => .inr ?_, h⟩
        obtain ⟨hlast, hpassed⟩ := hiff.mp ⟨_, houtcome, hcompleted⟩
        exact ⟨idx, hnext, hlast, hpassed⟩
    · rw [pure_eq_ret, satisfies_ret]
      exact .inl rfl

end RestoreEngine
