import RestoreEngine.Runs.Ticks

/-!
# What an ASSURED verdict is worth

A drill that ends is judged by its status, its teardown status and the summaries of its jobs.
The status is COMPLETED although jobs failed, if the plan does not halt on errors, and the
teardown status is empty after a teardown that raised. This module says exactly when a tick
makes a plan ASSURED only if all jobs of its drill are COMPLETED and the teardown is completed
(`assured_soundly_iff`).
-/

namespace RestoreEngine

open Effects Prog Program

variable {w w' : World} {plan : Plan} {run : PlanRun} {runId : Uuid}

/-- If the plan is ASSURED by the run, then the run has jobs, all of them COMPLETED, and its
automatic teardown is completed. -/
def World.AssuredSoundly (w' : World) (run : PlanRun) : Prop :=
  ∀ plan', w'.plan run.planId = some plan' → plan'.assuranceLastRunId = some run.id →
    plan'.assuranceStatus = .ASSURED →
      ∃ run', w'.run run.id = some run' ∧ w'.hashes run' ≠ [] ∧
        (∀ j ∈ w'.hashes run', j.state = some .COMPLETED) ∧
        (run'.autoTeardown = true → run'.teardownStatus = .COMPLETED)

/-- The run has no jobs, or one that is not COMPLETED. -/
def World.Incomplete (w : World) (run : PlanRun) : Prop :=
  w.hashes run = [] ∨ ∃ j ∈ w.hashes run, j.state ≠ some .COMPLETED

/-- What an ASSURED verdict on the run would hide: a teardown that raises, or jobs that are not
COMPLETED behind a teardown that completes or is not asked for. -/
def World.Hides (w : World) (run : PlanRun) : Prop :=
  if run.autoTeardown = true ∧ run.teardownStatus = .UNSET then
    (w.targets run ≠ [] ∧ w.up = false) ∨ (w.Incomplete run ∧ ∀ t ∈ w.targets run, w.Located t)
  else (run.autoTeardown = true → run.teardownStatus = .COMPLETED) ∧ w.Incomplete run

/-- The run as it is if it ends now. -/
def PlanRun.endedAt (run : PlanRun) (now : Instant) : PlanRun := { run with finishedAt := some now }

/-- An objective that is met later is met now. -/
private theorem meetsRto_now {now : ℤ} {n : ℕ}
    (h : MeetsRto plan (run.endedAt (now + n))) : MeetsRto plan (run.endedAt now) := by
  refine h.imp_right ?_
  rintro ⟨sec, hsec, hle⟩
  simp only [PlanRun.endedAt] at hsec ⊢
  cases hstart : run.startedAt with
  | none =>
    rw [hstart] at hsec
    cases hsec
  | some start =>
    rw [hstart, wallClockRtoSec, Option.some.injEq] at hsec
    subst hsec
    refine ⟨_, rfl, ?_⟩
    have hmono : (now - start) / second ≤ (now + n - start) / second :=
      Int.ediv_le_ediv (by decide) (by omega)
    exact (max_le_max_left 0 hmono).trans hle

private theorem not_incomplete (h : ¬ w.Incomplete run) :
    w.hashes run ≠ [] ∧ ∀ j ∈ w.hashes run, j.state = some .COMPLETED := by
  simpa [World.Incomplete] using h

/-- A verdict that hides nothing is sound. -/
private theorem sound_of_not_hides {run' : PlanRun} (hcourse : run.SameCourse run')
    (hjobs : w'.jobs = w.jobs) (htorn : w.MayTear run run'.teardownStatus)
    (hteardown : run.autoTeardown = true →
      run'.teardownStatus = .UNSET ∨ run'.teardownStatus = .COMPLETED)
    (h : ¬ w.Hides run) :
    w'.hashes run' ≠ [] ∧ (∀ j ∈ w'.hashes run', j.state = some .COMPLETED) ∧
      (run'.autoTeardown = true → run'.teardownStatus = .COMPLETED) := by
  rw [hashes_congr hjobs hcourse.jobIdsByGroup, hcourse.autoTeardown]
  rw [World.Hides] at h
  rw [World.MayTear] at htorn
  by_cases hauto : run.autoTeardown = true ∧ run.teardownStatus = .UNSET
  · rw [if_pos hauto] at h htorn
    obtain ⟨hreach, hlocated⟩ := not_or.mp h
    rw [if_neg hreach] at htorn
    have hcompleted := (hteardown hauto.1).resolve_left htorn.1
    obtain ⟨hsome, hall⟩ := not_incomplete fun hinc => hlocated ⟨hinc, htorn.2 hcompleted⟩
    exact ⟨hsome, hall, fun _ => hcompleted⟩
  · rw [if_neg hauto] at h htorn
    have hcompleted : run.autoTeardown = true → run.teardownStatus = .COMPLETED := fun hreq =>
      htorn ▸ (hteardown hreq).resolve_left fun hunset => hauto ⟨hreq, htorn ▸ hunset⟩
    obtain ⟨hsome, hall⟩ := not_incomplete fun hinc => h ⟨hcompleted, hinc⟩
    exact ⟨hsome, hall, fun hreq => htorn ▸ hcompleted hreq⟩

/-- What a verdict hides does come about. -/
private theorem unsound_of_hides (h : w.Hides run) :
    ∃ status, w.CanTear run status ∧
      (run.autoTeardown = true → status = .UNSET ∨ status = .COMPLETED) ∧
      (w.Incomplete run ∨ (run.autoTeardown = true ∧ status ≠ .COMPLETED)) := by
  rw [World.Hides] at h
  by_cases hauto : run.autoTeardown = true ∧ run.teardownStatus = .UNSET
  · rw [if_pos hauto] at h
    by_cases hdown : w.targets run ≠ [] ∧ w.up = false
    · refine ⟨.UNSET, ?_, fun _ => .inl rfl, .inr ⟨hauto.1, nofun⟩⟩
      rw [World.CanTear, if_pos hauto, if_pos hdown]
    · obtain ⟨hinc, hlocated⟩ := h.resolve_left hdown
      refine ⟨.COMPLETED, ?_, fun _ => .inr rfl, .inl hinc⟩
      rw [World.CanTear, if_pos hauto, if_neg hdown]
      exact ⟨rfl, hlocated⟩
  · rw [if_neg hauto] at h
    refine ⟨run.teardownStatus, ?_, fun hreq => .inr (h.1 hreq), .inl h.2⟩
    rw [World.CanTear, if_neg hauto]

/-- **What an ASSURED verdict is worth.** A tick on a RUNNING drill leaves its plan ASSURED by
the drill only if the jobs are all COMPLETED and the teardown is, unless the tick completes the
drill, the drill passes the checks on the summaries, and the verdict hides something. -/
theorem assured_soundly_iff (cfg : Config) (hrun : w.run runId = some run) (hrid : run.id = runId)
    (hstatus : run.status = .RUNNING) (hplan : w.plan run.planId = some plan)
    (hpid : plan.id = run.planId) (hnew : plan.assuranceLastRunId ≠ some runId) :
    (∀ out w', Ends environment (advanceRun cfg enqueueRestores runId) w out w' →
        w'.AssuredSoundly run) ↔
      ¬ (w.EndsCompleted run ∧ Judged plan run ∧
        Passes plan (run.endedAt w.clock) (w.hashes run) ∧ w.Hides run) := by
  constructor
  · rintro hall ⟨hends, hjudged, hpasses, hhides⟩
    obtain ⟨status, hcan, hteardown, hbad⟩ := unsound_of_hides hhides
    obtain ⟨k, hcompletes⟩ := advanceRun_completes cfg enqueueRestores hrun hstatus hends
    have hended : (run.completed k).status ≠ .RUNNING := nofun
    obtain ⟨out, w', hend, run', plan', hfinal, htorn⟩ :=
      endRun_reaches cfg hended hplan hpid hcan
    obtain ⟨hlast, hverdict⟩ := hfinal.judged hjudged
    have hassured : plan'.assuranceStatus = .ASSURED :=
      hverdict.mpr ⟨rfl, fun hreq => htorn ▸ hteardown hreq, hpasses.qga, hpasses.http, hpasses.rto⟩
    obtain ⟨run'', hrun'', hsome, hdone, htornDone⟩ :=
      hall out w' ((hcompletes out w').mpr hend) plan' hfinal.plan_eq hlast hassured
    obtain rfl := Option.some.inj (hfinal.run_eq.symm.trans hrun'')
    have hsame : w'.hashes run' = w.hashes run :=
      hashes_congr hfinal.jobs hfinal.course.jobIdsByGroup
    rw [hsame] at hsome hdone
    obtain (hnil | ⟨j, hj, hne⟩) | ⟨hreq, hne⟩ := hbad
    · exact hsome hnil
    · exact hne (hdone j hj)
    · exact hne (htorn ▸ htornDone (hfinal.course.autoTeardown.trans hreq))
  · intro hnot out w' hends plan' hplan' hlast hassured
    obtain hsame | ⟨status, error, k, n, run', plan'', hcompleted, hfinal⟩ :=
      satisfies_iff_ends.mp (advanceRun_spec cfg hrun hstatus hplan hpid) out w' hends
    · rw [World.plan, hsame] at hplan'
      obtain rfl := Option.some.inj (hplan.symm.trans hplan')
      exact absurd (hrid ▸ hlast) hnew
    · obtain rfl := Option.some.inj (hfinal.plan_eq.symm.trans hplan')
      by_cases hjudged : Judged plan run
      · obtain ⟨hdone, hteardown, hpasses⟩ := (hfinal.judged hjudged).2.mp hassured
        have hclock : Passes plan (run.endedAt w.clock) (w.hashes run) :=
          ⟨hpasses.qga, hpasses.http, meetsRto_now hpasses.rto⟩
        refine ⟨run', hfinal.run_eq, ?_⟩
        refine sound_of_not_hides hfinal.course hfinal.jobs hfinal.torn hteardown fun hhides => ?_
        exact hnot ⟨hcompleted hdone, hjudged, hclock, hhides⟩
      · exact absurd (hrid ▸ (hfinal.unjudged hjudged).symm.trans hlast) hnew

/-! ### A drill of two guests -/

/-- A plan that requires nothing but a passed drill, and does not halt on errors. -/
def lenientPlan : Plan :=
  { id := 0, groupIds := [1], locationId := 2, haltOnError := false, assuranceEnabled := true }

/-- A drill of the plan with two jobs, to be torn down automatically. -/
def pairDrill : PlanRun :=
  { id := 3, planId := 0, status := .RUNNING, locationId := 2, node := "pve", nodes := ["pve"]
    storage := "local", vmidStart := 100, drill := true, autoTeardown := true
    haltOnError := false, groupIds := [1], jobIdsByGroup := [[4, 5]]
    assignedTargets := [{ vmid := 100, node := "pve" }, { vmid := 101, node := "pve" }]
    startedAt := some 0 }

/-- A job of the drill that has ended. -/
def endedJob (vmid : ℤ) (state : RestoreState) : Job :=
  { state := some state, proxmoxVmid := some vmid, proxmoxNode := some "pve", planRunId := some 3 }

/-- The world of the drill when its jobs have ended. -/
def pairWorld (up : Bool) (state : RestoreState) : World :=
  { jobs := ((∅ : AList _).insert 4 (endedJob 100 .COMPLETED)).insert 5 (endedJob 101 state)
    runs := (∅ : AList _).insert 3 pairDrill
    active := [3]
    plans := (∅ : AList _).insert 0 lenientPlan
    nextUuid := 6
    up }

/-- A tick on the drill is sound about it. -/
def PairSound (up : Bool) (state : RestoreState) : Prop :=
  ∀ out w', Ends environment (advanceRun {} enqueueRestores 3) (pairWorld up state) out w' →
    w'.AssuredSoundly pairDrill

/-- What the tick leaves if the world answers every command as asked: who made the plan ASSURED,
whether the teardown is done, and the states of the jobs. -/
def pairOutcome (up : Bool) (state : RestoreState) :
    Option (Option (PlanAssurance × Option Uuid) × Option (Bool × List (Option RestoreState))) :=
  (Program.run environment [] (advanceRun {} enqueueRestores 3) (pairWorld up state)).map fun r =>
    ((r.2.plan 0).map fun p => (p.assuranceStatus, p.assuranceLastRunId),
      (r.2.run 3).map fun run =>
        (decide (run.autoTeardown = true → run.teardownStatus = .COMPLETED),
          (r.2.hashes run).map (·.state)))

private theorem not_pairSound {up torn : Bool} {state : RestoreState}
    {states : List (Option RestoreState)}
    (h : pairOutcome up state = some (some (.ASSURED, some 3), some (torn, states)))
    (hbad : torn = false ∨ ∃ s ∈ states, s ≠ some .COMPLETED) : ¬ PairSound up state := by
  intro hsound
  obtain ⟨out, w', hends, hleft⟩ := exists_ends_of_run h
  rw [Prod.mk.injEq] at hleft
  obtain ⟨plan', hplan', hverdict⟩ := Option.map_eq_some_iff.mp hleft.1
  obtain ⟨run', hrun', hrest⟩ := Option.map_eq_some_iff.mp hleft.2
  rw [Prod.mk.injEq] at hverdict hrest
  obtain ⟨run'', hrun'', -, hdone, htorn⟩ :=
    hsound out w' hends plan' hplan' hverdict.2 hverdict.1
  obtain rfl := Option.some.inj (hrun'.symm.trans hrun'')
  rcases hbad with hfalse | ⟨s, hs, hne⟩
  · exact of_decide_eq_false (hrest.1.trans hfalse) htorn
  · obtain ⟨j, hj, rfl⟩ := List.mem_map.mp (hrest.2 ▸ hs)
    exact hne (hdone j hj)

/-- The plan is ASSURED after a teardown that could not reach the API, and with a FAILED job. -/
theorem drill_assured_unsoundly : ¬ PairSound false .COMPLETED ∧ ¬ PairSound true .FAILED := by
  have hdown : pairOutcome false .COMPLETED =
      some (some (.ASSURED, some 3), some (false, [some .COMPLETED, some .COMPLETED])) := by
    decide
  have hfailed : pairOutcome true .FAILED =
      some (some (.ASSURED, some 3), some (true, [some .COMPLETED, some .FAILED])) := by
    decide
  exact ⟨not_pairSound hdown (.inl rfl),
    not_pairSound hfailed (.inr ⟨some .FAILED, by simp, by simp⟩)⟩

/-- With the API up and both jobs COMPLETED the verdict is sound. -/
theorem drill_assured_soundly : PairSound true .COMPLETED := by
  have hrun : (pairWorld true .COMPLETED).run 3 = some pairDrill := rfl
  have hplan : (pairWorld true .COMPLETED).plan pairDrill.planId = some lenientPlan := rfl
  refine (assured_soundly_iff {} hrun rfl rfl hplan rfl nofun).mpr ?_
  rintro ⟨-, -, -, hhides⟩
  have hall : ∀ j ∈ (pairWorld true .COMPLETED).hashes pairDrill, j.state = some .COMPLETED := by
    decide
  rw [World.Hides, if_pos ⟨rfl, rfl⟩] at hhides
  obtain ⟨-, hdown⟩ | ⟨hnil | ⟨j, hj, hne⟩, -⟩ := hhides
  · cases hdown
  · cases hnil
  · exact hne (hall j hj)

end RestoreEngine
