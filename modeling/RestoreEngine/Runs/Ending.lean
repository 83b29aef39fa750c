import RestoreEngine.Teardown.Undisturbed

/-!
# Ending a run

What an undisturbed `endRun` leaves behind (`endRun_spec`): the record of the run with a report
and a teardown status, and in the plan the verdict on it, if the run is judged. The teardown
statuses that `World.CanTear` names do come about (`endRun_reaches`).
-/

namespace RestoreEngine

open Effects Prog Program

variable {w w' : World} {plan : Plan} {run : PlanRun}

/-! ### Finalizing -/

/-- What finalizing leaves: the run with its course, a report and a teardown status, and the
plan with the verdict on the run, if it is judged. -/
structure World.Finalized (w : World) (plan : Plan) (run run' : PlanRun) (plan' : Plan)
    (w' : World) : Prop where
  run_eq : w'.run run.id = some run'
  plan_eq : w'.plan run.planId = some plan'
  course : run.SameCourse run'
  reported : run'.reportId.isSome = true
  jobs : w'.jobs = w.jobs
  torn : w.MayTear run run'.teardownStatus
  judged : Judged plan run → plan'.assuranceLastRunId = some run.id ∧
    (plan'.assuranceStatus = .ASSURED ↔ run.status = .COMPLETED ∧
      (run.autoTeardown = true →
        run'.teardownStatus = .UNSET ∨ run'.teardownStatus = .COMPLETED) ∧
      Passes plan run (w.hashes run))
  unjudged : ¬ Judged plan run → plan'.assuranceLastRunId = plan.assuranceLastRunId

theorem hashes_congr {run' : PlanRun} (hjobs : w'.jobs = w.jobs)
    (hids : run'.jobIdsByGroup = run.jobIdsByGroup) : w'.hashes run' = w.hashes run := by
  simp only [World.hashes, World.job, hjobs, hids]

theorem targets_congr {run' : PlanRun} (hjobs : w'.jobs = w.jobs) (hcourse : run.SameCourse run') :
    w'.targets run' = w.targets run := by
  simp only [World.targets, World.job, hjobs, hcourse.jobIdsByGroup, hcourse.assignedTargets]

private theorem meetsRto_congr {plan' : Plan} {run' : PlanRun} (hplan : plan.SamePolicy plan')
    (hcourse : run.SameCourse run') : MeetsRto plan' run' ↔ MeetsRto plan run := by
  rw [MeetsRto, MeetsRto, hplan.maxRtoSec, hcourse.startedAt, hcourse.finishedAt]

private theorem passes_congr {plan' : Plan} {run' : PlanRun} {hashes : List Job}
    (hplan : plan.SamePolicy plan') (hcourse : run.SameCourse run') :
    Passes plan' run' hashes ↔ Passes plan run hashes := by
  have hrto := meetsRto_congr hplan hcourse
  constructor
  · rintro ⟨hqga, hhttp, hmeets⟩
    exact ⟨hplan.requireQga ▸ hqga, hplan.requireHttp ▸ hhttp, hrto.mp hmeets⟩
  · rintro ⟨hqga, hhttp, hmeets⟩
    exact ⟨hplan.requireQga.symm ▸ hqga, hplan.requireHttp.symm ▸ hhttp, hrto.mpr hmeets⟩

private theorem judged_congr {plan' : Plan} {run' : PlanRun} (hplan : plan.SamePolicy plan')
    (hcourse : run.SameCourse run') (heval : run'.assuranceEvaluated = run.assuranceEvaluated) :
    Judged plan' run' ↔ Judged plan run := by
  rw [Judged, Judged, hplan.enabled, hcourse.drill, heval]

/-- What follows the report. -/
private theorem settleRun_spec (hstatus : run.status ≠ .RUNNING) (h : w.Stores run plan)
    (hreport : run.reportId.isSome = true) :
    Satisfies environment.machine
      (fun _ w' => ∃ run' plan', w.Finalized plan run run' plan' w') w (settleRun run) := by
  refine (autoTeardown_spec hstatus h.run_eq).bind ?_ (by rintro e w' ⟨h, -⟩; cases h)
  rintro _ w₁ ⟨-, hjobs₁, hplans₁, run₁, hrun₁, hcourse₁, heval₁, htear₁⟩
  have hstores : w₁.Stores run₁ plan := by
    refine ⟨by rw [hcourse₁.id]; exact hrun₁, ?_, h.plan_id.trans hcourse₁.planId.symm⟩
    rw [hcourse₁.planId, World.plan, hplans₁]
    exact h.plan_eq
  refine (judgeRun_spec hcourse₁.id.symm hstores).mono ?_
  rintro out w₂ ⟨⟨run₂, hrun₂, hcourse₂, htear₂⟩, ⟨plan₂, hplan₂, hjudged, hnot⟩, hjobs₂⟩
  have hpolicy : plan.SamePolicy plan := ⟨rfl, rfl, rfl, rfl, rfl⟩
  have hsame := judged_congr hpolicy hcourse₁ heval₁
  refine ⟨run₂, plan₂, ⟨hcourse₁.id ▸ hrun₂, hcourse₁.planId ▸ hplan₂, hcourse₁.trans hcourse₂,
    hcourse₂.reported (hcourse₁.reported hreport), hjobs₂.trans hjobs₁, htear₂ ▸ htear₁,
    fun hj => ?_, fun hj => hnot (mt hsame.mp hj)⟩⟩
  obtain ⟨hlast, hverdict⟩ := hjudged (hsame.mpr hj)
  obtain ⟨henabled, hdrill, -⟩ := hj
  refine ⟨hcourse₁.id ▸ hlast, ?_⟩
  have hstored : plan₂.assuranceStatus =
      (evaluateAssurancePolicy plan run₁ (w₁.summaries run₁)).1 := congrArg Prod.fst hverdict
  rw [hstored, evaluate_summaries_assured_iff henabled (hcourse₁.drill.trans hdrill),
    hcourse₁.status, hcourse₁.autoTeardown, htear₂, passes_congr hpolicy hcourse₁,
    hashes_congr hjobs₁ hcourse₁.jobIdsByGroup]

/-- **Finalizing.** -/
theorem finalizePlanRunReport_spec (cfg : Config) (hstatus : run.status ≠ .RUNNING)
    (h : w.Stores run plan) :
    Satisfies environment.machine
      (fun _ w' => ∃ run' plan', w.Finalized plan run run' plan' w') w
      (finalizePlanRunReport cfg run) := by
  rw [finalizePlanRunReport]
  cases hreport : run.reportId with
  | some rep => exact settleRun_spec hstatus h (by rw [hreport]; rfl)
  | none =>
    refine (attachReport_spec cfg h.plan_eq h.plan_id).bind ?_
      (by rintro e w' ⟨_, _, h, -⟩; cases h)
    rintro _ w₁ ⟨run₁, plan₁, hrun₁, hstores₁, hcourse₁, hrep₁, htear₁, heval₁, hpolicy₁, -,
      hlast₁, hjobs₁, hguests₁, hup₁⟩
    obtain rfl := Except.ok.inj hrun₁
    refine (settleRun_spec (hcourse₁.status ▸ hstatus) hstores₁ hrep₁).mono ?_
    rintro out w₂ ⟨run₂, plan₂, h₂⟩
    have hsame := judged_congr hpolicy₁ hcourse₁ heval₁
    refine ⟨run₂, plan₂, ⟨hcourse₁.id ▸ h₂.run_eq, hcourse₁.planId ▸ h₂.plan_eq,
      hcourse₁.trans h₂.course, h₂.reported, h₂.jobs.trans hjobs₁, ?_, fun hj => ?_, fun hj => ?_⟩⟩
    · have htorn := h₂.torn
      simp only [World.MayTear, hcourse₁.autoTeardown, htear₁, targets_congr hjobs₁ hcourse₁, hup₁,
        World.Located, World.guest, hguests₁] at htorn ⊢
      exact htorn
    · obtain ⟨hlast, hverdict⟩ := h₂.judged (hsame.mpr hj)
      rw [hcourse₁.status, hcourse₁.autoTeardown, passes_congr hpolicy₁ hcourse₁,
        hashes_congr hjobs₁ hcourse₁.jobIdsByGroup] at hverdict
      exact ⟨hcourse₁.id ▸ hlast, hverdict⟩
    · exact (h₂.unjudged (mt hsame.mp hj)).trans hlast₁

/-! ### Finalizing gets to an end -/

/-- The teardown statuses that a run can be brought to: the one it has, if it is not torn down
automatically; none, if the API cannot be reached; `completed`, if the targets can be located. -/
def World.CanTear (w : World) (run : PlanRun) (status : TeardownStatus) : Prop :=
  if run.autoTeardown = true ∧ run.teardownStatus = .UNSET then
    if w.targets run ≠ [] ∧ w.up = false then status = .UNSET
    else status = .COMPLETED ∧ ∀ t ∈ w.targets run, w.Located t
  else status = run.teardownStatus

private theorem autoTeardown_reaches {status : TeardownStatus} (hstatus : run.status ≠ .RUNNING)
    (hrun : w.run run.id = some run) (h : w.CanTear run status) :
    ∃ w', Ends environment (autoTeardown run) w (.ok ()) w' ∧
      (w'.run run.id).map (·.teardownStatus) = some status := by
  rw [World.CanTear] at h
  split_ifs at h with hauto hdown
  · subst h
    refine ⟨w, ?_, by rw [hrun, Option.map_some, hauto.2]⟩
    rw [autoTeardown, if_pos hauto]
    exact Ends.bind (teardownPlanRun_refused hauto.2 hstatus hdown.1 hdown.2).attempt (.ret _ _)
  · obtain ⟨rfl, hlocated⟩ := h
    refine autoTeardown_completes hauto.1 hauto.2 hstatus ?_ hlocated
    by_contra hcon
    simp only [not_or, Bool.not_eq_true] at hcon
    exact hdown hcon
  · subst h
    refine ⟨w, ?_, by rw [hrun, Option.map_some]⟩
    rw [autoTeardown, if_neg hauto]
    exact .ret _ _

private theorem reload_only (run : PlanRun) : (reload run).Only fun o => o ≠ Op.park :=
  Only.bind (only_perform.mpr nofun) fun _ => only_ret

private theorem judgeRun_only (run : PlanRun) : (judgeRun run).Only fun o => o ≠ Op.park := by
  refine Only.bind (reload_only _) fun run₁ => ?_
  refine Only.bind (applyAssuranceFromRun_only run₁).attempt fun _ => ?_
  refine Only.bind (reload_only _) fun run₂ => Only.bind ?_ fun _ => reload_only _
  refine Only.ite (fun _ => only_ret) fun _ => ?_
  refine Only.bind (aggregatePlanRun_only (fun _ => nofun) _) fun _ => ?_
  refine Only.bind (only_perform.mpr nofun) fun _ => ?_
  exact Only.bind (Only.bind (only_perform.mpr nofun) fun _ => only_ret) fun _ => only_ret

private theorem attachReport_only (cfg : Config) (run : PlanRun) :
    (attachReport cfg run).Only fun o => o ≠ Op.park := by
  have htrim : (trimReports cfg).Only fun o => o ≠ Op.park := by
    refine Only.bind (only_perform.mpr nofun) fun _ => Only.ite (fun _ => only_ret) fun _ => ?_
    refine Only.bind (only_perform.mpr nofun) fun _ => ?_
    exact Only.ite (fun _ => only_ret) fun _ => only_perform.mpr nofun
  refine Only.bind (aggregatePlanRun_only (fun _ => nofun) _) fun _ => ?_
  refine Only.bind (only_perform.mpr nofun) fun plan => ?_
  refine Only.bind (Only.bind (only_perform.mpr nofun) fun _ => ?_) fun _ => ?_
  · exact Only.bind (only_perform.mpr nofun) fun _ => Only.bind htrim fun _ => only_ret
  · refine Only.bind (Only.bind (only_perform.mpr nofun) fun _ => only_ret) fun _ => ?_
    cases plan with
    | none => exact only_ret
    | some plan => exact Only.bind (only_perform.mpr nofun) fun _ => only_ret

private theorem settleRun_reaches {status : TeardownStatus} (hstatus : run.status ≠ .RUNNING)
    (h : w.Stores run plan) (hcan : w.CanTear run status) :
    ∃ out w', Ends environment (settleRun run) w out w' ∧
      (w'.run run.id).map (·.teardownStatus) = some status := by
  obtain ⟨w₁, htear, hstatus₁⟩ := autoTeardown_reaches hstatus h.run_eq hcan
  obtain ⟨-, -, hplans₁, run₁, hrun₁, hcourse₁, -, -⟩ :=
    satisfies_iff_ends.mp (autoTeardown_spec hstatus h.run_eq) _ _ htear
  have hstores : w₁.Stores run₁ plan := by
    refine ⟨by rw [hcourse₁.id]; exact hrun₁, ?_, h.plan_id.trans hcourse₁.planId.symm⟩
    rw [hcourse₁.planId, World.plan, hplans₁]
    exact h.plan_eq
  obtain ⟨out, w₂, hjudge⟩ := exists_run (judgeRun_only run) w₁
  refine ⟨out, w₂, Ends.bind htear hjudge, ?_⟩
  obtain ⟨⟨run₂, hrun₂, -, htear₂⟩, -, -⟩ :=
    satisfies_iff_ends.mp (judgeRun_spec hcourse₁.id.symm hstores) _ _ hjudge
  rw [hrun₁, Option.map_some] at hstatus₁
  rw [← hcourse₁.id, hrun₂, Option.map_some, htear₂, hstatus₁]

/-- **Finalizing reaches** the teardown statuses that the run can be brought to. -/
theorem finalizePlanRunReport_reaches (cfg : Config) {status : TeardownStatus}
    (hstatus : run.status ≠ .RUNNING) (h : w.Stores run plan) (hcan : w.CanTear run status) :
    ∃ out w', Ends environment (finalizePlanRunReport cfg run) w out w' ∧
      (w'.run run.id).map (·.teardownStatus) = some status := by
  rw [finalizePlanRunReport]
  cases run.reportId with
  | some rep => exact settleRun_reaches hstatus h hcan
  | none =>
    obtain ⟨out, w₁, hattach⟩ := exists_run (attachReport_only cfg run) w
    obtain ⟨run₁, plan₁, rfl, hstores₁, hcourse₁, -, htear₁, -, -, -, -, hjobs₁, hguests₁, hup₁⟩ :=
      satisfies_iff_ends.mp (attachReport_spec cfg h.plan_eq h.plan_id) _ _ hattach
    have hcan₁ : w₁.CanTear run₁ status := by
      simp only [World.CanTear, hcourse₁.autoTeardown, htear₁, targets_congr hjobs₁ hcourse₁, hup₁,
        World.Located, World.guest, hguests₁] at hcan ⊢
      exact hcan
    obtain ⟨out, w₂, hsettle, hfinal⟩ :=
      settleRun_reaches (hcourse₁.status ▸ hstatus) hstores₁ hcan₁
    exact ⟨out, w₂, Ends.bind hattach hsettle, hcourse₁.id ▸ hfinal⟩

/-! ### Ending -/

/-- **Ending a run** stores it with the present instant and finalizes it. -/
theorem endRun_spec (cfg : Config) (hstatus : run.status ≠ .RUNNING)
    (hplan : w.plan run.planId = some plan) (hid : plan.id = run.planId) :
    Satisfies environment.machine
      (fun _ w' => ∃ (n : ℕ) (run' : PlanRun) (plan' : Plan),
        w.Finalized plan { run with finishedAt := some (w.clock + n) } run' plan' w') w
      (endRun cfg run) := by
  simp only [endRun, savePlanRun, satisfies_bind, satisfies_utcNow, then_ok, satisfies_setRun,
    pure_eq_ret, satisfies_ret]
  intro n
  let ended : PlanRun := { run with finishedAt := some (w.clock + n) }
  have hended : ended.status ≠ .RUNNING := hstatus
  have hstores : (World.setRun { w with clock := w.clock + n } ended).Stores ended plan :=
    ⟨World.run_setRun_of_eq _ rfl, hplan, hid⟩
  refine (finalizePlanRunReport_spec cfg hended hstores).mono ?_
  rintro out w' ⟨run', plan', h⟩
  have hfinal : w.Finalized plan ended run' plan' w' :=
    ⟨h.run_eq, h.plan_eq, h.course, h.reported, h.jobs, h.torn, h.judged, h.unjudged⟩
  cases out with
  | ok _ =>
    rw [then_ok, satisfies_ret]
    exact ⟨n, run', plan', hfinal⟩
  | error _ =>
    rw [then_error]
    exact ⟨n, run', plan', hfinal⟩

/-- **Ending reaches**, at once, the teardown statuses that the run can be brought to. -/
theorem endRun_reaches (cfg : Config) {status : TeardownStatus} (hstatus : run.status ≠ .RUNNING)
    (hplan : w.plan run.planId = some plan) (hid : plan.id = run.planId)
    (hcan : w.CanTear run status) :
    ∃ out w', Ends environment (endRun cfg run) w out w' ∧ ∃ run' plan',
      w.Finalized plan { run with finishedAt := some w.clock } run' plan' w' ∧
        run'.teardownStatus = status := by
  let ended : PlanRun := { run with finishedAt := some (w.clock + (0 : ℕ)) }
  let w₁ := World.setRun { w with clock := w.clock + (0 : ℕ) } ended
  have hended : ended.status ≠ .RUNNING := hstatus
  have hstores : w₁.Stores ended plan := ⟨World.run_setRun_of_eq _ rfl, hplan, hid⟩
  have hzero : w.clock + ((0 : ℕ) : ℤ) = w.clock := by simp
  obtain ⟨out, w', hfin, hfinal⟩ :=
    finalizePlanRunReport_reaches cfg hended hstores hcan
  obtain ⟨run', plan', h⟩ :=
    satisfies_iff_ends.mp (finalizePlanRunReport_spec cfg hended hstores) _ _ hfin
  have hbegin : ∀ {out' : Except Exn Bool},
      Ends environment (finalizePlanRunReport cfg ended >>= fun _ => Program.ret true) w₁ out' w' →
        Ends environment (endRun cfg run) w out' w' := fun hrest =>
    Ends.bind (ends_issue (o := .utcNow) (r := w.clock + (0 : ℕ)) (a := .ok) rfl)
      (Ends.bind (Ends.bind (ends_issue (o := .setRun ended) (r := ()) (a := .ok) rfl) (.ret _ _))
        hrest)
  have hdone : ∃ run' plan',
      w.Finalized plan { run with finishedAt := some w.clock } run' plan' w' ∧
        run'.teardownStatus = status := by
    refine ⟨run', plan', ?_, ?_⟩
    · have hended : ended = { run with finishedAt := some w.clock } := by
        simp only [ended, hzero]
      rw [← hended]
      exact ⟨h.run_eq, h.plan_eq, h.course, h.reported, h.jobs, h.torn, h.judged, h.unjudged⟩
    · rw [h.run_eq, Option.map_some, Option.some.injEq] at hfinal
      exact hfinal
  cases out with
  | ok run₂ => exact ⟨_, w', hbegin (Ends.bind hfin (.ret _ _)), hdone⟩
  | error e => exact ⟨_, w', hbegin (ends_bind.mpr (.inr ⟨e, rfl, hfin⟩)), hdone⟩

end RestoreEngine
