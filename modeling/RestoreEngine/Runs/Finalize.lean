import RestoreEngine.Assurance.Verdict
import RestoreEngine.Model.Footprints

/-!
# Finalizing a run

What an undisturbed `finalizePlanRunReport` does to the record of the run and to its plan.
Its stages are the report (`attachReport_spec`), the automatic teardown, and the verdict with
the notification (`judgeRun_spec`); none of them changes the course of the run, which is what a
verdict depends on.
-/

namespace RestoreEngine

open Effects Prog Program

variable {w : World} {plan : Plan} {run : PlanRun}

/-- The two records agree on the course of the run. -/
structure PlanRun.SameCourse (run run' : PlanRun) : Prop where
  id : run'.id = run.id
  planId : run'.planId = run.planId
  status : run'.status = run.status
  drill : run'.drill = run.drill
  autoTeardown : run'.autoTeardown = run.autoTeardown
  startedAt : run'.startedAt = run.startedAt
  finishedAt : run'.finishedAt = run.finishedAt
  jobIdsByGroup : run'.jobIdsByGroup = run.jobIdsByGroup
  assignedTargets : run'.assignedTargets = run.assignedTargets
  /-- A report stays. -/
  reported : run.reportId.isSome = true → run'.reportId.isSome = true

theorem PlanRun.SameCourse.refl (run : PlanRun) : run.SameCourse run :=
  ⟨rfl, rfl, rfl, rfl, rfl, rfl, rfl, rfl, rfl, fun h => h⟩

theorem PlanRun.SameCourse.trans {run run' run'' : PlanRun} (h : run.SameCourse run')
    (h' : run'.SameCourse run'') : run.SameCourse run'' :=
  ⟨h'.id.trans h.id, h'.planId.trans h.planId, h'.status.trans h.status, h'.drill.trans h.drill,
    h'.autoTeardown.trans h.autoTeardown, h'.startedAt.trans h.startedAt,
    h'.finishedAt.trans h.finishedAt, h'.jobIdsByGroup.trans h.jobIdsByGroup,
    h'.assignedTargets.trans h.assignedTargets, h'.reported ∘ h.reported⟩

/-- The two plans have the same assurance policy. -/
structure Plan.SamePolicy (plan plan' : Plan) : Prop where
  id : plan'.id = plan.id
  enabled : plan'.assuranceEnabled = plan.assuranceEnabled
  requireQga : plan'.assuranceRequireQga = plan.assuranceRequireQga
  requireHttp : plan'.assuranceRequireHttp = plan.assuranceRequireHttp
  maxRtoSec : plan'.assuranceMaxRtoSec = plan.assuranceMaxRtoSec

/-- A record and a plan as they are stored. -/
structure World.Stores (w : World) (run : PlanRun) (plan : Plan) : Prop where
  run_eq : w.run run.id = some run
  plan_eq : w.plan run.planId = some plan
  plan_id : plan.id = run.planId

/-! ### The report -/

private theorem trimReports_spec (cfg : Config) :
    Satisfies environment.machine (fun out w' => out = .ok () ∧ ∃ reports, w' = { w with reports })
      w (trimReports cfg) := by
  simp only [trimReports, satisfies_bind, satisfies_reportIds, then_ok]
  refine Satisfies.ite (fun _ => ?_) fun _ => ?_
  · rw [pure_eq_ret, satisfies_ret]
    exact ⟨rfl, w.reports, rfl⟩
  · rw [satisfies_bind, satisfies_reportIds, then_ok]
    refine Satisfies.ite (fun _ => ?_) fun _ => ?_
    · rw [pure_eq_ret, satisfies_ret]
      exact ⟨rfl, w.reports, rfl⟩
    · rw [satisfies_dropReports]
      exact ⟨rfl, _, rfl⟩

/-- A stored report changes the reports and the source of identifiers only. -/
theorem saveReport_spec (cfg : Config) (planId : Uuid) (metadata : ReportMeta) :
    Satisfies environment.machine
      (fun out w' => ∃ rep reports, out = .ok rep ∧
        w' = { w with reports, nextUuid := w.nextUuid + 1 })
      w (saveReport cfg planId metadata) := by
  simp only [saveReport, satisfies_bind, satisfies_uuid4, satisfies_addReport, then_ok]
  refine (trimReports_spec cfg).mono ?_
  rintro out w' ⟨rfl, reports, rfl⟩
  rw [then_ok, pure_eq_ret, satisfies_ret]
  exact ⟨_, reports, rfl, rfl⟩

/-- **The report.** The run gets a report; its course, its teardown and the policy of its plan
stay. -/
theorem attachReport_spec (cfg : Config) (hplan : w.plan run.planId = some plan)
    (hid : plan.id = run.planId) :
    Satisfies environment.machine
      (fun out w' => ∃ run' plan', out = .ok run' ∧ w'.Stores run' plan' ∧ run.SameCourse run' ∧
        run'.reportId.isSome = true ∧ run'.teardownStatus = run.teardownStatus ∧
        run'.assuranceEvaluated = run.assuranceEvaluated ∧ plan.SamePolicy plan' ∧
        plan'.verdict = plan.verdict ∧ plan'.assuranceLastRunId = plan.assuranceLastRunId ∧
        w'.jobs = w.jobs ∧ w'.guests = w.guests ∧ w'.up = w.up)
      w (attachReport cfg run) := by
  simp only [attachReport, satisfies_bind, satisfies_aggregatePlanRun, satisfies_getPlan, then_ok]
  refine (saveReport_spec cfg _ _).mono ?_
  rintro out w' ⟨rep, reports, rfl, rfl⟩
  simp only [then_ok, savePlanRun, satisfies_bind, satisfies_setRun, pure_eq_ret, satisfies_ret,
    hplan, satisfies_setPlan]
  refine ⟨_, { plan with lastRunReportId := some rep.id }, rfl, ⟨?_, ?_, hid⟩,
    ⟨rfl, rfl, rfl, rfl, rfl, rfl, rfl, rfl, rfl, fun _ => rfl⟩, rfl, rfl, rfl,
    ⟨rfl, rfl, rfl, rfl, rfl⟩, rfl, rfl, rfl, rfl, rfl⟩
  · exact World.run_setRun _ _
  · exact World.plan_setPlan_of_eq _ hid

/-! ### The verdict and the notification -/

@[simp] theorem satisfies_reload {Q : Except Exn PlanRun → World → Prop} :
    Satisfies environment.machine Q w (reload run) ↔ Q (.ok ((w.run run.id).getD run)) w := by
  simp only [reload, satisfies_bind, satisfies_getRun, then_ok, pure_eq_ret, satisfies_ret]

private theorem notifyOnce_spec (hrun : w.run run.id = some run) :
    Satisfies environment.machine
      (fun _ w' => ∃ run', w'.run run.id = some run' ∧ run.SameCourse run' ∧
        run'.teardownStatus = run.teardownStatus ∧ w'.plans = w.plans ∧ w'.jobs = w.jobs)
      w (notifyOnce run) := by
  refine Satisfies.ite (fun _ => ?_) fun _ => ?_
  · rw [pure_eq_ret, satisfies_ret]
    exact ⟨run, hrun, .refl run, rfl, rfl, rfl⟩
  · simp only [sendPlanRunNotification, satisfies_bind, satisfies_aggregatePlanRun, then_ok,
      satisfies_notify, savePlanRun, satisfies_setRun, pure_eq_ret, satisfies_ret]
    exact ⟨_, World.run_setRun _ _,
      ⟨rfl, rfl, rfl, rfl, rfl, rfl, rfl, rfl, rfl, fun h => h⟩, rfl, rfl, rfl⟩

/-- The run is judged when it is finalized. -/
def Judged (plan : Plan) (run : PlanRun) : Prop :=
  plan.assuranceEnabled = true ∧ run.drill = true ∧ run.assuranceEvaluated = false

/-- What judging a run leaves: the verdict on the summaries, if it is judged at all. -/
structure World.AfterJudging (w : World) (plan : Plan) (run : PlanRun) (w' : World) : Prop where
  run_eq : ∃ run', w'.run run.id = some run' ∧ run.SameCourse run' ∧
    run'.teardownStatus = run.teardownStatus
  plan_eq : ∃ plan', w'.plan run.planId = some plan' ∧
    (Judged plan run → plan'.assuranceLastRunId = some run.id ∧
      plan'.verdict = evaluateAssurancePolicy plan run (w.summaries run)) ∧
    (¬ Judged plan run → plan'.assuranceLastRunId = plan.assuranceLastRunId)
  jobs : w'.jobs = w.jobs

private theorem applyAssuranceFromRun_after (h : w.Stores run plan) :
    Satisfies environment.machine (fun _ w' => w.AfterJudging plan run w') w
      (applyAssuranceFromRun run) := by
  by_cases hj : Judged plan run
  · obtain ⟨henabled, hdrill, hnew⟩ := hj
    refine (applyAssuranceFromRun_spec h.plan_eq henabled hdrill hnew).mono ?_
    rintro out w' ⟨now, lastRunAt, clock, rfl⟩
    refine ⟨⟨_, World.run_setRun _ _,
      ⟨rfl, rfl, rfl, rfl, rfl, rfl, rfl, rfl, rfl, fun h => h⟩, rfl⟩,
      ⟨_, World.plan_setPlan_of_eq _ h.plan_id, fun _ => ⟨rfl, rfl⟩, fun hnot => ?_⟩, rfl⟩
    exact absurd ⟨henabled, hdrill, hnew⟩ hnot
  · have hsame : w.AfterJudging plan run w :=
      ⟨⟨run, h.run_eq, .refl run, rfl⟩,
        ⟨plan, h.plan_eq, fun hj' => absurd hj' hj, fun _ => rfl⟩, rfl⟩
    cases hnew : run.assuranceEvaluated with
    | true =>
      simp only [applyAssuranceFromRun, hnew, if_true, satisfies_getPlan]
      exact hsame
    | false =>
      have hnone : (plan.assuranceEnabled && run.drill) = false := by
        by_contra hcon
        simp only [Bool.not_eq_false, Bool.and_eq_true] at hcon
        exact hj ⟨hcon.1, hcon.2, hnew⟩
      simp only [applyAssuranceFromRun, hnew, Bool.false_eq_true, if_false, satisfies_bind,
        satisfies_getPlan, then_ok, h.plan_eq, Option.filter, hnone, savePlanRun, satisfies_setRun,
        pure_eq_ret, satisfies_ret]
      exact ⟨⟨_, World.run_setRun _ _,
        ⟨rfl, rfl, rfl, rfl, rfl, rfl, rfl, rfl, rfl, fun h => h⟩, rfl⟩,
        ⟨plan, h.plan_eq, fun hj' => absurd hj' hj, fun _ => rfl⟩, rfl⟩

/-- **The verdict and the notification.** -/
theorem judgeRun_spec {stale : PlanRun} (hid : stale.id = run.id) (h : w.Stores run plan) :
    Satisfies environment.machine (fun _ w' => w.AfterJudging plan run w') w (judgeRun stale) := by
  simp only [judgeRun, satisfies_bind, satisfies_reload, hid, h.run_eq, Option.getD_some, then_ok,
    satisfies_attempt]
  refine (applyAssuranceFromRun_after h).mono fun out w₁ h₁ => ?_
  obtain ⟨⟨run₁, hrun₁, hcourse₁, htear₁⟩, ⟨plan₁, hplan₁, hjudged, hnot⟩, hjobs₁⟩ := h₁
  have hid₁ : run₁.id = run.id := hcourse₁.id
  simp only [hrun₁, Option.getD_some]
  refine (notifyOnce_spec (hid₁ ▸ hrun₁)).mono fun out w₂ h₂ => ?_
  obtain ⟨run₂, hrun₂, hcourse₂, htear₂, hplans₂, hjobs₂⟩ := h₂
  have hafter : w.AfterJudging plan run w₂ := by
    refine ⟨⟨run₂, hid₁ ▸ hrun₂, hcourse₁.trans hcourse₂, htear₂.trans htear₁⟩,
      ⟨plan₁, ?_, hjudged, hnot⟩, hjobs₂.trans hjobs₁⟩
    rw [World.plan, hplans₂]
    exact hplan₁
  cases out with
  | ok _ => rwa [then_ok, satisfies_reload]
  | error _ => rwa [then_error]

end RestoreEngine
