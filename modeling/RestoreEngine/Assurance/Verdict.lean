import RestoreEngine.Model.Footprints

/-!
# The verdict and the job hashes

`applyAssuranceFromRun` judges a drill on the records that `aggregatePlanRun` makes of the job
hashes, and these records lack what the hashes store about the HTTP check and the host name.
This module says what the stored verdict is (`storesVerdict_iff`), and exactly when it
is the verdict on the hashes themselves (`verdict_on_hashes_iff`).
-/

namespace RestoreEngine

open Effects Prog Program

variable {w : World} {plan : Plan} {run : PlanRun}

/-! ### Reading the jobs of a run -/

namespace World

/-- The job hashes of a run, in order; `{}` stands for a missing one. -/
def hashes (w : World) (run : PlanRun) : List Job :=
  (groupedJobs 0 run.jobIdsByGroup).map fun e => (w.job e.1).getD {}

/-- The records of a run that `aggregate_plan_run` makes. -/
def summaries (w : World) (run : PlanRun) : List JobRecord :=
  (groupedJobs 0 run.jobIdsByGroup).map fun e => summaryOf e.1 e.2 ((w.job e.1).getD {})

/-- The job hashes of a run as records, with all that is stored in them. -/
def records (w : World) (run : PlanRun) : List JobRecord :=
  (groupedJobs 0 run.jobIdsByGroup).map fun e => recordOf e.1 ((w.job e.1).getD {})

/-- The aggregated run. -/
def aggregated (w : World) (run : PlanRun) : AggregatedRun :=
  { run
    jobs := w.summaries run
    jobCount := (w.summaries run).length
    completedJobs := (w.summaries run).countP fun j => j.state = some .COMPLETED
    failedJobs := (w.summaries run).countP fun j => j.state = some .FAILED
    rtoSec := wallClockRtoSec run.startedAt run.finishedAt }

end World

private theorem satisfies_summarize {ids : List (Uuid × ℕ)}
    {Q : Except Exn (List JobRecord) → World → Prop} :
    Satisfies environment.machine Q w (summarize ids) ↔
      Q (.ok (ids.map fun e => summaryOf e.1 e.2 ((w.job e.1).getD {}))) w := by
  induction ids generalizing Q with
  | nil => exact satisfies_ret
  | cons e rest ih => simp [summarize, ih]

/-- `aggregate_plan_run` reads the jobs and changes nothing. -/
@[simp] theorem satisfies_aggregatePlanRun {Q : Except Exn AggregatedRun → World → Prop} :
    Satisfies environment.machine Q w (aggregatePlanRun run) ↔ Q (.ok (w.aggregated run)) w := by
  simp [aggregatePlanRun, satisfies_summarize, World.aggregated, World.summaries]

/-! ### What is stored -/

/-- The plan after a verdict. -/
def Plan.judged (plan : Plan) (runId : Uuid) (verdict : PlanAssurance × String × Option ℤ)
    (now lastRunAt : Instant) : Plan :=
  { plan with
    assuranceStatus := verdict.1
    assuranceUpdatedAt := some now
    assuranceLastRunId := some runId
    assuranceLastRtoSec := verdict.2.2
    assuranceDetail := verdict.2.1
    lastRunAt := some lastRunAt }

/-- The run after a verdict. -/
def PlanRun.judged (run : PlanRun) (verdict : PlanAssurance × String × Option ℤ) : PlanRun :=
  { run with
    assuranceEvaluated := true
    assuranceStatus := some verdict.1
    assuranceDetail := verdict.2.1 }

/-- The world after a verdict is stored, up to the clock. -/
def World.judged (w : World) (plan : Plan) (run : PlanRun)
    (verdict : PlanAssurance × String × Option ℤ) (now lastRunAt clock : Instant) : World :=
  (({ w with clock }).setPlan (plan.judged run.id verdict now lastRunAt)).setRun
    (run.judged verdict)

/-- Storing a verdict touches the plan, the run and the clock. -/
theorem storeVerdict_spec (verdict : PlanAssurance × String × Option ℤ) :
    Satisfies environment.machine
      (fun _ w' => ∃ now lastRunAt clock, w' = w.judged plan run verdict now lastRunAt clock) w
      (storeVerdict plan run verdict) := by
  rw [storeVerdict, satisfies_bind, satisfies_utcNow]
  intro n
  cases h : plan.lastRunAt.or run.finishedAt with
  | some t =>
    simp only [orNow, savePlanRun, satisfies_bind, pure_eq_ret, satisfies_ret, then_ok,
      satisfies_setPlan, satisfies_setRun]
    exact ⟨_, _, _, rfl⟩
  | none =>
    simp only [orNow, savePlanRun, satisfies_bind, pure_eq_ret, satisfies_ret, then_ok,
      satisfies_setPlan, satisfies_setRun, satisfies_utcNow]
    intro m
    exact ⟨_, _, _, rfl⟩

/-- An assurance-enabled drill is judged on the summaries. -/
theorem applyAssuranceFromRun_spec (hplan : w.plan run.planId = some plan)
    (henabled : plan.assuranceEnabled = true) (hdrill : run.drill = true)
    (hnew : run.assuranceEvaluated = false) :
    Satisfies environment.machine
      (fun _ w' => ∃ now lastRunAt clock,
        w' = w.judged plan run (evaluateAssurancePolicy plan run (w.summaries run)) now lastRunAt
          clock) w
      (applyAssuranceFromRun run) := by
  rw [applyAssuranceFromRun, hnew]
  simp only [Bool.false_eq_true, if_false, satisfies_bind, satisfies_getPlan, then_ok, hplan,
    Option.filter, henabled, hdrill, Bool.and_self, if_true, satisfies_aggregatePlanRun,
    map_eq_bind]
  refine (storeVerdict_spec _).mono ?_
  rintro (e | p) w' h
  · rw [then_error]
    exact h
  · rw [then_ok, satisfies_ret]
    exact h

/-! ### The checks of the policy -/

/-- The run met the recovery time objective of the plan, or the plan has none. -/
def MeetsRto (plan : Plan) (run : PlanRun) : Prop :=
  plan.assuranceMaxRtoSec ≤ 0 ∨
    ∃ sec, wallClockRtoSec run.startedAt run.finishedAt = some sec ∧
      sec ≤ plan.assuranceMaxRtoSec

@[simp] theorem statusFailure_eq_none : statusFailure run = none ↔ run.status = .COMPLETED := by
  rw [statusFailure]
  split_ifs with h <;> simp [h]

@[simp] theorem teardownFailure_eq_none : teardownFailure run = none ↔
    (run.autoTeardown = true → run.teardownStatus = .UNSET ∨ run.teardownStatus = .COMPLETED) := by
  rw [teardownFailure]
  split_ifs with h
  · simp [h]
  · refine iff_of_true rfl fun ha => ?_
    by_contra hcon
    exact h ⟨ha, not_or.mp hcon⟩

@[simp] theorem qgaFailure_eq_none {jobs : List JobRecord} : qgaFailure plan jobs = none ↔
    (plan.assuranceRequireQga = true → jobs ≠ [] ∧ ∀ j ∈ jobs, j.qgaOk = some "1") := by
  rw [qgaFailure]
  split_ifs with h₁ h₂ h₃
  · exact iff_of_true rfl fun h => by simp [h] at h₁
  · simp_all
  · refine iff_of_false (by simp) fun h => ?_
    obtain ⟨j, hj, hne⟩ := List.any_eq_true.mp h₃
    exact of_decide_eq_true hne ((h (by simpa using h₁)).2 j hj)
  · refine iff_of_true rfl fun _ => ⟨h₂, fun j hj => ?_⟩
    by_contra hne
    exact h₃ (List.any_eq_true.mpr ⟨j, hj, decide_eq_true hne⟩)

@[simp] theorem rtoFailure_eq_none : rtoFailure plan (wallClockRtoSec run.startedAt
    run.finishedAt) = none ↔ MeetsRto plan run := by
  rw [MeetsRto]
  by_cases hmax : plan.assuranceMaxRtoSec ≤ 0
  · simp [rtoFailure, hmax]
  · have hpos : max 0 plan.assuranceMaxRtoSec = plan.assuranceMaxRtoSec := by omega
    have hne : plan.assuranceMaxRtoSec ≠ 0 := by omega
    cases wallClockRtoSec run.startedAt run.finishedAt with
    | none => simp [rtoFailure, hpos, hne, hmax]
    | some sec => simp [rtoFailure, hpos, hne, hmax]

/-- An assurance-enabled drill is judged by its first failing check. -/
theorem evaluate_eq_verdictFor {jobs : List JobRecord} (henabled : plan.assuranceEnabled = true)
    (hdrill : run.drill = true) :
    evaluateAssurancePolicy plan run jobs = verdictFor run jobs (policyFailure plan run jobs) := by
  simp [evaluateAssurancePolicy, henabled, hdrill]

@[simp] theorem verdictFor_fst_eq_assured {jobs : List JobRecord} {failure : Option String} :
    (verdictFor run jobs failure).1 = .ASSURED ↔ failure = none := by
  cases failure <;> simp [verdictFor]

theorem verdictFor_eq_iff {jobs jobs' : List JobRecord} {failure failure' : Option String} :
    verdictFor run jobs failure = verdictFor run jobs' failure' ↔
      failure = failure' ∧ (failure = none → passedDetail jobs = passedDetail jobs') := by
  cases failure <;> cases failure' <;> simp [verdictFor]

/-! ### What the summaries lose -/

/-- The HTTP check of the job passed. -/
def Job.HttpPassed (j : Job) : Prop :=
  Text.strip j.httpCheckUrl ≠ "" ∧ j.httpCheckOk = "1"

instance (j : Job) : Decidable j.HttpPassed := inferInstanceAs (Decidable (_ ∧ _))

/-- The job hash carries a warning about the host name. -/
def Job.HostnameWarned (j : Job) : Prop :=
  Text.strip j.hostnameWarning ≠ "" ∨ j.hostnameMatch = "0"

instance (j : Job) : Decidable j.HostnameWarned := inferInstanceAs (Decidable (_ ∨ _))

/-- **When the summaries suffice**: an earlier check fails; or the HTTP check is required
and the first job without a passed one has no URL; or it is not required, and the recovery
time objective is missed or no hash carries a warning about the host name. -/
def SummariesSuffice (plan : Plan) (run : PlanRun) (hashes : List Job) : Prop :=
  run.status ≠ .COMPLETED ∨
    (run.autoTeardown = true ∧ run.teardownStatus ≠ .UNSET ∧ run.teardownStatus ≠ .COMPLETED) ∨
    (plan.assuranceRequireQga = true ∧ (hashes = [] ∨ ∃ j ∈ hashes, j.qgaOk ≠ "1")) ∨
    (plan.assuranceRequireHttp = true ∧ (hashes = [] ∨
      ∃ j, hashes.find? (fun j => decide ¬ j.HttpPassed) = some j ∧
        Text.strip j.httpCheckUrl = "")) ∨
    (plan.assuranceRequireHttp = false ∧
      (¬ MeetsRto plan run ∨ ∀ j ∈ hashes, ¬ j.HostnameWarned))

private theorem strip_empty : Text.strip "" = "" := by decide

@[simp] private theorem recordOf_qgaOk (id : Uuid) (j : Job) :
    (recordOf id j).qgaOk = some j.qgaOk := rfl

@[simp] private theorem recordOf_httpCheckUrl (id : Uuid) (j : Job) :
    (recordOf id j).httpCheckUrl = some j.httpCheckUrl := rfl

@[simp] private theorem recordOf_httpCheckOk (id : Uuid) (j : Job) :
    (recordOf id j).httpCheckOk = some j.httpCheckOk := rfl

@[simp] private theorem recordOf_hostnameMatch (id : Uuid) (j : Job) :
    (recordOf id j).hostnameMatch = some j.hostnameMatch := rfl

@[simp] private theorem recordOf_hostnameWarning (id : Uuid) (j : Job) :
    (recordOf id j).hostnameWarning = some j.hostnameWarning := rfl

/-- No summary has an HTTP check. -/
private theorem httpFailureOf_summaries (h : w.summaries run ≠ []) :
    httpFailureOf (w.summaries run) = some "HTTP check required but no http_check_url on jobs" := by
  rw [World.summaries] at h ⊢
  cases hids : groupedJobs 0 run.jobIdsByGroup with
  | nil => exact absurd (by rw [hids]; rfl) h
  | cons e rest => simp [httpFailureOf, summaryOf, strip_empty]

/-- No summary has a warning about the host name. -/
private theorem passedDetail_summaries :
    passedDetail (w.summaries run) = "drill completed within policy" := by
  have hnone : (w.summaries run).filterMap hostnameWarningOf = [] := by
    refine List.filterMap_eq_nil_iff.mpr fun j hj => ?_
    obtain ⟨e, -, rfl⟩ := List.mem_map.mp hj
    simp [hostnameWarningOf, summaryOf, strip_empty]
  rw [passedDetail, hnone]

private theorem records_eq_nil : w.records run = [] ↔ w.hashes run = [] := by
  simp [World.records, World.hashes]

private theorem summaries_eq_nil : w.summaries run = [] ↔ w.hashes run = [] := by
  simp [World.summaries, World.hashes]

/-- The QGA check reads the same in both. -/
private theorem qgaFailure_summaries :
    qgaFailure plan (w.summaries run) = qgaFailure plan (w.records run) := by
  have hany : (w.summaries run).any (fun j => decide (j.qgaOk ≠ some "1")) =
      (w.records run).any fun j => decide (j.qgaOk ≠ some "1") := by
    rw [World.summaries, World.records, List.any_map, List.any_map]
    rfl
  rw [qgaFailure, qgaFailure, hany]
  simp only [summaries_eq_nil, records_eq_nil]

private theorem qgaFailure_records_eq_none : qgaFailure plan (w.records run) = none ↔
    (plan.assuranceRequireQga = true → w.hashes run ≠ [] ∧ ∀ j ∈ w.hashes run, j.qgaOk = "1") := by
  rw [qgaFailure_eq_none, ne_eq, records_eq_nil]
  simp only [World.records, World.hashes, List.forall_mem_map, recordOf_qgaOk, Option.some.injEq,
    ne_eq]

/-- The HTTP check of the hashes fails for want of a URL. -/
private theorem httpFailureOf_records_eq_url {ids : List (Uuid × ℕ)} :
    httpFailureOf (ids.map fun e => recordOf e.1 ((w.job e.1).getD {})) =
        some "HTTP check required but no http_check_url on jobs" ↔
      ∃ j, (ids.map fun e => (w.job e.1).getD {}).find? (fun j => decide ¬ j.HttpPassed) = some j ∧
        Text.strip j.httpCheckUrl = "" := by
  induction ids with
  | nil => simp [httpFailureOf]
  | cons e rest ih =>
    rw [List.map_cons, List.map_cons, httpFailureOf, List.find?_cons]
    generalize (w.job e.1).getD {} = j
    by_cases hurl : Text.strip j.httpCheckUrl = ""
    · simp [hurl, Job.HttpPassed]
    · by_cases hok : j.httpCheckOk = "1"
      · simpa [hurl, hok, Job.HttpPassed] using ih
      · simp [hurl, hok, Job.HttpPassed]

private theorem hostnameWarningOf_recordOf {id : Uuid} {j : Job} :
    hostnameWarningOf (recordOf id j) = none ↔ ¬ j.HostnameWarned := by
  simp only [hostnameWarningOf, recordOf_hostnameWarning, recordOf_hostnameMatch,
    Option.getD_some, Job.HostnameWarned]
  by_cases hwarn : Text.strip j.hostnameWarning = "" <;>
    by_cases hmatch : j.hostnameMatch = "0" <;> simp [hwarn, hmatch]

private theorem passedDetail_eq_iff {jobs : List JobRecord} :
    passedDetail jobs = "drill completed within policy" ↔
      ∀ j ∈ jobs, hostnameWarningOf j = none := by
  rw [← List.filterMap_eq_nil_iff, passedDetail]
  cases h : jobs.filterMap hostnameWarningOf with
  | nil => simp
  | cons warn rest =>
    refine iff_of_false (fun heq => ?_) (by simp)
    have hlen := congrArg String.length heq
    simp only [String.length_append] at hlen
    have hsep : "; warnings: ".length = 12 := by decide
    omega

/-- A complaint about the objective is none about the HTTP check. -/
private theorem rtoFailure_ne_url {rto : Option ℤ} :
    rtoFailure plan rto ≠ some "HTTP check required but no http_check_url on jobs" := by
  intro h
  have hhead := congrArg (Option.map fun s : String => s.toList.head?) h
  simp only [rtoFailure] at hhead
  split_ifs at hhead
  · cases hhead
  · cases rto with
    | none =>
      simp [toString] at hhead
    | some sec =>
      simp only at hhead
      split_ifs at hhead
      · simp [toString] at hhead
      · cases hhead

/-- Where the HTTP check is required, the summaries agree with the hashes if the hashes fail
for want of a URL, too. -/
private theorem httpFailure_agrees_iff (hreq : plan.assuranceRequireHttp = true) :
    (httpFailure plan (w.summaries run)).or
        (rtoFailure plan (wallClockRtoSec run.startedAt run.finishedAt)) =
      (httpFailure plan (w.records run)).or
        (rtoFailure plan (wallClockRtoSec run.startedAt run.finishedAt)) ↔
      w.hashes run = [] ∨
        ∃ j, (w.hashes run).find? (fun j => decide ¬ j.HttpPassed) = some j ∧
          Text.strip j.httpCheckUrl = "" := by
  by_cases hnil : w.hashes run = []
  · simp [httpFailure, hreq, summaries_eq_nil, records_eq_nil, hnil]
  · have hsum := httpFailureOf_summaries (mt summaries_eq_nil.mp hnil)
    refine Iff.trans ?_ (httpFailureOf_records_eq_url.trans (or_iff_right hnil).symm)
    change _ ↔ httpFailureOf (w.records run) = _
    simp only [httpFailure, hreq, Bool.not_true, Bool.false_eq_true, if_false, summaries_eq_nil,
      records_eq_nil, hnil, hsum, Option.some_or]
    cases hrec : httpFailureOf (w.records run) with
    | none =>
      rw [Option.none_or]
      exact iff_of_false (fun h => rtoFailure_ne_url h.symm) (by simp)
    | some d => rw [Option.some_or, eq_comm]

/-- Where it is required, the summaries never pass. -/
private theorem httpFailure_summaries_ne_none (hreq : plan.assuranceRequireHttp = true) :
    httpFailure plan (w.summaries run) ≠ none := by
  by_cases hnil : w.summaries run = []
  · simp [httpFailure, hreq, hnil]
  · simp [httpFailure, hreq, hnil, httpFailureOf_summaries hnil]

/-- The verdict on the summaries is the verdict on the hashes exactly when the summaries
suffice. -/
theorem evaluate_summaries_eq_iff (henabled : plan.assuranceEnabled = true)
    (hdrill : run.drill = true) :
    evaluateAssurancePolicy plan run (w.summaries run) =
        evaluateAssurancePolicy plan run (w.records run) ↔
      SummariesSuffice plan run (w.hashes run) := by
  rw [evaluate_eq_verdictFor henabled hdrill, evaluate_eq_verdictFor henabled hdrill,
    verdictFor_eq_iff, SummariesSuffice, policyFailure, policyFailure, qgaFailure_summaries]
  -- the checks before the HTTP check read the same records
  by_cases hstatus : run.status = .COMPLETED
  swap
  · obtain ⟨d, hd⟩ := Option.ne_none_iff_exists'.mp (mt statusFailure_eq_none.mp hstatus)
    simp [hd, hstatus]
  by_cases htear : run.autoTeardown = true →
      run.teardownStatus = .UNSET ∨ run.teardownStatus = .COMPLETED
  swap
  · obtain ⟨d, hd⟩ := Option.ne_none_iff_exists'.mp (mt teardownFailure_eq_none.mp htear)
    simp only [Classical.not_imp, not_or] at htear
    simp [statusFailure_eq_none.mpr hstatus, hd, htear]
  by_cases hqga : plan.assuranceRequireQga = true →
      w.hashes run ≠ [] ∧ ∀ j ∈ w.hashes run, j.qgaOk = "1"
  swap
  · obtain ⟨d, hd⟩ := Option.ne_none_iff_exists'.mp (mt qgaFailure_records_eq_none.mp hqga)
    have hfails : plan.assuranceRequireQga = true ∧
        (w.hashes run = [] ∨ ∃ j ∈ w.hashes run, j.qgaOk ≠ "1") := by
      simp only [Classical.not_imp, not_and_or, not_not, not_forall] at hqga
      simpa using hqga
    simp [statusFailure_eq_none.mpr hstatus, teardownFailure_eq_none.mpr htear, hd, hfails]
  have hearlier : ¬ (plan.assuranceRequireQga = true ∧
      (w.hashes run = [] ∨ ∃ j ∈ w.hashes run, j.qgaOk ≠ "1")) := by
    rintro ⟨hreq, hnil | ⟨j, hj, hne⟩⟩
    · exact (hqga hreq).1 hnil
    · exact hne ((hqga hreq).2 j hj)
  have htorn : ¬ (run.autoTeardown = true ∧ run.teardownStatus ≠ .UNSET ∧
      run.teardownStatus ≠ .COMPLETED) :=
    fun h => (htear h.1).elim h.2.1 h.2.2
  rw [statusFailure_eq_none.mpr hstatus, teardownFailure_eq_none.mpr htear,
    qgaFailure_records_eq_none.mpr hqga, or_iff_right (not_not.mpr hstatus), or_iff_right htorn,
    or_iff_right hearlier, Option.none_or, Option.none_or, Option.none_or, Option.none_or,
    Option.none_or, Option.none_or]
  cases hreq : plan.assuranceRequireHttp with
  | true =>
    have hfail : httpFailure plan (w.summaries run) ≠ none := httpFailure_summaries_ne_none hreq
    have hne : (httpFailure plan (w.summaries run)).or
        (rtoFailure plan (wallClockRtoSec run.startedAt run.finishedAt)) ≠ none :=
      fun h => hfail (Option.or_eq_none_iff.mp h).1
    rw [httpFailure_agrees_iff hreq]
    simp [hne]
  | false =>
    have hpass : ∀ jobs, httpFailure plan jobs = none := fun jobs => by simp [httpFailure, hreq]
    have hdetail : passedDetail (w.summaries run) = passedDetail (w.records run) ↔
        ∀ j ∈ w.hashes run, ¬ j.HostnameWarned := by
      rw [passedDetail_summaries, eq_comm, passedDetail_eq_iff]
      simp only [World.records, World.hashes, List.forall_mem_map, hostnameWarningOf_recordOf]
    rw [hpass, hpass, Option.none_or, rtoFailure_eq_none, hdetail]
    simp [imp_iff_not_or]

/-- The checks of the policy, as they come out on the summaries, besides the ones on the status
and the teardown of the run. -/
structure Passes (plan : Plan) (run : PlanRun) (hashes : List Job) : Prop where
  qga : plan.assuranceRequireQga = true → hashes ≠ [] ∧ ∀ j ∈ hashes, j.qgaOk = "1"
  http : plan.assuranceRequireHttp = false
  rto : MeetsRto plan run

/-- When the summaries make a drill ASSURED. -/
theorem evaluate_summaries_assured_iff (henabled : plan.assuranceEnabled = true)
    (hdrill : run.drill = true) :
    (evaluateAssurancePolicy plan run (w.summaries run)).1 = .ASSURED ↔
      run.status = .COMPLETED ∧
        (run.autoTeardown = true →
          run.teardownStatus = .UNSET ∨ run.teardownStatus = .COMPLETED) ∧
        Passes plan run (w.hashes run) := by
  have hhttp : httpFailure plan (w.summaries run) = none ↔ plan.assuranceRequireHttp = false := by
    cases hreq : plan.assuranceRequireHttp with
    | true => exact iff_of_false (httpFailure_summaries_ne_none hreq) nofun
    | false => simp [httpFailure, hreq]
  rw [evaluate_eq_verdictFor henabled hdrill, verdictFor_fst_eq_assured, policyFailure,
    qgaFailure_summaries]
  simp only [Option.or_eq_none_iff, statusFailure_eq_none, teardownFailure_eq_none,
    qgaFailure_records_eq_none, hhttp, rtoFailure_eq_none]
  exact ⟨fun ⟨hs, ht, hq, hh, hr⟩ => ⟨hs, ht, hq, hh, hr⟩,
    fun ⟨hs, ht, hq, hh, hr⟩ => ⟨hs, ht, hq, hh, hr⟩⟩

/-! ### The stored verdict -/

/-- The verdict that the plan stores. -/
def Plan.verdict (plan : Plan) : PlanAssurance × String × Option ℤ :=
  (plan.assuranceStatus, plan.assuranceDetail, plan.assuranceLastRtoSec)

/-- Judging the run stores in the plan the verdict `verdict`. -/
def StoresVerdict (w : World) (plan : Plan) (run : PlanRun)
    (verdict : PlanAssurance × String × Option ℤ) : Prop :=
  ∀ out w', Ends environment (applyAssuranceFromRun run) w out w' →
    (w'.plan plan.id).map Plan.verdict = some verdict

private theorem storeVerdict_only (verdict : PlanAssurance × String × Option ℤ) :
    (storeVerdict plan run verdict).Only fun o => o ≠ Op.park := by
  refine Only.bind (only_perform.mpr nofun) fun now => Only.bind ?_ fun lastRunAt => ?_
  · cases plan.lastRunAt.or run.finishedAt with
    | some t => exact only_ret
    | none => exact only_perform.mpr nofun
  · refine Only.bind (only_perform.mpr nofun) fun _ => Only.bind ?_ fun _ => only_ret
    exact Only.bind (only_perform.mpr nofun) fun _ => only_ret

/-- Judging a run never waits without end. -/
theorem applyAssuranceFromRun_only (run : PlanRun) :
    (applyAssuranceFromRun run).Only fun o => o ≠ Op.park := by
  refine Only.ite (fun _ => only_perform.mpr nofun) fun _ => ?_
  refine Only.bind (only_perform.mpr nofun) fun found => ?_
  split
  · exact Only.bind (Only.bind (only_perform.mpr nofun) fun _ => only_ret) fun _ => only_ret
  · refine Only.bind (aggregatePlanRun_only (fun _ => nofun) run) fun _ => ?_
    exact Only.bind (storeVerdict_only _) fun _ => only_ret

/-- The stored verdict is the one on the summaries. -/
theorem storesVerdict_iff (hplan : w.plan run.planId = some plan)
    (henabled : plan.assuranceEnabled = true) (hdrill : run.drill = true)
    (hnew : run.assuranceEvaluated = false) {verdict : PlanAssurance × String × Option ℤ} :
    StoresVerdict w plan run verdict ↔
      evaluateAssurancePolicy plan run (w.summaries run) = verdict := by
  have hspec := satisfies_iff_ends.mp (applyAssuranceFromRun_spec hplan henabled hdrill hnew)
  have hstored : ∀ out w', Ends environment (applyAssuranceFromRun run) w out w' →
      (w'.plan plan.id).map Plan.verdict =
        some (evaluateAssurancePolicy plan run (w.summaries run)) := by
    intro out w' hends
    obtain ⟨now, lastRunAt, clock, rfl⟩ := hspec out w' hends
    have hlookup : ∀ verdict, (w.judged plan run verdict now lastRunAt clock).plan plan.id =
        some (plan.judged run.id verdict now lastRunAt) :=
      fun verdict => AList.lookup_insert _
    rw [hlookup]
    rfl
  constructor
  · intro h
    obtain ⟨out, w', hends⟩ := exists_run (applyAssuranceFromRun_only run) w
    exact Option.some.inj ((hstored out w' hends).symm.trans (h out w' hends))
  · rintro rfl out w' hends
    exact hstored out w' hends

/-- **The verdict and the hashes.** Judging an assurance-enabled drill stores the verdict that
the policy gives on the job hashes exactly when the summaries suffice. -/
theorem verdict_on_hashes_iff (hplan : w.plan run.planId = some plan)
    (henabled : plan.assuranceEnabled = true) (hdrill : run.drill = true)
    (hnew : run.assuranceEvaluated = false) :
    StoresVerdict w plan run (evaluateAssurancePolicy plan run (w.records run)) ↔
      SummariesSuffice plan run (w.hashes run) :=
  (storesVerdict_iff hplan henabled hdrill hnew).trans
    (evaluate_summaries_eq_iff henabled hdrill)

/-! ### A drill that passed its HTTP check -/

/-- A plan that may require the HTTP check. -/
def httpPlan (required : Bool) : Plan :=
  { id := 0, groupIds := [1], locationId := 2, assuranceEnabled := true
    assuranceRequireHttp := required }

/-- A job whose checks all passed. -/
def checkedJob : Job :=
  { state := some .COMPLETED, proxmoxVmid := some 100, proxmoxNode := some "pve", qgaOk := "1"
    httpCheckUrl := "http://10.0.0.5/", httpCheckOk := "1", hostnameMatch := "1" }

/-- A drill of the plan with this job, torn down. -/
def checkedDrill : PlanRun :=
  { id := 3, planId := 0, status := .COMPLETED, locationId := 2, node := "pve", nodes := ["pve"]
    storage := "local", vmidStart := 100, drill := true, autoTeardown := true
    teardownStatus := .COMPLETED, groupIds := [1], jobIdsByGroup := [[4]]
    startedAt := some 0, finishedAt := some (60 * second) }

/-- The world that stores them. -/
def checkedWorld (required : Bool) : World :=
  { jobs := (∅ : AList _).insert 4 checkedJob
    runs := (∅ : AList _).insert 3 checkedDrill
    plans := (∅ : AList _).insert 0 (httpPlan required)
    nextUuid := 5 }

/-- The policy's verdict on the hashes of that world. -/
def checkedVerdict (required : Bool) : PlanAssurance × String × Option ℤ :=
  evaluateAssurancePolicy (httpPlan required) checkedDrill
    ((checkedWorld required).records checkedDrill)

/-- On the hashes the drill is ASSURED, but FAILED is stored. -/
theorem checked_drill_judged_failed :
    (checkedVerdict true).1 = .ASSURED ∧
      ¬ StoresVerdict (checkedWorld true) (httpPlan true) checkedDrill (checkedVerdict true) := by
  refine ⟨by decide, fun hall => ?_⟩
  have hrun : (Program.run environment [] (applyAssuranceFromRun checkedDrill)
      (checkedWorld true)).map (fun r => (r.2.plan 0).map (·.assuranceStatus)) =
        some (some .FAILED) := by
    decide
  obtain ⟨out, w', hends, hfailed⟩ := exists_ends_of_run hrun
  have hstatus := congrArg (Option.map Prod.fst) (hall out w' hends)
  rw [Option.map_map] at hstatus
  have hsame : some PlanAssurance.FAILED = some .ASSURED :=
    hfailed.symm.trans (hstatus.trans (by decide))
  cases hsame

/-- Without the requirement the same drill is judged as its hashes deserve. -/
theorem checked_drill_judged_on_hashes :
    StoresVerdict (checkedWorld false) (httpPlan false) checkedDrill (checkedVerdict false) := by
  refine (verdict_on_hashes_iff rfl rfl rfl rfl).mpr ?_
  have hnone : ∀ j ∈ (checkedWorld false).hashes checkedDrill, ¬ j.HostnameWarned := by decide
  exact .inr (.inr (.inr (.inr ⟨rfl, .inr hnone⟩)))

end RestoreEngine
