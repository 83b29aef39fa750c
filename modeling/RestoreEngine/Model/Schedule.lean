import RestoreEngine.Model.Api

/-!
# `plans.py` and `worker.py`: scheduled starts

A worker starts the runs of plans on a schedule. `tickScheduledPlanRuns` finds the plans that are
due, passes over those that have an active run, and starts the others by `startScheduled`, the
`_start_scheduled` of the worker, whose exceptions it hands to a log.
-/

namespace RestoreEngine

open Effects Prog

/-! ### Texts of instants -/

/-- A number in decimal digits, filled up with zeros to the width. -/
def padded (width n : ℕ) : String :=
  let digits := toString n
  String.ofList (List.replicate (width - digits.length) '0') ++ digits

/-- Year, month and day of a day, counted from the beginning of 1970. -/
def civilDate (day : ℤ) : ℤ × ℕ × ℕ :=
  let shifted := day + 719468
  let era := shifted / 146097
  let doe := (shifted - era * 146097).toNat
  let yoe := (doe - doe / 1460 + doe / 36524 - doe / 146096) / 365
  let doy := doe - (365 * yoe + yoe / 4 - yoe / 100)
  let mp := (5 * doy + 2) / 153
  let month := if mp < 10 then mp + 3 else mp - 9
  (yoe + era * 400 + (if month ≤ 2 then 1 else 0), month, doy - (153 * mp + 2) / 5 + 1)

/-- `strftime("%Y-%m-%dT%H:%M:%SZ")` of an instant, in UTC. -/
def utcText (t : Instant) : String :=
  let sec := t / 1000000
  let (year, month, day) := civilDate (sec / 86400)
  let inDay := (sec % 86400).toNat
  s!"{padded 4 year.toNat}-{padded 2 month}-{padded 2 day}T" ++
    s!"{padded 2 (inDay / 3600)}:{padded 2 (inDay / 60 % 60)}:{padded 2 (inDay % 60)}Z"

example : utcText 1777597200123456 = "2026-05-01T01:00:00Z" := by decide +kernel

/-! ### Plans that are due -/

/-- The last scheduled run is long enough ago. A time without an offset is one in UTC. -/
def IsoTime.Elapsed (last : IsoTime) (hours : ℕ) (now : Instant) : Prop :=
  match last with
  | empty | malformed => True
  | naive t | zoned t => hours * 3600 * 1000000 ≤ now - t

instance (last : IsoTime) (hours : ℕ) (now : Instant) : Decidable (last.Elapsed hours now) := by
  cases last <;> simp only [IsoTime.Elapsed] <;> infer_instance

/-- The plan is enabled and on a schedule. -/
def Plan.Scheduled (plan : Plan) : Prop :=
  plan.enabled = true ∧ plan.scheduleEnabled = true ∧ 0 < plan.scheduleIntervalHours

instance (plan : Plan) : Decidable plan.Scheduled := inferInstanceAs (Decidable (_ ∧ _))

/-- `plans_due_for_schedule`. -/
def plansDueForSchedule (plans : List Plan) (now : Instant) : List Plan :=
  plans.filter fun plan =>
    plan.Scheduled ∧ plan.lastScheduledRunAt.Elapsed plan.scheduleIntervalHours now

/-- The loop of `list_plans`. -/
def loadPlans : List Uuid → Prog (List Plan)
  | [] => return []
  | id :: rest => do
    let plan ← getPlan id
    let others ← loadPlans rest
    return plan.toList ++ others

/-- `list_plans`. The order of the ids stands for the one of their texts. -/
def listPlans : Prog (List Plan) := do
  loadPlans ((← issue .planIds).mergeSort fun a b => a ≤ b)

/-! ### Starting -/

/-- `_start_scheduled`. -/
def startScheduled (rd : Readers) (plan : Plan) (location : Location) : Prog PlanRun := do
  let cutoff := utcText (← utcNow)
  let groupRows ← rd.resolveScheduledRows plan.groupIds cutoff location
  if groupRows.all (· = []) then
    .raise (.runtimeError "Scheduled plan resolved to zero backups")
  else
    startPlanRun enqueueRestores plan location groupRows
      { cutoff, drill := plan.scheduleDrill, autoTeardown := plan.scheduleDrill }

/-- The search for an active run of the plan. -/
def hasActiveRun (planId : Uuid) : List Uuid → Prog Bool
  | [] => return false
  | runId :: rest => do
    let run ← getRun runId
    if run.any fun run => run.planId = planId ∧ run.status = .RUNNING then return true
    else hasActiveRun planId rest

/-- Start the run of a due plan; the result tells whether it was started. -/
def startDue (rd : Readers) (plan : Plan) : Prog Bool := do
  match ← getLocation plan.locationId with
  | none => return false
  | some location => do
    if ← hasActiveRun plan.id (← issue .activeRuns) then return false
    else
      let outcome ← Program.attempt do
        let _ ← startScheduled rd plan location
        let now ← utcNow
        setPlan { plan with lastScheduledRunAt := .zoned now }
      return outcome.toBool

/-- The loop of `tick_scheduled_plan_runs`. -/
def startDuePlans (rd : Readers) : List Plan → Prog ℕ
  | [] => return 0
  | plan :: rest => do
    let started ← startDue rd plan
    let others ← startDuePlans rd rest
    return started.toNat + others

/-- **`tick_scheduled_plan_runs`**, as the worker calls it. -/
def tickScheduledPlanRuns (rd : Readers) : Prog ℕ := do
  let now ← utcNow
  let plans ← listPlans
  startDuePlans rd (plansDueForSchedule plans now)

end RestoreEngine
