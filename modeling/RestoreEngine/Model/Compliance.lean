import RestoreEngine.Model.Assurance
import RestoreEngine.Model.Backups

/-!
# `reports.py`: the compliance dashboard

`complianceDashboard` looks at all plans and tells of each how far it can be relied on: whether it
is verified, what the last runs and drills came to, and whether its schedule is kept. It reads what
is stored and writes nothing, so that it is a function of the world and of the time.

A run that an item shows stands for the fields that are copied from it.
-/

namespace RestoreEngine

/-! ### The schedule -/

/-- The last second that the clock functions of the platform convert. -/
def lastConvertible : ℤ := 67768036191676799

/-- `datetime.fromtimestamp(t, tz=timezone.utc)`. A time outside the calendar is a `ValueError`, one
that the platform does not convert an `OSError` or `OverflowError`. -/
def fromTimestamp (t : Instant) : Except Exn Instant :=
  let sec := t / 1000000
  if lastConvertible < sec then .error (.api "timestamp out of range")
  else if sec < firstSecond ∨ lastSecond < sec then .error (.valueError "year is out of range")
  else .ok t

/-- `next_scheduled_iso`. -/
def nextScheduledIso (plan : Plan) (now : Instant) : Except Exn IsoTime :=
  if plan.scheduleEnabled = false then .ok .empty
  else if plan.scheduleIntervalHours = 0 then .ok .empty
  else
    match plan.lastScheduledRunAt with
    | .empty | .malformed => .ok (.zoned now)
    | .naive last | .zoned last =>
      match fromTimestamp (last + plan.scheduleIntervalHours * 3600 * 1000000) with
      | .ok next => .ok (.zoned next)
      | .error (.valueError _) => .ok (.zoned now)
      | .error e => .error e

/-- How the dashboard judges a schedule. -/
inductive ScheduleFlag
  | none | overdue | dueSoon
  deriving DecidableEq

/-- `schedule_overdue` and `schedule_due_soon`. -/
def scheduleFlag (plan : Plan) (next : IsoTime) (now : Instant) : ScheduleFlag :=
  if plan.scheduleEnabled = true ∧ plan.enabled = true then
    match next with
    | .empty => .overdue
    | .malformed => .none
    | .naive next | .zoned next =>
      if next - now ≤ 0 then .overdue
      else if next - now ≤ 3600 * 1000000 then .dueSoon
      else .none
  else .none

/-! ### Runs -/

/-- `_list_entities`. The order of the ids stands for the one of their texts. -/
def listEntities {β : Type} (entries : AList fun _ : Uuid => β) : List β :=
  (entries.keys.mergeSort fun a b => a ≤ b).filterMap entries.lookup

/-- Entities that stand in the order of their ids are listed as they stand. -/
theorem listEntities_of_sorted {β : Type} {entries : AList fun _ : Uuid => β}
    (h : entries.keys.Pairwise fun a b => decide (a ≤ b) = true) :
    listEntities entries = entries.keys.filterMap entries.lookup := by
  rw [listEntities, List.mergeSort_of_pairwise h]

/-- One start comes no later than another. A run without a start comes first. -/
def startsNoLater : Option Instant → Option Instant → Bool
  | none, _ => true
  | some _, none => false
  | some a, some b => a ≤ b

/-- `list_plan_runs`, for a plan. -/
def World.listPlanRuns (w : World) (planId : Uuid) (limit : ℕ) : List PlanRun :=
  let runs := (listEntities w.runs).filter fun run => run.planId = planId
  (runs.mergeSort fun a b => startsNoLater b.startedAt a.startedAt).take (max 1 limit)

/-- The run has ended, and it is stored when. -/
def PlanRun.Finished (run : PlanRun) : Prop := run.status ≠ .RUNNING ∧ run.finishedAt ≠ none

instance (run : PlanRun) : Decidable run.Finished := inferInstanceAs (Decidable (_ ∧ _))

/-- The last run of a plan, the last one that was no drill, and the last drill. -/
structure LastRuns where
  any : Option PlanRun := none
  prod : Option PlanRun := none
  drill : Option PlanRun := none
  deriving DecidableEq

/-- The loop of `compliance_dashboard` over the runs of a plan. -/
def lastRuns (last : LastRuns) : List PlanRun → LastRuns
  | [] => last
  | run :: runs =>
    if ¬ run.Finished then lastRuns last runs
    else
      let last := { last with any := last.any <|> some run }
      let last :=
        if run.drill then { last with drill := last.drill <|> some run }
        else { last with prod := last.prod <|> some run }
      if last.prod ≠ none ∧ last.drill ≠ none ∧ last.any ≠ none then last else lastRuns last runs

/-- The drill that runs for a plan. -/
def World.activeDrill (w : World) (planId : Uuid) : Option PlanRun :=
  ((w.active.filterMap w.run).filter fun run =>
    run.status = .RUNNING ∧ run.drill = true ∧ run.planId = planId).getLast?

/-- `_rto`. -/
def rtoOf (run : Option PlanRun) : Option ℤ :=
  run.bind fun run => wallClockRtoSec run.startedAt run.finishedAt

/-- `format_duration`. -/
def formatDuration : Option ℤ → String
  | none => "—"
  | some sec =>
    if sec < 60 then s!"{sec}s"
    else if sec / 60 < 60 then s!"{sec / 60}m {sec % 60}s"
    else s!"{sec / 60 / 60}h {sec / 60 % 60}m {sec % 60}s"

/-! ### The dashboard -/

/-- What the dashboard tells of the assurance of a plan. -/
inductive AssuranceShown
  | disabled
  | shown (status : PlanAssurance)
  deriving DecidableEq

/-- What the dashboard tells of a plan. -/
structure ComplianceItem where
  planId : Uuid
  planName : String
  enabled : Bool
  verification : PlanVerification
  lastCheckAt : IsoTime
  lastCheckOk : Option Bool
  lastCheckSummary : String
  lastCheckReportId : Option Uuid
  assuranceEnabled : Bool
  assuranceStatus : AssuranceShown
  assuranceDetail : String
  assuranceUpdatedAt : Option Instant
  assuranceRequireQga : Bool
  assuranceRequireHttp : Bool
  assuranceMaxRtoSec : ℤ
  assuranceLastRtoSec : Option ℤ
  assuranceLastRto : String
  lastRun : Option PlanRun
  lastRunRtoSec : Option ℤ
  lastRunRto : String
  lastRunReportId : Option Uuid
  lastProdRun : Option PlanRun
  lastProdRunRtoSec : Option ℤ
  lastProdRunRto : String
  lastDrill : Option PlanRun
  lastDrillRtoSec : Option ℤ
  lastDrillRto : String
  scheduleEnabled : Bool
  scheduleIntervalHours : ℕ
  nextScheduledAt : IsoTime
  lastScheduledRunAt : IsoTime
  scheduleOverdue : Bool
  scheduleDueSoon : Bool
  usesTagGroups : Bool
  activeRunId : Option Uuid
  risks : List String
  locationId : Uuid
  deriving DecidableEq

/-- What speaks against a plan. -/
def complianceRisks (cfg : Config) (plan : Plan) (active lastDrill : Option PlanRun)
    (overdue usesTagGroups : Bool) : List String :=
  (if plan.assuranceEnabled then [] else ["assurance_policy_off"]) ++
  (if plan.verification = .VERIFIED then [] else ["not_verified"]) ++
  (if requireVerifiedToRun cfg ∧ plan.verification ≠ .VERIFIED then ["verify_gate_blocks_run"]
    else []) ++
  (if active ≠ none then ["drill_in_progress"] else []) ++
  (if lastDrill.any fun run => run.teardownStatus ∉ [.UNSET, .COMPLETED] then ["teardown_failed"]
    else []) ++
  (if overdue then ["schedule_overdue"] else []) ++
  (if usesTagGroups ∧ plan.scheduleEnabled then ["uses_tag_groups"] else [])

/-- The loop of `compliance_dashboard`, for one plan. -/
def complianceItem (cfg : Config) (w : World) (now : Instant) (plan : Plan) :
    Except Exn ComplianceItem := do
  let last := lastRuns {} (w.listPlanRuns plan.id 20)
  let active := w.activeDrill plan.id
  let next ← nextScheduledIso plan now
  let flag := scheduleFlag plan next now
  let usesTagGroups := plan.groupIds.any fun id => (w.group id).any fun group => group.tags ≠ []
  return {
    planId := plan.id
    planName := plan.name
    enabled := plan.enabled
    verification := plan.verification
    lastCheckAt := plan.lastCheckAt
    lastCheckOk := plan.lastCheck.map (·.ok)
    lastCheckSummary := (plan.lastCheck.map (·.summary)).getD ""
    lastCheckReportId := plan.lastCheckReportId
    assuranceEnabled := plan.assuranceEnabled
    assuranceStatus :=
      if plan.assuranceEnabled = false then .disabled
      else if active ≠ none then .shown .IN_PROGRESS
      else .shown (if plan.assuranceStatus = .IN_PROGRESS then .UNKNOWN else plan.assuranceStatus)
    assuranceDetail :=
      match plan.assuranceEnabled, active with
      | true, some run => s!"assurance drill running ({run.id})"
      | _, _ => plan.assuranceDetail
    assuranceUpdatedAt := plan.assuranceUpdatedAt
    assuranceRequireQga := plan.assuranceRequireQga
    assuranceRequireHttp := plan.assuranceRequireHttp
    assuranceMaxRtoSec := plan.assuranceMaxRtoSec
    assuranceLastRtoSec := plan.assuranceLastRtoSec
    assuranceLastRto := formatDuration plan.assuranceLastRtoSec
    lastRun := last.any
    lastRunRtoSec := rtoOf last.any
    lastRunRto := formatDuration (rtoOf last.any)
    lastRunReportId := plan.lastRunReportId
    lastProdRun := last.prod
    lastProdRunRtoSec := rtoOf last.prod
    lastProdRunRto := formatDuration (rtoOf last.prod)
    lastDrill := last.drill
    lastDrillRtoSec := rtoOf last.drill
    lastDrillRto := formatDuration (rtoOf last.drill)
    scheduleEnabled := plan.scheduleEnabled
    scheduleIntervalHours := plan.scheduleIntervalHours
    nextScheduledAt := next
    lastScheduledRunAt := plan.lastScheduledRunAt
    scheduleOverdue := flag = .overdue
    scheduleDueSoon := flag = .dueSoon
    usesTagGroups
    activeRunId := active.map (·.id)
    risks := complianceRisks cfg plan active last.drill (flag = .overdue) usesTagGroups
    locationId := plan.locationId }

/-- The counts over all plans. -/
structure ComplianceCounts where
  verification : PlanVerification → ℕ
  assurance : AssuranceShown → ℕ
  scheduleEnabled : ℕ
  scheduleOverdue : ℕ
  scheduleDueSoon : ℕ
  disabledPlans : ℕ
  requireVerifiedToRun : Bool

/-- The dashboard. -/
structure Compliance where
  plans : List ComplianceItem
  counts : ComplianceCounts

/-- **`compliance_dashboard`.** -/
def complianceDashboard (cfg : Config) (w : World) (now : Instant) : Except Exn Compliance := do
  let items ← (listEntities w.plans).mapM (complianceItem cfg w now)
  let enabled := items.filter (·.enabled)
  return {
    plans := items
    counts := {
      verification := fun v => enabled.countP (·.verification = v)
      assurance := fun shown => items.countP (·.assuranceStatus = shown)
      scheduleEnabled := enabled.countP (·.scheduleEnabled)
      scheduleOverdue := enabled.countP (·.scheduleOverdue)
      scheduleDueSoon := enabled.countP (·.scheduleDueSoon)
      disabledPlans := items.countP (!·.enabled)
      requireVerifiedToRun := requireVerifiedToRun cfg } }

/-- The dashboard shows the items of all plans. -/
theorem complianceDashboard_iff {cfg : Config} {w : World} {now : Instant}
    {items : List ComplianceItem} :
    (∃ dash, complianceDashboard cfg w now = .ok dash ∧ dash.plans = items) ↔
      (listEntities w.plans).mapM (complianceItem cfg w now) = .ok items := by
  constructor
  · rintro ⟨dash, hdash, rfl⟩
    obtain ⟨items, hmap, hdash⟩ := Effects.of_bind_ok hdash
    obtain rfl := Except.ok.inj hdash
    exact hmap
  · intro hmap
    rw [complianceDashboard, hmap]
    exact ⟨_, rfl, rfl⟩

end RestoreEngine
