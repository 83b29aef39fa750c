import RestoreEngine.Effects.Program
import RestoreEngine.Model.Compliance

/-!
# Overdue on the dashboard and due for the worker

The dashboard takes a schedule without an interval for overdue, and one whose next run would be
after the end of the calendar; the worker starts neither. For all other schedules the two agree
(`overdue_agrees_iff`).
-/

namespace RestoreEngine

open Effects

variable {plan : Plan} {now : Instant} {cfg : Config} {w : World}

/-- The instant that a text stands for. -/
def IsoTime.instant? : IsoTime → Option Instant
  | .empty | .malformed => none
  | .naive t | .zoned t => some t

/-- The time of the next run after the last one. -/
def Plan.nextRun (plan : Plan) (last : Instant) : Instant :=
  last + plan.scheduleIntervalHours * 3600 * 1000000

/-- The calendar has the time. -/
def InCalendar (t : Instant) : Prop :=
  firstSecond ≤ t / 1000000 ∧ t / 1000000 ≤ lastSecond

instance (t : Instant) : Decidable (InCalendar t) := inferInstanceAs (Decidable (_ ∧ _))

/-- **The schedule is told alike.** If it is on, it has an interval, unless the plan is disabled.
After a last run the calendar has the time of the next one, or the platform converts that time and
it has passed, unless the plan is disabled. -/
structure Plan.ToldAlike (plan : Plan) (now : Instant) : Prop where
  interval : plan.scheduleEnabled = true → plan.enabled = true → 0 < plan.scheduleIntervalHours
  calendar : plan.scheduleEnabled = true → 0 < plan.scheduleIntervalHours →
    ∀ last, plan.lastScheduledRunAt.instant? = some last → InCalendar (plan.nextRun last) ∨
      plan.nextRun last / 1000000 ≤ lastConvertible ∧
        (plan.enabled = true → plan.nextRun last ≤ now)

/-- The dashboard says of a plan what the worker goes by. -/
def AgreesWithWorker (plan : Plan) (plans : List Plan) (now : Instant) (item : ComplianceItem) :
    Prop := item.scheduleOverdue = true ↔ plan ∈ plansDueForSchedule plans now

theorem mem_plansDue_iff {plans : List Plan} (h : plan ∈ plans) :
    plan ∈ plansDueForSchedule plans now ↔
      plan.Scheduled ∧ plan.lastScheduledRunAt.Elapsed plan.scheduleIntervalHours now := by
  rw [plansDueForSchedule, List.mem_filter, decide_eq_true_iff, and_iff_right h]

/-- The worker waits for the next run, if there was a last one. -/
theorem elapsed_iff : plan.lastScheduledRunAt.Elapsed plan.scheduleIntervalHours now ↔
    ∀ last, plan.lastScheduledRunAt.instant? = some last → plan.nextRun last ≤ now := by
  cases hlast : plan.lastScheduledRunAt with
  | empty => exact ⟨fun _ => nofun, fun _ => trivial⟩
  | malformed => exact ⟨fun _ => nofun, fun _ => trivial⟩
  | naive t | zoned t =>
    simp only [IsoTime.Elapsed, IsoTime.instant?, Option.some.injEq, forall_eq', Plan.nextRun]
    exact le_sub_iff_add_le'

/-! ### What is next -/

/-- The cases of `fromTimestamp`. -/
theorem fromTimestamp_cases (t : Instant) :
    InCalendar t ∧ fromTimestamp t = .ok t ∨
      ¬ InCalendar t ∧ t / 1000000 ≤ lastConvertible ∧
        (∃ text, fromTimestamp t = .error (.valueError text)) ∨
      ¬ InCalendar t ∧ lastConvertible < t / 1000000 ∧
        ∃ text, fromTimestamp t = .error (.api text) := by
  have hlt : lastSecond < lastConvertible := by decide
  rw [fromTimestamp, InCalendar]
  split_ifs with hfar hout
  · exact .inr (.inr ⟨fun hin => hlt.not_gt (hfar.trans_le hin.2), hfar, _, rfl⟩)
  · exact .inr (.inl ⟨fun hin => hout.elim hin.1.not_gt hin.2.not_gt, not_lt.mp hfar, _, rfl⟩)
  · obtain ⟨hfirst, hlast⟩ := not_or.mp hout
    exact .inl ⟨⟨not_lt.mp hfirst, not_lt.mp hlast⟩, rfl⟩

/-- The schedule is off or has no interval. -/
theorem nextScheduledIso_empty (h : plan.scheduleEnabled = false ∨ plan.scheduleIntervalHours = 0) :
    nextScheduledIso plan now = .ok .empty := by
  rw [nextScheduledIso]
  split_ifs with hoff hzero
  · rfl
  · rfl
  · exact absurd h (not_or.mpr ⟨hoff, hzero⟩)

/-- There was no run yet. -/
theorem nextScheduledIso_now (hon : plan.scheduleEnabled = true)
    (hinterval : 0 < plan.scheduleIntervalHours) (hlast : plan.lastScheduledRunAt.instant? = none) :
    nextScheduledIso plan now = .ok (.zoned now) := by
  rw [nextScheduledIso, if_neg (by simp [hon]), if_neg (by omega)]
  cases h : plan.lastScheduledRunAt with
  | empty | malformed => rfl
  | naive t | zoned t => rw [h] at hlast; cases hlast

/-- After a run. -/
theorem nextScheduledIso_after (hon : plan.scheduleEnabled = true)
    (hinterval : 0 < plan.scheduleIntervalHours) {last : Instant}
    (hlast : plan.lastScheduledRunAt.instant? = some last) :
    nextScheduledIso plan now =
      match fromTimestamp (plan.nextRun last) with
      | .ok next => .ok (.zoned next)
      | .error (.valueError _) => .ok (.zoned now)
      | .error e => .error e := by
  rw [nextScheduledIso, if_neg (by simp [hon]), if_neg (by omega)]
  cases h : plan.lastScheduledRunAt with
  | empty | malformed => rw [h] at hlast; cases hlast
  | naive t | zoned t =>
    rw [h] at hlast
    obtain rfl := Option.some.inj hlast
    rfl

/-- The mark of a plan whose next run has a time. -/
theorem scheduleFlag_zoned {next : Instant} : scheduleFlag plan (.zoned next) now = .overdue ↔
    (plan.scheduleEnabled = true ∧ plan.enabled = true) ∧ next ≤ now := by
  rw [scheduleFlag]
  split_ifs with hon hover hsoon
  · exact iff_of_true rfl ⟨hon, sub_nonpos.mp hover⟩
  · exact iff_of_false (by decide) fun h => hover (sub_nonpos.mpr h.2)
  · exact iff_of_false (by decide) fun h => hover (sub_nonpos.mpr h.2)
  · exact iff_of_false (by decide) fun h => hon h.1

/-! ### One plan -/

/-- An item is told, and agrees with the worker, according to what is next. -/
private theorem item_agrees_iff {plans : List Plan} (h : plan ∈ plans) :
    (∃ item, complianceItem cfg w now plan = .ok item ∧ AgreesWithWorker plan plans now item) ↔
      ∃ next, nextScheduledIso plan now = .ok next ∧
        (scheduleFlag plan next now = .overdue ↔
          plan.Scheduled ∧ plan.lastScheduledRunAt.Elapsed plan.scheduleIntervalHours now) := by
  rw [complianceItem]
  cases hnext : nextScheduledIso plan now with
  | error e =>
    constructor
    · rintro ⟨item, hitem, -⟩
      cases hitem
    · rintro ⟨next, hnext, -⟩
      cases hnext
  | ok next =>
    constructor
    · rintro ⟨item, hitem, hagrees⟩
      obtain rfl := Except.ok.inj hitem
      rw [AgreesWithWorker, mem_plansDue_iff h, decide_eq_true_iff] at hagrees
      exact ⟨next, rfl, hagrees⟩
    · rintro ⟨other, hother, hagrees⟩
      obtain rfl := Except.ok.inj hother
      refine ⟨_, rfl, ?_⟩
      rw [AgreesWithWorker, mem_plansDue_iff h, decide_eq_true_iff]
      exact hagrees

/-- **One plan is told alike** under the condition. -/
theorem item_toldAlike_iff {plans : List Plan} (h : plan ∈ plans) :
    (∃ item, complianceItem cfg w now plan = .ok item ∧ AgreesWithWorker plan plans now item) ↔
      plan.ToldAlike now := by
  rw [item_agrees_iff h, elapsed_iff, Plan.Scheduled]
  by_cases hon : plan.scheduleEnabled = true
  swap
  · -- the schedule is off
    have hflag : scheduleFlag plan .empty now ≠ .overdue := by
      rw [scheduleFlag, if_neg fun hboth => hon hboth.1]
      decide
    refine iff_of_true ⟨_, nextScheduledIso_empty (.inl (Bool.not_eq_true _ ▸ hon)), ?_⟩
      ⟨fun honn => absurd honn hon, fun honn => absurd honn hon⟩
    exact iff_of_false hflag fun hboth => hon hboth.1.2.1
  rcases Nat.eq_zero_or_pos plan.scheduleIntervalHours with hzero | hpos
  · -- there is no interval: the dashboard marks the plan unless it is disabled
    have hflag : scheduleFlag plan .empty now = .overdue ↔ plan.enabled = true := by
      rw [scheduleFlag]
      split_ifs with hboth
      · exact iff_of_true rfl hboth.2
      · exact iff_of_false (by decide) fun henabled => hboth ⟨hon, henabled⟩
    constructor
    · rintro ⟨next, hnext, hagrees⟩
      rw [nextScheduledIso_empty (.inr hzero)] at hnext
      obtain rfl := Except.ok.inj hnext
      refine ⟨fun _ henabled => ?_, fun _ hinterval => by omega⟩
      exact (hagrees.mp (hflag.mpr henabled)).1.2.2
    · rintro ⟨hinterval, -⟩
      refine ⟨_, nextScheduledIso_empty (.inr hzero), ?_⟩
      rw [hflag]
      refine iff_of_false (fun henabled => ?_) fun hboth => ?_
      · exact absurd (hinterval hon henabled) (by omega)
      · exact absurd hboth.1.2.2 (by omega)
  cases hlast : plan.lastScheduledRunAt.instant? with
  | none =>
    -- there was no run yet: the plan is due now
    refine iff_of_true ⟨_, nextScheduledIso_now hon hpos hlast, ?_⟩
      ⟨fun _ _ => hpos, fun _ _ last h => by rw [hlast] at h; cases h⟩
    rw [scheduleFlag_zoned]
    exact ⟨fun h => ⟨⟨h.1.2, hon, hpos⟩, by rintro _ ⟨⟩⟩, fun h => ⟨⟨hon, h.1.1⟩, le_rfl⟩⟩
  | some last =>
    have hcondition : plan.ToldAlike now ↔ InCalendar (plan.nextRun last) ∨
        plan.nextRun last / 1000000 ≤ lastConvertible ∧
          (plan.enabled = true → plan.nextRun last ≤ now) := by
      refine ⟨fun h => h.calendar hon hpos last hlast, fun h => ⟨fun _ _ => hpos, ?_⟩⟩
      intro _ _ other hother
      obtain rfl := Option.some.inj (hlast.symm.trans hother)
      exact h
    have hdue : (∀ t, some last = some t → plan.nextRun t ≤ now) ↔ plan.nextRun last ≤ now := by
      simp only [Option.some.injEq, forall_eq']
    rw [hcondition, hdue, nextScheduledIso_after hon hpos hlast]
    rcases fromTimestamp_cases (plan.nextRun last) with ⟨hin, hnext⟩ | ⟨hout, hnear, text, hnext⟩ |
        ⟨hout, hfar, text, hnext⟩
    · -- the calendar has the next time
      rw [hnext]
      refine iff_of_true ⟨_, rfl, ?_⟩ (.inl hin)
      rw [scheduleFlag_zoned]
      tauto
    · -- the dashboard goes by the present instead
      rw [hnext]
      constructor
      · rintro ⟨next, hnow, hagrees⟩
        obtain rfl := Except.ok.inj hnow
        refine .inr ⟨hnear, fun henabled => ?_⟩
        exact (hagrees.mp (scheduleFlag_zoned.mpr ⟨⟨hon, henabled⟩, le_rfl⟩)).2
      · rintro (hin | ⟨-, hpassed⟩)
        · exact absurd hin hout
        · refine ⟨_, rfl, ?_⟩
          rw [scheduleFlag_zoned]
          exact ⟨fun h => ⟨⟨h.1.2, hon, hpos⟩, hpassed h.1.2⟩, fun h => ⟨⟨hon, h.1.1⟩, le_rfl⟩⟩
    · -- there is no dashboard
      rw [hnext]
      refine iff_of_false ?_ (not_or.mpr ⟨hout, fun h => h.1.not_gt hfar⟩)
      rintro ⟨next, herror, -⟩
      cases herror

/-! ### The dashboard -/

/-- **The dashboard agrees with the worker** on all plans if and only if every schedule is told
alike. -/
theorem overdue_agrees_iff (cfg : Config) (w : World) (now : Instant) :
    (∃ dash, complianceDashboard cfg w now = .ok dash ∧
      List.Forall₂ (fun plan item => AgreesWithWorker plan (listEntities w.plans) now item)
        (listEntities w.plans) dash.plans) ↔
      ∀ plan ∈ listEntities w.plans, plan.ToldAlike now := by
  have hitems := @exists_mapM_forall₂_iff _ _ _ (complianceItem cfg w now)
    (fun plan item => AgreesWithWorker plan (listEntities w.plans) now item) (listEntities w.plans)
  have hplans : (∀ plan ∈ listEntities w.plans, ∃ item, complianceItem cfg w now plan = .ok item ∧
      AgreesWithWorker plan (listEntities w.plans) now item) ↔
      ∀ plan ∈ listEntities w.plans, plan.ToldAlike now :=
    forall₂_congr fun plan hplan => item_toldAlike_iff hplan
  rw [← hplans, ← hitems]
  constructor
  · rintro ⟨dash, hdash, hagree⟩
    exact ⟨dash.plans, complianceDashboard_iff.mp ⟨dash, hdash, rfl⟩, hagree⟩
  · rintro ⟨items, hmap, hagree⟩
    obtain ⟨dash, hdash, rfl⟩ := complianceDashboard_iff.mpr hmap
    exact ⟨dash, hdash, hagree⟩

/-- A plan that is on a schedule without an interval. -/
def worldWithoutInterval : World where
  plans := AList.singleton 0
    { id := 0, groupIds := [], locationId := 0, scheduleEnabled := true }

/-- **A plan without an interval is overdue** on the dashboard, and the worker does not start it. -/
theorem overdue_without_interval :
    (complianceDashboard {} worldWithoutInterval 0).toOption.map
        (fun dash => dash.plans.map (·.scheduleOverdue)) = some [true] ∧
      plansDueForSchedule (listEntities worldWithoutInterval.plans) 0 = [] := by
  decide +kernel

end RestoreEngine
