import RestoreEngine.Plans.Scheduled

/-!
# The distance of scheduled starts

A plan on a schedule is due again once its interval has passed since the last scheduled run that
was *entered*, and a start is entered if it succeeds. So the starts that follow one that has
succeeded keep their distance (`starts_keep_interval`). A start that raises is attempted again by
the next iteration of the worker, which first ends the run that the start has left behind
(`failed_start_retried`).
-/

namespace RestoreEngine

open Effects Prog Program

variable {cfg : Config} {mt : Matching} {w w' w₀ : World} {planId : Uuid} {hours : ℕ}
  {attempts new : List Attempt}

/-! ### Runs of a worker -/

/-- What becomes of the schedule of the plan between the ticks: nothing, and time does not run
backwards. -/
structure World.KeepsSchedule (planId : Uuid) (w w' : World) : Prop where
  keyed : w'.PlansKeyed
  clock : w.clock ≤ w'.clock
  schedule : ∀ plan', w'.plan planId = some plan' → ∃ plan, w.plan planId = some plan ∧
    plan'.lastScheduledRunAt = plan.lastScheduledRunAt ∧
      plan'.scheduleIntervalHours = plan.scheduleIntervalHours

/-- `Iterations cfg mt planId Admits w₀ attempts w`: the iterations of a worker lead from `w₀` to
`w`, and attempt these starts. An iteration advances the runs of plans, and then ticks the
schedule, if `Admits` admits what the tick attempts; between these anything may happen that does
not edit the schedule of the plan. -/
inductive Iterations (cfg : Config) (mt : Matching) (planId : Uuid)
    (Admits : List Attempt → World → List Attempt → Prop) (w₀ : World) : List Attempt → World → Prop
  | start : Iterations cfg mt planId Admits w₀ [] w₀
  | between {attempts : List Attempt} {w w' : World}
      (hrun : Iterations cfg mt planId Admits w₀ attempts w) (hkeeps : w.KeepsSchedule planId w') :
      Iterations cfg mt planId Admits w₀ attempts w'
  | advance {attempts : List Attempt} {w w' : World} {out : Except Exn ℕ}
      (hrun : Iterations cfg mt planId Admits w₀ attempts w)
      (hends : Ends environment (advancePlanRuns cfg enqueueRestores) w out w') :
      Iterations cfg mt planId Admits w₀ attempts w'
  | tick {attempts new : List Attempt} {w w' : World}
      (hrun : Iterations cfg mt planId Admits w₀ attempts w) (htick : ScheduleTick mt w new w')
      (hadmits : Admits attempts w new) :
      Iterations cfg mt planId Admits w₀ (attempts ++ new) w'

/-! ### The property and its condition -/

/-- A number of hours, as a distance of instants. -/
def hoursLong (hours : ℕ) : Instant := hours * 3600 * 1000000

/-- No two starts of the plan are attempted in less than `hours` hours. -/
def KeepsInterval (planId : Uuid) (hours : ℕ) (attempts : List Attempt) : Prop :=
  attempts.Pairwise fun a b => a.plan.id = planId → b.plan.id = planId →
    hoursLong hours ≤ b.before.clock - a.before.clock

/-- A start of the plan that raises stores no run. -/
def FailsCleanly (planId : Uuid) (attempts : List Attempt) : Prop :=
  ∀ a ∈ attempts, a.plan.id = planId → ∀ e, a.out = .error e → a.after.runs = a.before.runs

/-- There is nothing to start: no rows are found for the plan, or they do not fit its groups. -/
def Attempt.FindsNothing (a : Attempt) : Prop :=
  match a.rows with
  | .error _ => True
  | .ok rows => rows.all (· = []) = true ∨ (firstGroup a.plan rows).toOption = none

/-- A tick that leaves failed starts alone: if a start of the plan raises, then because there is
nothing to start, and the plan is left alone for as long as its interval. -/
def LeavesFailed (planId : Uuid) (hours : ℕ) (attempts : List Attempt) (w : World)
    (new : List Attempt) : Prop :=
  (∀ a ∈ attempts, a.plan.id = planId → ∀ e, a.out = .error e →
    hoursLong hours ≤ w.clock - a.before.clock) ∧
  ∀ a ∈ new, a.plan.id = planId → ∀ e, a.out = .error e → a.FindsNothing

/-! ### What is stored -/

theorem Op.Asks.sparesRuns {o : Op} (ho : o.Asks) : o.SparesRuns := by
  cases o <;> first | exact trivial | exact ho.elim

/-- **A start that finds nothing** stores no run. -/
theorem Attempt.Attempted.runs_eq {a : Attempt} (ha : a.Attempted mt) (hnone : a.FindsNothing) :
    a.after.runs = a.before.runs := by
  obtain ⟨n, w₁, hrows, hstart⟩ := ha.runs
  have hasked : w₁.runs = a.before.runs :=
    (hrows.post (sameRuns_of_only ((resolveScheduledRows_asks _).mono
      fun _ ho => ho.sparesRuns))).runs
  refine Eq.trans ?_ hasked
  rw [FindsNothing] at hnone
  cases hr : a.rows with
  | error e =>
    rw [hr] at hstart
    rw [hstart.2]
  | ok rows =>
    rw [hr] at hstart hnone
    refine hstart.post (Q := fun _ w' => w'.runs = w₁.runs) (Satisfies.ite (fun _ => ?_) fun hne => ?_)
    · exact satisfies_raise.mpr rfl
    · have hfirst := hnone.resolve_left hne
      rw [startPlanRun, satisfies_bind, satisfies_ofExcept]
      cases hgroup : firstGroup a.plan rows with
      | error e => exact then_error.mpr rfl
      | ok idx =>
        rw [hgroup] at hfirst
        cases hfirst

/-- The advancing of runs keeps the schedule. -/
private theorem keepsSchedule_of_advance {out : Except Exn ℕ} (hkeyed : w.PlansKeyed)
    (hends : Ends environment (advancePlanRuns cfg enqueueRestores) w out w') :
    w.KeepsSchedule planId w' := by
  let G : Plan → Prop := fun q => q.id = planId → ∃ plan, w.plan planId = some plan ∧
    q.lastScheduledRunAt = plan.lastScheduledRunAt ∧
      q.scheduleIntervalHours = plan.scheduleIntervalHours
  have hclosed : ClosedUnderAdvances G := by
    intro p q hp hq hid
    obtain ⟨plan, hplan, hlast, hinterval⟩ := hp (hq.id.symm.trans hid)
    exact ⟨plan, hplan, hq.lastScheduledRunAt.trans hlast, hq.scheduleIntervalHours.trans hinterval⟩
  have hstored : ∀ id plan, w.plan id = some plan → plan.id = id ∧ G plan := by
    intro id plan hplan
    obtain rfl := hkeyed id plan hplan
    exact ⟨rfl, fun hid => ⟨plan, hid ▸ hplan, rfl, rfl⟩⟩
  obtain ⟨-, hkept⟩ := hends.post
    ((advancePlanRuns_keepsPlans hclosed enqueueRestores_besides).effect hstored)
  refine ⟨fun id plan hplan => (hkept.plans id plan hplan).1, hends.post clock_le_after, ?_⟩
  intro plan' hplan'
  obtain ⟨hid, hG⟩ := hkept.plans planId plan' hplan'
  exact hG hid

/-! ### The invariant -/

/-- **The invariant**: the last start that has succeeded is entered in the plan. -/
structure OnSchedule (planId : Uuid) (hours : ℕ) (attempts : List Attempt) (w : World) : Prop where
  keyed : w.PlansKeyed
  interval : ∀ plan, w.plan planId = some plan → plan.scheduleIntervalHours = hours
  times : ∀ a ∈ attempts, a.before.clock ≤ w.clock
  entered : ∀ a ∈ attempts, a.plan.id = planId → ∀ run, a.out = .ok run →
    ∀ plan, w.plan planId = some plan →
      ∃ t, plan.lastScheduledRunAt = .zoned t ∧ a.before.clock ≤ t
  spaced : KeepsInterval planId hours attempts
  clean : FailsCleanly planId attempts

/-- Between ticks. -/
private theorem OnSchedule.between (h : OnSchedule planId hours attempts w)
    (hkeeps : w.KeepsSchedule planId w') : OnSchedule planId hours attempts w' := by
  refine ⟨hkeeps.keyed, fun plan' hplan' => ?_, fun a ha => (h.times a ha).trans hkeeps.clock,
    fun a ha hid run hout plan' hplan' => ?_, h.spaced, h.clean⟩
  · obtain ⟨plan, hplan, -, hinterval⟩ := hkeeps.schedule plan' hplan'
    exact hinterval.trans (h.interval plan hplan)
  · obtain ⟨plan, hplan, hlast, -⟩ := hkeeps.schedule plan' hplan'
    rw [hlast]
    exact h.entered a ha hid run hout plan hplan

/-- A tick. -/
private theorem OnSchedule.tick (h : OnSchedule planId hours attempts w)
    (htick : ScheduleTick mt w new w') (hadmits : LeavesFailed planId hours attempts w new) :
    OnSchedule planId hours (attempts ++ new) w' := by
  obtain ⟨n, hleaves⟩ := htick.leaves h.keyed
  have hwait : w.clock ≤ w.clock + n := (World.Onward.wait w n).clock
  have hclock : w.clock ≤ w'.clock := hwait.trans hleaves.clock
  -- a start that is attempted is one of the plan as it is stored
  have hlisted : ∀ b ∈ new, w.plan b.plan.id = some b.plan ∧
      b.plan.lastScheduledRunAt.Elapsed b.plan.scheduleIntervalHours (w.clock + n) := by
    intro b hb
    obtain ⟨hstored, hdue⟩ := List.mem_filter.mp (hleaves.due b hb)
    exact ⟨mem_storedPlans h.keyed hstored, (of_decide_eq_true hdue).2⟩
  refine ⟨hleaves.keyed h.keyed, fun plan' hplan' => ?_, fun a ha => ?_,
    fun a ha hid run hout plan' hplan' => ?_, ?_, fun a ha hid e hout => ?_⟩
  · rcases hleaves.plan_cases planId with ⟨b, hb, hid, hleft⟩ | hsame
    · subst hid
      obtain ⟨last, hstored, -⟩ := hleft.stored
      obtain rfl := Option.some.inj (hstored.symm.trans hplan')
      exact h.interval b.plan (hlisted b hb).1
    · exact h.interval plan' (hsame.symm.trans hplan')
  · rcases List.mem_append.mp ha with ha | ha
    · exact (h.times a ha).trans hclock
    · exact (hleaves.times a ha).2
  · rcases List.mem_append.mp ha with ha | ha
    · rcases hleaves.plan_cases planId with ⟨b, hb, hidb, hleft⟩ | hsame
      · subst hidb
        obtain ⟨last, hstored, hfailed, hstarted⟩ := hleft.stored
        obtain rfl := Option.some.inj (hstored.symm.trans hplan')
        cases hb' : b.out with
        | error e =>
          rw [hfailed e hb']
          exact h.entered a ha hid run hout b.plan (hlisted b hb).1
        | ok run' =>
          obtain ⟨t, hlast, hle⟩ := hstarted run' hb'
          have hlate : w.clock + n ≤ b.before.clock := (hleaves.times b hb).1
          exact ⟨t, hlast, (h.times a ha).trans (hwait.trans (hlate.trans hle))⟩
      · exact h.entered a ha hid run hout plan' (hsame.symm.trans hplan')
    · obtain ⟨last, hstored, -, hstarted⟩ := (hleaves.plans a ha).stored
      rw [hid] at hstored
      obtain rfl := Option.some.inj (hstored.symm.trans hplan')
      exact hstarted run hout
  · refine List.pairwise_append.mpr ⟨h.spaced, ?_, fun a ha b hb hida hidb => ?_⟩
    · exact (List.pairwise_map.mp hleaves.once).imp fun hne hida hidb =>
        absurd (hida.trans hidb.symm) hne
    · have hlate : w.clock + n ≤ b.before.clock := (hleaves.times b hb).1
      cases hout : a.out with
      | error e =>
        have hfailed := hadmits.1 a ha hida e hout
        exact hfailed.trans (Int.sub_le_sub_right (hwait.trans hlate) _)
      | ok run =>
        obtain ⟨hstored, helapsed⟩ := hlisted b hb
        rw [hidb] at hstored
        obtain ⟨t, hlast, hle⟩ := h.entered a ha hida run hout b.plan hstored
        rw [hlast, h.interval b.plan hstored] at helapsed
        have helapsed : hoursLong hours ≤ w.clock + n - t := helapsed
        exact helapsed.trans (Int.sub_le_sub hlate hle)
  · rcases List.mem_append.mp ha with ha | ha
    · exact h.clean a ha hid e hout
    · exact (hleaves.attempted a ha).runs_eq (hadmits.2 a ha hid e hout)

/-- **The starts of a plan keep its interval**, and those that raise store no run, as long as starts
that raise find nothing to start and the worker leaves the plan alone after them. -/
theorem starts_keep_interval {plan : Plan} (hkeyed : w₀.PlansKeyed)
    (hplan : w₀.plan planId = some plan)
    (hrun : Iterations cfg mt planId (LeavesFailed planId plan.scheduleIntervalHours) w₀ attempts
      w) :
    KeepsInterval planId plan.scheduleIntervalHours attempts ∧ FailsCleanly planId attempts := by
  have hinv : OnSchedule planId plan.scheduleIntervalHours attempts w := by
    induction hrun with
    | start =>
      refine ⟨hkeyed, fun p hp => ?_, fun _ ha => (List.not_mem_nil ha).elim,
        fun _ ha => (List.not_mem_nil ha).elim, List.Pairwise.nil,
        fun _ ha => (List.not_mem_nil ha).elim⟩
      obtain rfl := Option.some.inj (hplan.symm.trans hp)
      rfl
    | between _ hkeeps ih => exact ih.between hkeeps
    | advance _ hends ih => exact ih.between (keepsSchedule_of_advance ih.keyed hends)
    | tick _ htick hadmits ih => exact ih.tick htick hadmits
  exact ⟨hinv.spaced, hinv.clean⟩

/-- The starts of a tick are of plans that are stored. -/
private theorem attempts_of_plan {plans : List Plan} {now : Instant}
    (hleaves : TickLeaves mt (plansDueForSchedule plans now) w attempts w')
    (hplans : plans.map (·.id) = [planId]) : ∀ a ∈ attempts, a.plan.id = planId := by
  intro a ha
  have hlisted := (List.mem_filter.mp (hleaves.due a ha)).1
  have hmem : a.plan.id ∈ plans.map (·.id) := List.mem_map.mpr ⟨a.plan, hlisted, rfl⟩
  rw [hplans] at hmem
  exact List.mem_singleton.mp hmem

private theorem ok_of_toOption {out : Except Exn ℕ} {n : ℕ} (h : out.toOption = some n) :
    out = .ok n := by
  cases out with
  | error e => cases h
  | ok m => exact congrArg Except.ok (Option.some.inj h)

/-- A tick that starts the one plan there is. -/
private theorem exists_one_start (hkeyed : w.PlansKeyed)
    (hends : Ends environment (tickScheduledPlanRuns (readers mt)) w (.ok 1) w')
    (hplans : w.storedPlans.map (·.id) = [planId]) :
    ∃ a run, ScheduleTick mt w [a] w' ∧ a.plan.id = planId ∧ a.out = .ok run := by
  obtain ⟨attempts, a, run, htick, ha, hout⟩ := exists_started hends
  obtain ⟨n, hleaves⟩ := htick.leaves hkeyed
  have hone : ∀ b ∈ attempts, b.plan.id = planId := attempts_of_plan hleaves hplans
  have hlength : attempts.length ≤ 1 := by
    have hnodup := hleaves.once
    have hids : attempts.map (fun b => b.plan.id) = List.replicate attempts.length planId := by
      refine List.eq_replicate_iff.mpr ⟨List.length_map _, fun id hid => ?_⟩
      obtain ⟨b, hb, rfl⟩ := List.mem_map.mp hid
      exact hone b hb
    rw [hids, List.nodup_replicate] at hnodup
    exact hnodup
  obtain ⟨b, rfl⟩ := List.length_eq_one_iff.mp (le_antisymm hlength (List.length_pos_of_mem ha))
  obtain rfl := List.mem_singleton.mp ha
  exact ⟨a, run, htick, hone a ha, hout⟩

/-- The plan after its first start. -/
private def startedPlan : Plan := { drillPlan with lastScheduledRunAt := .zoned drillWorld.clock }

/-- The world some days after the start, when its run has ended and is forgotten. -/
private def daysLater (days : ℕ) (answers : (p : Probe) → Answer → Except Exn p.Reply) : World :=
  { drillWorld with
    plans := (∅ : AList fun _ : Uuid => Plan).insert 1 startedPlan
    clock := drillWorld.clock + hoursLong (24 * days)
    answers }

/-- There are no backups. -/
private def noBackups : (p : Probe) → Answer → Except Exn p.Reply
  | .backups, _ => .ok []
  | _, _ => .error (.api "no answer")

private theorem daysLater_keyed (days : ℕ) (answers : (p : Probe) → Answer → Except Exn p.Reply) :
    (daysLater days answers).PlansKeyed := by
  intro id plan hplan
  by_cases hid : id = 1
  · subst hid
    obtain rfl : startedPlan = plan :=
      Option.some.inj ((AList.lookup_insert (∅ : AList fun _ : Uuid => Plan)).symm.trans hplan)
    rfl
  · cases (AList.lookup_insert_ne hid).symm.trans hplan

/-- A world in which the plan is as after its first start comes before a later one. -/
private theorem keepsSchedule_daysLater {days : ℕ}
    {answers : (p : Probe) → Answer → Except Exn p.Reply} (hplan : w.plan 1 = some startedPlan)
    (hclock : w.clock ≤ drillWorld.clock + hoursLong (24 * days)) :
    w.KeepsSchedule 1 (daysLater days answers) := by
  refine ⟨daysLater_keyed days answers, hclock, fun plan' hplan' => ⟨startedPlan, hplan, ?_⟩⟩
  obtain rfl : startedPlan = plan' :=
    Option.some.inj ((AList.lookup_insert (∅ : AList fun _ : Uuid => Plan)).symm.trans hplan')
  exact ⟨rfl, rfl⟩

/-- What a start says when it finds nothing. -/
private def zeroBackups : Exn := .runtimeError "Scheduled plan resolved to zero backups"

/-- The start of the plan a day later, in the middle of a tick that takes no time. -/
private def dryStart (after : World) : Attempt where
  plan := startedPlan
  location :=
    { id := 3, node := "pve", nodes := ["pve"], storage := "local-lvm", vmidStart := 3500 }
  rows := .ok [[]]
  out := .error zeroBackups
  before :=
    { daysLater 1 noBackups with clock := (daysLater 1 noBackups).clock + (0 : ℕ) }
  after

/-- A day after the start there is nothing to start. -/
private theorem dry_tick : ∃ w, ScheduleTick .unused (daysLater 1 noBackups) [dryStart w] w ∧
    w.plan 1 = some startedPlan ∧ w.clock = drillWorld.clock + hoursLong 24 := by
  have hrun : ((resolveScheduledRows .unused (dryStart {}).plan.groupIds
      (utcText ((dryStart {}).before.clock + (0 : ℕ))) (dryStart {}).location).run environment []
        { (dryStart {}).before with clock := (dryStart {}).before.clock + (0 : ℕ) }).map
      (fun end_ => (end_.1.toOption, end_.2.plan 1, end_.2.clock)) =
      some (some [[]], some startedPlan, drillWorld.clock + hoursLong 24) := by decide +kernel
  obtain ⟨rows, w, hends, hseen⟩ := exists_ends_of_run hrun
  obtain ⟨hrows, hrest⟩ := Prod.mk.inj hseen
  obtain ⟨hplan, hclock⟩ := Prod.mk.inj hrest
  cases rows with
  | error e => cases hrows
  | ok rows =>
    obtain rfl : rows = [[]] := Option.some.inj hrows
    have hdue : plansDueForSchedule (daysLater 1 noBackups).storedPlans
        ((daysLater 1 noBackups).clock + (0 : ℕ)) = [startedPlan] := by decide +kernel
    have hlocation : (dryStart w).before.location (dryStart w).plan.locationId =
        some (dryStart w).location := AList.lookup_insert _
    have hidle : ¬ (dryStart w).before.RunsPlan (dryStart w).plan.id := by
      rw [World.RunsPlan]
      exact Bool.false_ne_true
    have hraises : Ends environment (if ([[]] : List (List Row)).all (· = []) then
        .raise zeroBackups else startPlanRun enqueueRestores (dryStart w).plan (dryStart w).location
          [[]] { cutoff := utcText ((dryStart w).before.clock + (0 : ℕ))
                 drill := (dryStart w).plan.scheduleDrill
                 autoTeardown := (dryStart w).plan.scheduleDrill }) w (.error zeroBackups) w :=
      .raise _ _
    refine ⟨w, ⟨0, ?_⟩, hplan, hclock⟩
    rw [hdue]
    exact .attempted ⟨hlocation, hidle, 0, w, hends, hraises⟩ rfl (.done w)

/-- The drill is started, finds nothing a day later, and is started again after another day. -/
theorem starts_keep_interval_days : ∃ attempts w,
    attempts.map (fun a => a.out.toBool) = [true, false, true] ∧
    Iterations {} .unused 1 (LeavesFailed 1 drillPlan.scheduleIntervalHours) drillWorld attempts w ∧
      KeepsInterval 1 drillPlan.scheduleIntervalHours attempts ∧ FailsCleanly 1 attempts := by
  have hfirst : ((tickScheduledPlanRuns (readers .unused)).run environment [] drillWorld).map
      (fun end_ => (end_.1.toOption, end_.2.plan 1, end_.2.clock)) =
      some (some 1, some startedPlan, drillWorld.clock) := by decide +kernel
  have hlast : ((tickScheduledPlanRuns (readers .unused)).run environment []
      (daysLater 2 drillAnswers)).map (fun end_ => end_.1.toOption) = some (some 1) := by
    decide +kernel
  obtain ⟨out₁, w₁, hends₁, hseen⟩ := exists_ends_of_run hfirst
  obtain ⟨hout₁, hrest⟩ := Prod.mk.inj hseen
  obtain ⟨hplan₁, hclock₁⟩ := Prod.mk.inj hrest
  obtain ⟨out₃, w₃, hends₃, hout₃⟩ := exists_ends_of_run hlast
  obtain rfl := ok_of_toOption hout₁
  obtain rfl := ok_of_toOption hout₃
  have hids₁ : drillWorld.storedPlans.map (·.id) = [1] := by decide +kernel
  have hids₃ : (daysLater 2 drillAnswers).storedPlans.map (·.id) = [1] := by decide +kernel
  obtain ⟨a, run, htick₁, -, hstarted₁⟩ := exists_one_start drillWorld_keyed hends₁ hids₁
  obtain ⟨w₂, htick₂, hplan₂, hclock₂⟩ := dry_tick
  obtain ⟨b, run', htick₃, -, hstarted₃⟩ :=
    exists_one_start (daysLater_keyed 2 drillAnswers) hends₃ hids₃
  have hkeeps₁ : w₁.KeepsSchedule 1 (daysLater 1 noBackups) :=
    keepsSchedule_daysLater hplan₁ (by rw [hclock₁]; decide +kernel)
  have hkeeps₂ : w₂.KeepsSchedule 1 (daysLater 2 drillAnswers) :=
    keepsSchedule_daysLater hplan₂ (by rw [hclock₂]; decide +kernel)
  have hadmits₁ : LeavesFailed 1 24 [] drillWorld [a] := by
    refine ⟨List.forall_mem_nil _, List.forall_mem_singleton.mpr fun _ e he => ?_⟩
    cases hstarted₁.symm.trans he
  have hadmits₂ : LeavesFailed 1 24 [a] (daysLater 1 noBackups) [dryStart w₂] := by
    refine ⟨List.forall_mem_singleton.mpr fun _ e he => ?_,
      List.forall_mem_singleton.mpr fun _ _ _ => .inl rfl⟩
    cases hstarted₁.symm.trans he
  have hadmits₃ : LeavesFailed 1 24 [a, dryStart w₂] (daysLater 2 drillAnswers) [b] := by
    refine ⟨List.forall_mem_cons.mpr ⟨fun _ e he => ?_,
      List.forall_mem_singleton.mpr fun _ _ _ => ?_⟩,
      List.forall_mem_singleton.mpr fun _ e he => ?_⟩
    · cases hstarted₁.symm.trans he
    · -- another day has passed since nothing was found
      exact (by decide +kernel : hoursLong 24 ≤ (daysLater 2 drillAnswers).clock -
        ((daysLater 1 noBackups).clock + (0 : ℕ)))
    · cases hstarted₃.symm.trans he
  have hrun : Iterations {} .unused 1 (LeavesFailed 1 drillPlan.scheduleIntervalHours) drillWorld
      [a, dryStart w₂, b] w₃ :=
    .tick (.between (.tick (.between (.tick .start htick₁ hadmits₁) hkeeps₁) htick₂ hadmits₂)
      hkeeps₂) htick₃ hadmits₃
  have hplan : drillWorld.plan 1 = some drillPlan := AList.lookup_insert _
  refine ⟨_, w₃, ?_, hrun, starts_keep_interval drillWorld_keyed hplan hrun⟩
  simp only [List.map_cons, List.map_nil, hstarted₁, hstarted₃]
  rfl

/-! ### A start that raises -/

/-- If all starts raise and store no run, a tick stores no run. -/
private theorem Turns.runs_eq {plans : List Plan} (h : Turns mt plans w attempts w')
    (hclean : ∀ a ∈ attempts, ∃ e, a.out = .error e ∧ a.after.runs = a.before.runs) :
    w'.runs = w.runs := by
  induction h with
  | done w => rfl
  | passed _ _ ih => exact ih hclean
  | attempted ha hleads _ ih =>
    obtain ⟨e, hout, hruns⟩ := hclean _ List.mem_cons_self
    rw [Attempt.Leads, hout] at hleads
    rw [ih fun b hb => hclean b (List.mem_cons_of_mem _ hb), hleads, hruns]

/-- The world in which the drill is due, but the API cannot be reached. -/
def refusedWorld : World := { drillWorld with up := false }

/-- What is looked at after an iteration. -/
private structure Seen where
  count : Option ℕ
  runs : List Uuid
  plans : List Uuid
  clock : Instant
  deriving DecidableEq

private def seenOf (end_ : Except Exn ℕ × World) : Seen where
  count := end_.1.toOption
  runs := end_.2.runs.keys
  plans := end_.2.storedPlans.map (·.id)
  clock := end_.2.clock

/-- Two iterations, each of which stores a run and starts none. -/
private theorem refused_twice : ∃ out₁ w₁ out₂ w₂ out₃ w₃,
    Ends environment (tickScheduledPlanRuns (readers .unused)) refusedWorld out₁ w₁ ∧
      seenOf (out₁, w₁) = ⟨some 0, [4], [1], refusedWorld.clock⟩ ∧
      Ends environment (advancePlanRuns {} enqueueRestores) w₁ out₂ w₂ ∧
      seenOf (out₂, w₂) = ⟨some 1, [4], [1], refusedWorld.clock⟩ ∧
      Ends environment (tickScheduledPlanRuns (readers .unused)) w₂ out₃ w₃ ∧
      seenOf (out₃, w₃) = ⟨some 0, [6, 4], [1], refusedWorld.clock⟩ := by
  have hrun : ((tickScheduledPlanRuns (readers .unused)).run environment [] refusedWorld).bind
      (fun end₁ => ((advancePlanRuns {} enqueueRestores).run environment [] end₁.2).bind
        fun end₂ => ((tickScheduledPlanRuns (readers .unused)).run environment [] end₂.2).map
          fun end₃ => [seenOf end₁, seenOf end₂, seenOf end₃]) =
      some [⟨some 0, [4], [1], refusedWorld.clock⟩, ⟨some 1, [4], [1], refusedWorld.clock⟩,
        ⟨some 0, [6, 4], [1], refusedWorld.clock⟩] := by decide +kernel
  obtain ⟨⟨out₁, w₁⟩, hend₁, hrest⟩ := Option.bind_eq_some_iff.mp hrun
  obtain ⟨⟨out₂, w₂⟩, hend₂, hrest⟩ := Option.bind_eq_some_iff.mp hrest
  obtain ⟨⟨out₃, w₃⟩, hend₃, hseen⟩ := Option.map_eq_some_iff.mp hrest
  simp only [List.cons.injEq, and_true] at hseen
  obtain ⟨hseen₁, hseen₂, hseen₃⟩ := hseen
  exact ⟨out₁, w₁, out₂, w₂, out₃, w₃, ends_of_run hend₁, hseen₁, ends_of_run hend₂, hseen₂,
    ends_of_run hend₃, hseen₃⟩

/-- A tick that starts nothing, though it stores a run, attempts a start which raises. -/
private theorem exists_failed {out : Except Exn ℕ} (hkeyed : w.PlansKeyed)
    (hends : Ends environment (tickScheduledPlanRuns (readers mt)) w out w')
    (hout : out.toOption = some 0) (hplans : w.storedPlans.map (·.id) = [planId])
    (hruns : w'.runs ≠ w.runs) (hclock : w'.clock = w.clock) :
    ∃ attempts, ScheduleTick mt w attempts w' ∧ ∃ a ∈ attempts, a.plan.id = planId ∧
      a.before.clock = w.clock ∧ ∃ e, a.out = .error e ∧ a.after.runs ≠ a.before.runs := by
  obtain ⟨attempts, htick, hcount⟩ := tickScheduledPlanRuns_turns hends
  obtain ⟨n, hleaves⟩ := htick.leaves hkeyed
  obtain ⟨m, hturns⟩ := id htick
  have hraised : ∀ a ∈ attempts, ∃ e, a.out = .error e := by
    intro a ha
    rw [hcount] at hout
    have hnone := List.countP_eq_zero.mp (Option.some.inj hout) a ha
    cases hstarted : a.out with
    | error e => exact ⟨e, rfl⟩
    | ok run => exact absurd (by rw [hstarted]; rfl) hnone
  obtain ⟨a, ha, hstored⟩ : ∃ a ∈ attempts, a.after.runs ≠ a.before.runs := by
    by_contra hnone
    refine hruns (hturns.runs_eq fun a ha => ?_)
    obtain ⟨e, he⟩ := hraised a ha
    refine ⟨e, he, ?_⟩
    by_contra hne
    exact hnone ⟨a, ha, hne⟩
  obtain ⟨e, he⟩ := hraised a ha
  refine ⟨attempts, htick, a, ha, attempts_of_plan hleaves hplans a ha, ?_, e, he, hstored⟩
  obtain ⟨hfrom, hto⟩ := hleaves.times a ha
  have hwait : w.clock ≤ w.clock + n := (World.Onward.wait w n).clock
  exact le_antisymm (hto.trans hclock.le) (hwait.trans hfrom)

/-- The drill is started anew in the next iteration, and each attempt stores a run. -/
theorem failed_start_retried : ∃ (mt : Matching) (w₀ : World) (attempts : List Attempt) (w : World)
    (plan : Plan), w₀.PlansKeyed ∧ w₀.plan 1 = some plan ∧ 0 < plan.scheduleIntervalHours ∧
      Iterations {} mt 1 (fun _ _ _ => True) w₀ attempts w ∧
      ¬ KeepsInterval 1 plan.scheduleIntervalHours attempts ∧ ¬ FailsCleanly 1 attempts := by
  obtain ⟨out₁, w₁, out₂, w₂, out₃, w₃, htick₁, hseen₁, hadvance, hseen₂, htick₃, hseen₃⟩ :=
    refused_twice
  simp only [seenOf, Seen.mk.injEq] at hseen₁ hseen₂ hseen₃
  have hkeyed : refusedWorld.PlansKeyed := drillWorld_keyed
  have hstored : refusedWorld.storedPlans.map (·.id) = [1] := by decide +kernel
  have hnew₁ : w₁.runs ≠ refusedWorld.runs := by
    intro heq
    have hone := hseen₁.2.1
    rw [heq] at hone
    cases hone
  have hnew₃ : w₃.runs ≠ w₂.runs := by
    intro heq
    have htwo := hseen₃.2.1
    rw [heq, hseen₂.2.1] at htwo
    cases htwo
  obtain ⟨first, hfirst, a, ha, hida, hclocka, e, houta, hruns⟩ :=
    exists_failed hkeyed htick₁ hseen₁.1 hstored hnew₁ hseen₁.2.2.2
  have hkeyed₁ : w₁.PlansKeyed := by
    obtain ⟨n, hleaves⟩ := hfirst.leaves hkeyed
    exact hleaves.keyed hkeyed
  have hkept : w₁.KeepsSchedule 1 w₂ := keepsSchedule_of_advance hkeyed₁ hadvance
  obtain ⟨second, hsecond, b, hb, hidb, hclockb, -⟩ :=
    exists_failed hkept.keyed htick₃ hseen₃.1 hseen₂.2.2.1 hnew₃
      (hseen₃.2.2.2.trans hseen₂.2.2.2.symm)
  refine ⟨.unused, refusedWorld, _, w₃, drillPlan, hkeyed, AList.lookup_insert _, by decide,
    .tick (.advance (.tick .start hfirst trivial) hadvance) hsecond trivial, fun hspaced => ?_,
    fun hclean => ?_⟩
  · have hlong := (List.pairwise_append.mp hspaced).2.2 a
      (List.mem_append_right _ ha) b hb hida hidb
    rw [hclocka, hclockb, hseen₂.2.2.2, Int.sub_self] at hlong
    exact absurd hlong (by decide)
  · exact hruns (hclean a (List.mem_append_left _ (List.mem_append_right _ ha)) hida e houta)

end RestoreEngine
