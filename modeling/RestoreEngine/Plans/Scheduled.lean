import RestoreEngine.Assurance.Verdict
import RestoreEngine.Model.Schedule
import RestoreEngine.Plans.Footprint

/-!
# Starts and what they leave of the plan

A start that succeeds stores the plan, with the time of the start and without its verification
(`startPlanRun_spec`). A tick of the schedule stores it once more, as it was listed before the
start: of what the start has stored nothing is left.

`Turns` tells a run of a tick by the starts that it attempts, and `tickScheduledPlanRuns_turns` says
that every run of a tick is told in this way.
-/

namespace RestoreEngine

open Effects Prog Program

variable {α : Type} {w w' : World} {plan : Plan} {location : Location}
  {groupRows : List (List Row)} {opts : StartOptions} {mt : Matching} {cfg : Config}

/-! ### The clock -/

/-- The clock does not go back. -/
theorem Op.clock_le {o : Op} {a : Answer} {r : o.Res} (h : environment o a w = some (r, w')) :
    w.clock ≤ w'.clock := by
  by_cases ho : o.OnCluster
  · obtain ⟨guests, up, rfl⟩ := ho.sameRest h
    exact le_refl _
  · cases o with
    | utcNow =>
      cases h
      refine Int.le_add_of_nonneg_right ?_
      cases a <;> exact Int.natCast_nonneg _
    | park => cases h
    | _ => first | exact absurd trivial ho | (cases h; exact le_refl _)

/-- No program turns the clock back. -/
theorem clock_le_after {p : Prog α} :
    Satisfies environment.machine (fun _ w' => w.clock ≤ w'.clock) w p := by
  refine satisfies_of_moves (I := fun w' : World => w.clock ≤ w'.clock)
    (fun _ _ => trivial) ?_ (le_refl _)
  rintro w₁ o r w₂ hle ⟨a, ha⟩
  exact hle.trans (Op.clock_le ha)

/-- The worlds store the same plans, groups and locations, and the second is not earlier. -/
structure World.Onward (w w' : World) : Prop extends w.SameRegistry w' where
  clock : w.clock ≤ w'.clock

theorem World.Onward.refl (w : World) : w.Onward w := ⟨.refl w, le_refl _⟩

theorem World.Onward.trans {w'' : World} (h : w.Onward w') (h' : w'.Onward w'') : w.Onward w'' :=
  ⟨h.toSameRegistry.trans h'.toSameRegistry, h.clock.trans h'.clock⟩

theorem World.Onward.plan_eq (h : w.Onward w') (id : Uuid) : w'.plan id = w.plan id := by
  rw [World.plan, h.plans, World.plan]

/-- Programs that have nothing to do with plans only go on. -/
theorem onward_of_only {p : Prog α} (hp : p.Only Op.BesidesPlans) :
    Satisfies environment.machine (fun _ w' => w.Onward w') w p :=
  ((sameRegistry_of_only hp).and clock_le_after).mono fun _ _ h => ⟨h.1, h.2⟩

/-- Some time passes. -/
theorem World.Onward.wait (w : World) (n : ℕ) : w.Onward { w with clock := w.clock + n } :=
  ⟨⟨rfl, rfl, rfl, le_refl _⟩, Int.le_add_of_nonneg_right (Int.natCast_nonneg _)⟩

/-! ### What a tick looks at -/

/-- The plans that are stored, in the order in which they are listed. -/
def World.storedPlans (w : World) : List Plan :=
  (w.plans.keys.mergeSort fun a b => a ≤ b).filterMap w.plan

/-- An active run of the plan is RUNNING. -/
def World.RunsPlan (w : World) (planId : Uuid) : Prop :=
  (w.active.any fun id => (w.run id).any fun run => run.planId = planId ∧
    run.status = .RUNNING) = true

/-! ### A start -/

/-- The plan that a start stores. -/
def Plan.started (plan : Plan) (now : Instant) : Plan :=
  { plan with
    lastRunAt := some now
    verification := if plan.verification = .VERIFIED then .NEEDS_VERIFIED else plan.verification }

theorem Plan.started_verification (plan : Plan) (now : Instant) :
    (plan.started now).verification ≠ .VERIFIED := by
  by_cases h : plan.verification = .VERIFIED
  · simp [Plan.started, h]
  · simp [Plan.started, h]

/-- What a start comes to: nothing happens to plans if it raises, and otherwise the plan is stored
last, with the time at which the run was started. -/
def PlanStarted (plan : Plan) (w : World) (run : PlanRun) (w' : World) : Prop :=
  ∃ now mid, w.clock ≤ now ∧ now ≤ mid.clock ∧ w.Onward mid ∧
    run.planId = plan.id ∧ run.startedAt = some now ∧ w' = mid.setPlan (plan.started now)

/-- The registry after a start. -/
def Left (plan : Plan) (w : World) : Except Exn PlanRun → World → Prop
  | .ok run, w' => PlanStarted plan w run w'
  | .error _, w' => w.Onward w'

/-- The fields of a run that its jobs do not change. -/
private theorem enqueueFirst_spec {enqueueFn : EnqueueFn} {run : PlanRun} {startIdx : ℕ}
    (henqueue : ∀ req, (enqueueFn req).Only Op.BesidesPlans) :
    Satisfies environment.machine
      (fun out w' => w.Onward w' ∧
        ∀ run', out = .ok run' → run'.planId = run.planId ∧ run'.startedAt = run.startedAt) w
      (enqueueFirst enqueueFn run location startIdx groupRows) := by
  have honward : Satisfies environment.machine (fun _ w' => w.Onward w') w
      (enqueueFirst enqueueFn run location startIdx groupRows) := by
    refine onward_of_only (Only.bind (henqueue _) fun result => Only.bind savePlanRun_besides ?_)
    exact fun _ => Only.bind only_ofExcept fun _ => savePlanRun_besides
  refine honward.and ?_
  rw [enqueueFirst, satisfies_bind]
  refine (satisfies_of_permits fun _ _ => trivial).mono fun out w₁ _ => ?_
  cases out with
  | error e => exact then_error.mpr fun run' h => by cases h
  | ok result =>
    rw [then_ok, satisfies_bind, satisfies_savePlanRun, then_ok, satisfies_bind,
      satisfies_ofExcept]
    cases stashRows groupRows with
    | error e => exact then_error.mpr fun run' h => by cases h
    | ok stash =>
      refine then_ok.mpr (satisfies_savePlanRun.mpr fun run' h => ?_)
      obtain rfl := Except.ok.inj h
      exact ⟨rfl, rfl⟩

/-- **What a start comes to.** -/
theorem startPlanRun_spec {enqueueFn : EnqueueFn}
    (henqueue : ∀ req, (enqueueFn req).Only Op.BesidesPlans) :
    Satisfies environment.machine (Left plan w) w
      (startPlanRun enqueueFn plan location groupRows opts) := by
  rw [startPlanRun, satisfies_bind, satisfies_ofExcept]
  cases firstGroup plan groupRows with
  | error e => exact then_error.mpr (.refl w)
  | ok startIdx =>
    rw [then_ok, satisfies_bind, satisfies_uuid4, then_ok, satisfies_bind, satisfies_utcNow]
    intro n
    rw [then_ok, satisfies_bind, satisfies_savePlanRun, then_ok, satisfies_bind]
    have hid : (newRun w.nextUuid plan location opts (w.clock + n) startIdx).planId = plan.id :=
      rfl
    have hstarted : (newRun w.nextUuid plan location opts (w.clock + n) startIdx).startedAt =
      some (w.clock + n) := rfl
    generalize newRun w.nextUuid plan location opts (w.clock + n) startIdx = run at hid hstarted ⊢
    refine (enqueueFirst_spec henqueue).mono ?_
    rintro out mid ⟨honward, hrun⟩
    have hnew : w.Onward { w with nextUuid := w.nextUuid + 1, clock := w.clock + n } :=
      ⟨⟨rfl, rfl, rfl, Nat.le_succ _⟩, (World.Onward.wait w n).clock⟩
    have hmid : w.Onward mid :=
      hnew.trans ⟨⟨honward.plans, honward.groups, honward.locations, honward.nextUuid⟩,
        honward.clock⟩
    cases out with
    | error e => exact then_error.mpr hmid
    | ok run' =>
      obtain ⟨hid', hstarted'⟩ := hrun run' rfl
      rw [then_ok, satisfies_bind, satisfies_setPlan, then_ok]
      refine satisfies_ret.mpr ⟨w.clock + n, mid, (World.Onward.wait w n).clock, honward.clock,
        hmid, hid'.trans hid, hstarted'.trans hstarted, rfl⟩

/-! ### Attempts -/

/-- A start that a tick attempts: the plan as it was listed, and its location; what resolving the
rows of the plan comes to, and the start; the worlds before and after. -/
structure Attempt where
  plan : Plan
  location : Location
  rows : Except Exn (List (List Row))
  out : Except Exn PlanRun
  before : World
  after : World

namespace Attempt

variable {a : Attempt}

/-- The start is a run of `start_fn`: the rows are resolved, and the run is started. -/
def Runs (mt : Matching) (a : Attempt) : Prop :=
  ∃ n : ℕ, ∃ w₁, Ends environment
      (resolveScheduledRows mt a.plan.groupIds (utcText (a.before.clock + n)) a.location)
      { a.before with clock := a.before.clock + n } a.rows w₁ ∧
    match a.rows with
    | .error e => a.out = .error e ∧ a.after = w₁
    | .ok rows => Ends environment
        (if rows.all (· = []) then
            .raise (.runtimeError "Scheduled plan resolved to zero backups")
          else startPlanRun enqueueRestores a.plan a.location rows
            { cutoff := utcText (a.before.clock + n), drill := a.plan.scheduleDrill
              autoTeardown := a.plan.scheduleDrill })
        w₁ a.out a.after

/-- The start is attempted: the plan has its location and no active run. -/
structure Attempted (mt : Matching) (a : Attempt) : Prop where
  location : a.before.location a.plan.locationId = some a.location
  idle : ¬ a.before.RunsPlan a.plan.id
  runs : a.Runs mt

/-- The world in which a tick goes on after the attempt: a start that succeeded is entered into
the plan as it was listed. -/
def Leads (a : Attempt) (w : World) : Prop :=
  match a.out with
  | .error _ => w = a.after
  | .ok _ => ∃ n : ℕ, w = World.setPlan { a.after with clock := a.after.clock + n }
      { a.plan with lastScheduledRunAt := .zoned (a.after.clock + n) }

end Attempt

/-- `Turns mt plans w attempts w'`: a tick that finds `plans` to be due leads from `w` to `w'`, and
attempts the starts `attempts`. -/
inductive Turns (mt : Matching) : List Plan → World → List Attempt → World → Prop
  | done (w : World) : Turns mt [] w [] w
  | passed {plan : Plan} {rest : List Plan} {w w' : World} {attempts : List Attempt}
      (hpassed : w.location plan.locationId = none ∨ w.RunsPlan plan.id)
      (hrest : Turns mt rest w attempts w') : Turns mt (plan :: rest) w attempts w'
  | attempted {rest : List Plan} {w₁ w' : World} {a : Attempt} {attempts : List Attempt}
      (ha : a.Attempted mt) (hleads : a.Leads w₁) (hrest : Turns mt rest w₁ attempts w') :
      Turns mt (a.plan :: rest) a.before (a :: attempts) w'

/-- A tick at `now` or later that attempts these starts. -/
def ScheduleTick (mt : Matching) (w : World) (attempts : List Attempt) (w' : World) : Prop :=
  ∃ n : ℕ, Turns mt (plansDueForSchedule w.storedPlans (w.clock + n))
    { w with clock := w.clock + n } attempts w'

/-! ### Every tick is a sequence of attempts -/

@[simp] theorem satisfies_hasActiveRun {planId : Uuid} {ids : List Uuid}
    {Q : Except Exn Bool → World → Prop} :
    Satisfies environment.machine Q w (hasActiveRun planId ids) ↔
      Q (.ok (ids.any fun id => (w.run id).any fun run => run.planId = planId ∧
        run.status = .RUNNING)) w := by
  induction ids with
  | nil => exact satisfies_ret
  | cons id rest ih =>
    rw [hasActiveRun, satisfies_bind, satisfies_getRun, then_ok]
    split_ifs with hrun
    · rw [pure_eq_ret, satisfies_ret, List.any_cons, hrun, Bool.true_or]
    · rw [ih, List.any_cons, Bool.not_eq_true _ |>.mp hrun, Bool.false_or]

private theorem satisfies_loadPlans {ids : List Uuid}
    {Q : Except Exn (List Plan) → World → Prop} :
    Satisfies environment.machine Q w (loadPlans ids) ↔ Q (.ok (ids.filterMap w.plan)) w := by
  induction ids generalizing Q with
  | nil => exact satisfies_ret
  | cons id rest ih =>
    rw [loadPlans, satisfies_bind, satisfies_getPlan, then_ok, satisfies_bind, ih, then_ok,
      pure_eq_ret, satisfies_ret, List.filterMap_cons]
    cases w.plan id <;> rfl

@[simp] theorem satisfies_listPlans {Q : Except Exn (List Plan) → World → Prop} :
    Satisfies environment.machine Q w listPlans ↔ Q (.ok w.storedPlans) w := by
  rw [listPlans, satisfies_bind, satisfies_planIds, then_ok, satisfies_loadPlans,
    World.storedPlans]

/-- What the clock shows. -/
private theorem ends_utcNow {out : Except Exn Instant} (h : Ends environment utcNow w out w') :
    ∃ n : ℕ, out = .ok (w.clock + n) ∧ w' = { w with clock := w.clock + n } :=
  h.post (Q := fun out w' => ∃ n : ℕ, out = .ok (w.clock + n) ∧
    w' = { w with clock := w.clock + n }) (satisfies_utcNow.mpr fun n => ⟨n, rfl, rfl⟩)

/-- The plans that are listed. -/
private theorem ends_listPlans {out : Except Exn (List Plan)}
    (h : Ends environment listPlans w out w') : out = .ok w.storedPlans ∧ w' = w :=
  h.post (Q := fun out w' => out = .ok w.storedPlans ∧ w' = w)
    (satisfies_listPlans.mpr ⟨rfl, rfl⟩)

/-- A run of a start is an attempt. -/
private theorem runs_of_ends {before after : World} {out : Except Exn PlanRun}
    (h : Ends environment (startScheduled (readers mt) plan location) before out after) :
    ∃ rows, (Attempt.mk plan location rows out before after).Runs mt := by
  rw [startScheduled] at h
  rcases ends_bind.mp h with ⟨now, w₀, hnow, h⟩ | ⟨e, -, hnow⟩
  · obtain ⟨n, hok, rfl⟩ := ends_utcNow hnow
    obtain rfl := Except.ok.inj hok
    rcases ends_bind.mp h with ⟨rows, w₁, hrows, h⟩ | ⟨e, rfl, hrows⟩
    · exact ⟨.ok rows, n, w₁, hrows, h⟩
    · exact ⟨.error e, n, after, hrows, rfl, rfl⟩
  · obtain ⟨n, herr, -⟩ := ends_utcNow hnow
    cases herr

/-- The turn of a plan that is due: it is passed over, or its start is attempted. -/
private theorem startDue_turn {out : Except Exn Bool}
    (h : Ends environment (startDue (readers mt) plan) w out w') :
    (out = .ok false ∧ w' = w ∧ (w.location plan.locationId = none ∨ w.RunsPlan plan.id)) ∨
      ∃ a : Attempt, a.plan = plan ∧ a.before = w ∧ a.Attempted mt ∧ a.Leads w' ∧
        out = .ok a.out.toBool := by
  have hturn : Satisfies environment.machine (fun out w' =>
      (out = .ok false ∧ w' = w ∧ (w.location plan.locationId = none ∨ w.RunsPlan plan.id)) ∨
      ∃ a : Attempt, a.plan = plan ∧ a.before = w ∧ a.Attempted mt ∧ a.Leads w' ∧
        out = .ok a.out.toBool) w (startDue (readers mt) plan) := by
    rw [startDue, satisfies_bind, satisfies_getLocation, then_ok]
    cases hlocation : w.location plan.locationId with
    | none => exact satisfies_ret.mpr (.inl ⟨rfl, rfl, .inl rfl⟩)
    | some location =>
      dsimp only
      rw [satisfies_bind, satisfies_activeRuns, then_ok, satisfies_bind, satisfies_hasActiveRun,
        then_ok]
      refine Satisfies.ite (fun hactive => ?_) fun hidle => ?_
      · exact satisfies_ret.mpr (.inl ⟨rfl, rfl, .inr hactive⟩)
      · rw [satisfies_bind, satisfies_attempt, satisfies_bind]
        refine satisfies_iff_ends.mpr fun started w₁ hends => ?_
        obtain ⟨rows, hruns⟩ := runs_of_ends hends
        have hattempted : Attempt.Attempted mt ⟨plan, location, rows, started, w, w₁⟩ :=
          ⟨hlocation, hidle, hruns⟩
        cases started with
        | error e =>
          exact then_error.mpr (then_ok.mpr (satisfies_ret.mpr
            (.inr ⟨_, rfl, rfl, hattempted, rfl, rfl⟩)))
        | ok run =>
          rw [then_ok, satisfies_bind, satisfies_utcNow]
          intro n
          rw [then_ok, satisfies_setPlan]
          exact then_ok.mpr (satisfies_ret.mpr (.inr ⟨_, rfl, rfl, hattempted, ⟨n, rfl⟩, rfl⟩))
  exact h.post hturn

/-- The turns of all plans that are due. -/
private theorem startDuePlans_turns {plans : List Plan} {out : Except Exn ℕ}
    (h : Ends environment (startDuePlans (readers mt) plans) w out w') :
    ∃ attempts, Turns mt plans w attempts w' ∧
      out = .ok (attempts.countP fun a => a.out.toBool) := by
  induction plans generalizing w w' out with
  | nil =>
    cases h
    exact ⟨[], .done _, rfl⟩
  | cons plan rest ih =>
    rcases ends_bind.mp h with ⟨started, w₁, hturn, h⟩ | ⟨e, -, hturn⟩
    · rcases ends_bind.mp h with ⟨others, w₂, hrest, h⟩ | ⟨e, -, hrest⟩
      · obtain ⟨attempts, hturns, hcount⟩ := ih hrest
        obtain rfl := Except.ok.inj hcount
        cases h
        rcases startDue_turn hturn with ⟨hstarted, rfl, hpassed⟩ | ⟨a, rfl, rfl, ha, hleads, hout⟩
        · obtain rfl := Except.ok.inj hstarted
          refine ⟨attempts, .passed hpassed hturns, ?_⟩
          rw [Bool.toNat_false, Nat.zero_add]
        · obtain rfl := Except.ok.inj hout
          refine ⟨a :: attempts, .attempted ha hleads hturns, ?_⟩
          rw [List.countP_cons, Nat.add_comm]
          cases a.out.toBool <;> rfl
      · obtain ⟨attempts, -, hcount⟩ := ih hrest
        cases hcount
    · rcases startDue_turn hturn with ⟨hstarted, -⟩ | ⟨a, -, -, -, -, hout⟩
      · cases hstarted
      · cases hout

/-- **Every run of a tick** is told by the starts that it attempts; it counts those that
succeed. -/
theorem tickScheduledPlanRuns_turns {out : Except Exn ℕ}
    (h : Ends environment (tickScheduledPlanRuns (readers mt)) w out w') :
    ∃ attempts, ScheduleTick mt w attempts w' ∧
      out = .ok (attempts.countP fun a => a.out.toBool) := by
  rw [tickScheduledPlanRuns] at h
  rcases ends_bind.mp h with ⟨now, w₀, hnow, h⟩ | ⟨e, -, hnow⟩
  · obtain ⟨n, hok, rfl⟩ := ends_utcNow hnow
    obtain rfl := Except.ok.inj hok
    rcases ends_bind.mp h with ⟨plans, w₁, hplans, h⟩ | ⟨e, -, hplans⟩
    · obtain ⟨hstored, rfl⟩ := ends_listPlans hplans
      obtain rfl := Except.ok.inj hstored
      obtain ⟨attempts, hturns, hcount⟩ := startDuePlans_turns h
      exact ⟨attempts, ⟨n, hturns⟩, hcount⟩
    · cases (ends_listPlans hplans).1
  · obtain ⟨n, herr, -⟩ := ends_utcNow hnow
    cases herr

/-! ### What a tick leaves -/

namespace Attempt

variable {a : Attempt}

/-- What the attempt leaves of its plan: the plan as it was listed, with the time at which it was
entered if the start succeeded. -/
def LeavesPlan (a : Attempt) (w : World) : Prop :=
  match a.out with
  | .error _ => w.plan a.plan.id = some a.plan
  | .ok _ => ∃ t, a.before.clock ≤ t ∧ t ≤ w.clock ∧
      w.plan a.plan.id = some { a.plan with lastScheduledRunAt := .zoned t }

theorem LeavesPlan.of_same (h : a.LeavesPlan w) (hplan : w'.plan a.plan.id = w.plan a.plan.id)
    (hclock : w.clock ≤ w'.clock) : a.LeavesPlan w' := by
  rw [LeavesPlan] at h ⊢
  rw [hplan]
  split at h
  · exact h
  · obtain ⟨t, hle, hge, hstored⟩ := h
    exact ⟨t, hle, hge.trans hclock, hstored⟩

/-- The plan that is left. -/
theorem LeavesPlan.stored (h : a.LeavesPlan w) : ∃ last,
    w.plan a.plan.id = some { a.plan with lastScheduledRunAt := last } ∧
      (∀ e, a.out = .error e → last = a.plan.lastScheduledRunAt) ∧
        ∀ run, a.out = .ok run → ∃ t, last = .zoned t ∧ a.before.clock ≤ t := by
  rw [LeavesPlan] at h
  split at h
  · next e hout =>
    refine ⟨_, h, fun _ _ => rfl, fun run hrun => ?_⟩
    rw [hout] at hrun
    cases hrun
  · next run hout =>
    obtain ⟨t, hle, -, hstored⟩ := h
    refine ⟨_, hstored, fun e he => ?_, fun _ _ => ⟨t, rfl, hle⟩⟩
    rw [hout] at he
    cases he

/-- What the start of an attempt comes to. -/
theorem Attempted.left (ha : a.Attempted mt) : Left a.plan a.before a.out a.after := by
  obtain ⟨n, w₁, hrows, hstart⟩ := ha.runs
  have hasked : a.before.Onward w₁ := (World.Onward.wait a.before n).trans
    (hrows.post (onward_of_only ((resolveScheduledRows_asks _).mono fun _ ho => ho.besidesPlans)))
  have hleft : Left a.plan w₁ a.out a.after := by
    cases hr : a.rows with
    | error e =>
      rw [hr] at hstart
      obtain ⟨hout, rfl⟩ := hstart
      rw [hout]
      exact .refl _
    | ok rows =>
      rw [hr] at hstart
      refine hstart.post (Satisfies.ite (fun _ => satisfies_raise.mpr (.refl _)) fun _ => ?_)
      exact startPlanRun_spec enqueueRestores_besides
  cases hout : a.out with
  | error e =>
    rw [hout] at hleft
    exact hasked.trans hleft
  | ok run =>
    rw [hout] at hleft
    obtain ⟨now, mid, hle, hge, honward, hrest⟩ := hleft
    exact ⟨now, mid, hasked.clock.trans hle, hge, hasked.trans honward, hrest⟩

/-- An attempt leaves other plans alone. -/
private theorem leads_spec (ha : a.Attempted mt) (hleads : a.Leads w)
    (hplan : a.before.plan a.plan.id = some a.plan) :
    a.before.clock ≤ w.clock ∧ (∀ id, id ≠ a.plan.id → w.plan id = a.before.plan id) ∧
      a.LeavesPlan w := by
  have hleft := ha.left
  rw [Leads] at hleads
  rw [LeavesPlan]
  cases hout : a.out with
  | error e =>
    rw [hout] at hleft hleads
    subst hleads
    exact ⟨hleft.clock, fun id _ => hleft.plan_eq id, (hleft.plan_eq _).trans hplan⟩
  | ok run =>
    rw [hout] at hleft hleads
    obtain ⟨n, rfl⟩ := hleads
    obtain ⟨now, mid, hle, hge, honward, -, -, hafter⟩ := hleft
    have hlater : a.before.clock ≤ a.after.clock + n := by
      rw [hafter]
      exact honward.clock.trans (World.Onward.wait mid n).clock
    refine ⟨hlater, fun id hid => ?_, a.after.clock + n, hlater, le_refl _, ?_⟩
    · have hone : (a.after.setPlan { a.plan with
          lastScheduledRunAt := .zoned (a.after.clock + n) }).plan id = a.after.plan id :=
        AList.lookup_insert_ne hid
      have htwo : a.after.plan id = mid.plan id := by
        rw [hafter]
        exact AList.lookup_insert_ne hid
      exact hone.trans (htwo.trans (honward.plan_eq id))
    · exact World.plan_setPlan_of_eq _ rfl

end Attempt

/-- **What a tick leaves**: it attempts at most one start of a plan, and of the plan is left what
the attempt leaves. -/
structure TickLeaves (mt : Matching) (plans : List Plan) (w : World) (attempts : List Attempt)
    (w' : World) : Prop where
  clock : w.clock ≤ w'.clock
  attempted : ∀ a ∈ attempts, a.Attempted mt
  due : ∀ a ∈ attempts, a.plan ∈ plans
  once : (attempts.map (·.plan.id)).Nodup
  times : ∀ a ∈ attempts, w.clock ≤ a.before.clock ∧ a.before.clock ≤ w'.clock
  plans : ∀ a ∈ attempts, a.LeavesPlan w'
  others : ∀ id, (∀ a ∈ attempts, a.plan.id ≠ id) → w'.plan id = w.plan id

theorem Turns.leaves {plans : List Plan} {attempts : List Attempt}
    (h : Turns mt plans w attempts w') (hstored : ∀ p ∈ plans, w.plan p.id = some p)
    (hnodup : (plans.map (·.id)).Nodup) : TickLeaves mt plans w attempts w' := by
  induction h with
  | done w =>
    exact ⟨le_refl _, fun _ ha => (List.not_mem_nil ha).elim,
      fun _ ha => (List.not_mem_nil ha).elim, List.nodup_nil,
      fun _ ha => (List.not_mem_nil ha).elim, fun _ ha => (List.not_mem_nil ha).elim,
      fun _ _ => rfl⟩
  | passed hpassed _ ih =>
    obtain ⟨hclock, hall, hdue, honce, htimes, hplans, hothers⟩ :=
      ih (fun p hp => hstored p (List.mem_cons_of_mem _ hp)) (List.nodup_cons.mp hnodup).2
    exact ⟨hclock, hall, fun a ha => List.mem_cons_of_mem _ (hdue a ha), honce, htimes, hplans,
      hothers⟩
  | @attempted rest w₁ w' a attempts ha hleads _ ih =>
    obtain ⟨hnew, hrest⟩ := List.nodup_cons.mp hnodup
    obtain ⟨hbefore, hsame, hleaves⟩ :=
      Attempt.leads_spec ha hleads (hstored a.plan List.mem_cons_self)
    have hid : ∀ p ∈ rest, p.id ≠ a.plan.id := fun p hp heq =>
      hnew (List.mem_map.mpr ⟨p, hp, heq⟩)
    obtain ⟨hclock, hall, hdue, honce, htimes, hplans, hothers⟩ :=
      ih (fun p hp => (hsame p.id (hid p hp)).trans (hstored p (List.mem_cons_of_mem _ hp))) hrest
    have hlast : ∀ b ∈ attempts, b.plan.id ≠ a.plan.id := fun b hb => hid _ (hdue b hb)
    refine ⟨hbefore.trans hclock, ?_, ?_, ?_, ?_, ?_, fun id hnone => ?_⟩
    · rintro b (_ | ⟨_, hb⟩)
      · exact ha
      · exact hall b hb
    · rintro b (_ | ⟨_, hb⟩)
      · exact List.mem_cons_self
      · exact List.mem_cons_of_mem _ (hdue b hb)
    · refine List.nodup_cons.mpr ⟨fun hmem => ?_, honce⟩
      obtain ⟨b, hb, heq⟩ := List.mem_map.mp hmem
      exact hlast b hb heq
    · rintro b (_ | ⟨_, hb⟩)
      · exact ⟨le_refl _, hbefore.trans hclock⟩
      · exact ⟨hbefore.trans (htimes b hb).1, (htimes b hb).2⟩
    · rintro b (_ | ⟨_, hb⟩)
      · exact hleaves.of_same (hothers _ hlast) hclock
      · exact hplans b hb
    · rw [hothers id fun b hb => hnone b (List.mem_cons_of_mem _ hb)]
      exact hsame id fun heq => hnone a List.mem_cons_self heq.symm

/-- A plan after a tick: its start was attempted, or it is as it was. -/
theorem TickLeaves.plan_cases {plans : List Plan} {attempts : List Attempt}
    (h : TickLeaves mt plans w attempts w') (id : Uuid) :
    (∃ a ∈ attempts, a.plan.id = id ∧ a.LeavesPlan w') ∨ w'.plan id = w.plan id := by
  by_cases hsome : ∃ a ∈ attempts, a.plan.id = id
  · obtain ⟨a, ha, hid⟩ := hsome
    exact .inl ⟨a, ha, hid, h.plans a ha⟩
  · exact .inr (h.others id fun a ha hid => hsome ⟨a, ha, hid⟩)

/-- Plans stay under their own ids. -/
theorem TickLeaves.keyed {plans : List Plan} {attempts : List Attempt}
    (h : TickLeaves mt plans w attempts w') (hkeyed : w.PlansKeyed) : w'.PlansKeyed := by
  intro id plan hplan
  rcases h.plan_cases id with ⟨a, -, hid, hleaves⟩ | hsame
  · obtain ⟨last, hstored, -⟩ := hleaves.stored
    obtain rfl := Option.some.inj ((hid ▸ hstored).symm.trans hplan)
    exact hid
  · exact hkeyed id plan (hsame.symm.trans hplan)

/-- Plans that are stored under their own ids are listed once. -/
private theorem storedPlans_nodup (hkeyed : w.PlansKeyed) : (w.storedPlans.map (·.id)).Nodup := by
  have hsub : ∀ ids : List Uuid, ((ids.filterMap w.plan).map (·.id)).Sublist ids := by
    intro ids
    induction ids with
    | nil => exact List.Sublist.refl _
    | cons id rest ih =>
      rw [List.filterMap_cons]
      cases hplan : w.plan id with
      | none => exact ih.cons id
      | some plan =>
        rw [List.map_cons, hkeyed id plan hplan]
        exact ih.cons_cons id
  refine (hsub _).nodup ?_
  exact (List.mergeSort_perm _ _).nodup_iff.mpr (AList.keys_nodup _)

theorem mem_storedPlans (hkeyed : w.PlansKeyed) {p : Plan} (hp : p ∈ w.storedPlans) :
    w.plan p.id = some p := by
  obtain ⟨id, -, hplan⟩ := List.mem_filterMap.mp hp
  exact (hkeyed id p hplan).symm ▸ hplan

/-- What a tick leaves of the plans that are due. -/
theorem ScheduleTick.leaves {attempts : List Attempt} (h : ScheduleTick mt w attempts w')
    (hkeyed : w.PlansKeyed) : ∃ n : ℕ, TickLeaves mt (plansDueForSchedule w.storedPlans (w.clock + n))
      { w with clock := w.clock + n } attempts w' := by
  obtain ⟨n, hturns⟩ := h
  refine ⟨n, hturns.leaves (fun p hp => mem_storedPlans hkeyed (List.mem_filter.mp hp).1) ?_⟩
  exact ((List.filter_sublist).map _).nodup (storedPlans_nodup hkeyed)

/-! ### Starts by hand -/

/-- The stored plan records the start of the run: it has the time of the start, and is not VERIFIED
any more. -/
structure Plan.RecordsStart (plan : Plan) (run : PlanRun) (stored : Plan) : Prop where
  lastRunAt : stored.lastRunAt = run.startedAt
  verification : plan.verification = .VERIFIED → stored.verification = .NEEDS_VERIFIED
  unverified : stored.verification ≠ .VERIFIED

private theorem recordsStart_started {run : PlanRun} {now : Instant}
    (h : run.startedAt = some now) : plan.RecordsStart run (plan.started now) := by
  refine ⟨h.symm, fun hverified => ?_, plan.started_verification now⟩
  rw [Plan.started, if_pos hverified]

/-- The reply to a request for a start, if it is one, shows a run whose start the plan records. -/
private def RepliesStart (w : World) (planId : Uuid) (out : Except Exn AggregatedRun) (w' : World) :
    Prop :=
  ∀ agg, out = .ok agg → ∃ plan stored, w.plan planId = some plan ∧ w'.plan planId = some stored ∧
    plan.RecordsStart agg.run stored

private theorem repliesStart_error {planId : Uuid} {e : Exn} :
    RepliesStart w planId (.error e) w' := fun agg h => by cases h

/-- A gate in front of a start. -/
private theorem gate_replies {gate : Except Exn Unit} {planId : Uuid} {k : Unit → Prog AggregatedRun}
    (hk : Satisfies environment.machine (RepliesStart w planId) w (k ())) :
    Satisfies environment.machine (RepliesStart w planId) w (Program.ofExcept gate >>= k) := by
  rw [satisfies_bind, satisfies_ofExcept]
  cases gate with
  | error e => exact then_error.mpr repliesStart_error
  | ok _ => exact then_ok.mpr hk

private theorem startResolved_replies {planId : Uuid} (hid : plan.id = planId)
    (hplan : w.plan planId = some plan) :
    Satisfies environment.machine (RepliesStart w planId) w
      (startResolved (readers mt) plan location opts) := by
  have hasks : (resolvePlanGroupRows mt plan.groupIds opts.cutoff location.node).Only
      Op.BesidesPlans := (resolvePlanGroupRows_asks _ _).mono fun _ ho => ho.besidesPlans
  refine (onward_of_only hasks).bind (fun rows w₁ hasked => ?_) fun e _ _ => repliesStart_error
  refine Satisfies.ite (fun _ => satisfies_raise.mpr repliesStart_error) fun _ => ?_
  rw [apiStartPlanRun, satisfies_bind, satisfies_attempt]
  refine (startPlanRun_spec apiEnqueueRestores_besides).mono fun out w₂ hleft => then_ok.mpr ?_
  cases out with
  | error e => cases e <;> exact satisfies_raise.mpr repliesStart_error
  | ok run =>
    obtain ⟨now, mid, -, -, -, -, hstarted, rfl⟩ := hleft
    have hstored : (mid.setPlan (plan.started now)).plan planId = some (plan.started now) :=
      World.plan_setPlan_of_eq _ hid
    refine satisfies_aggregatePlanRun.mpr fun agg hagg => ?_
    obtain rfl := Except.ok.inj hagg
    exact ⟨plan, plan.started now, hplan, hstored, recordsStart_started hstarted⟩

/-- The plan of a request. -/
private theorem enabledPlan_replies {planId : Uuid} {k : Plan → Prog AggregatedRun}
    (hk : ∀ plan, w.plan planId = some plan →
      Satisfies environment.machine (RepliesStart w planId) w (k plan)) :
    Satisfies environment.machine (RepliesStart w planId) w (enabledPlan planId >>= k) := by
  rw [satisfies_bind, enabledPlan, satisfies_bind, satisfies_getPlan, then_ok]
  cases hplan : w.plan planId with
  | none => exact satisfies_raise.mpr (then_error.mpr repliesStart_error)
  | some plan =>
    refine Satisfies.ite (fun _ => ?_) fun _ => ?_
    · exact satisfies_ret.mpr (then_ok.mpr (hk plan hplan))
    · exact satisfies_raise.mpr (then_error.mpr repliesStart_error)

/-- A run that is asked for is recorded. -/
private theorem apiRunPlan_replies (hkeyed : w.PlansKeyed) {planId : Uuid}
    {body : PlanRunRequest} :
    Satisfies environment.machine (RepliesStart w planId) w
      (apiRunPlan cfg (readers mt) planId body) := by
  refine enabledPlan_replies fun plan hplan => gate_replies ?_
  rw [satisfies_bind, satisfies_getLocation, then_ok]
  cases w.location (body.locationId.getD plan.locationId) with
  | none => exact satisfies_raise.mpr repliesStart_error
  | some location =>
    exact gate_replies (gate_replies (startResolved_replies (hkeyed planId plan hplan) hplan))

/-- An assurance drill that is asked for is recorded. -/
private theorem apiAssurePlan_replies (hkeyed : w.PlansKeyed) {planId : Uuid}
    {body : PlanAssureRequest} :
    Satisfies environment.machine (RepliesStart w planId) w
      (apiAssurePlan cfg (readers mt) planId body) := by
  refine enabledPlan_replies fun plan hplan => ?_
  refine Satisfies.ite (fun _ => satisfies_raise.mpr repliesStart_error) fun _ => gate_replies ?_
  rw [satisfies_bind, satisfies_getLocation, then_ok]
  cases w.location plan.locationId with
  | none => exact satisfies_raise.mpr repliesStart_error
  | some location =>
    exact gate_replies (startResolved_replies (hkeyed planId plan hplan) hplan)

/-! ### Starts on the schedule -/

/-- The plan in the world records the start of the run, and that it was a scheduled one. -/
def Attempt.IsRecorded (a : Attempt) (run : PlanRun) (w : World) : Prop :=
  ∃ stored t, w.plan a.plan.id = some stored ∧ a.plan.RecordsStart run stored ∧
    stored.lastScheduledRunAt = .zoned t ∧ a.before.clock ≤ t

/-- A scheduled start is recorded if there is nothing to record. -/
private theorem isRecorded_iff {a : Attempt} {run : PlanRun} (hout : a.out = .ok run)
    (hleaves : a.LeavesPlan w) : a.IsRecorded run w ↔
      a.plan.verification ≠ .VERIFIED ∧ a.plan.lastRunAt = run.startedAt := by
  rw [Attempt.LeavesPlan, hout] at hleaves
  obtain ⟨t, hle, -, hstored⟩ := hleaves
  constructor
  · rintro ⟨stored, -, hplan, hrecords, -, -⟩
    obtain rfl := Option.some.inj (hstored.symm.trans hplan)
    exact ⟨hrecords.unverified, hrecords.lastRunAt⟩
  · rintro ⟨hunverified, hlast⟩
    exact ⟨_, t, hstored, ⟨hlast, fun h => absurd h hunverified, hunverified⟩, rfl, hle⟩

/-- **When starts are recorded.** A start by hand always is. A scheduled one is recorded only if the
plan, as it was listed, already says what is to be recorded: it is not VERIFIED, and has the
instant of the start for its last run. -/
theorem starts_recorded_iff (cfg : Config) (mt : Matching) (hkeyed : w.PlansKeyed) :
    (∀ out w', Ends environment (tickScheduledPlanRuns (readers mt)) w out w' →
      ∃ attempts, ScheduleTick mt w attempts w' ∧
        out = .ok (attempts.countP fun a => a.out.toBool) ∧
        ∀ a ∈ attempts, ∀ run, a.out = .ok run → (a.IsRecorded run w' ↔
          a.plan.verification ≠ .VERIFIED ∧ a.plan.lastRunAt = run.startedAt)) ∧
    (∀ planId body agg w', Ends environment (apiRunPlan cfg (readers mt) planId body) w
      (.ok agg) w' → ∃ plan stored, w.plan planId = some plan ∧ w'.plan planId = some stored ∧
        plan.RecordsStart agg.run stored) ∧
    (∀ planId body agg w', Ends environment (apiAssurePlan cfg (readers mt) planId body) w
      (.ok agg) w' → ∃ plan stored, w.plan planId = some plan ∧ w'.plan planId = some stored ∧
        plan.RecordsStart agg.run stored) := by
  refine ⟨fun out w' hends => ?_, fun planId body agg w' hends => ?_,
    fun planId body agg w' hends => ?_⟩
  · obtain ⟨attempts, htick, hcount⟩ := tickScheduledPlanRuns_turns hends
    obtain ⟨n, hleaves⟩ := htick.leaves hkeyed
    exact ⟨attempts, htick, hcount, fun a ha run hout => isRecorded_iff hout (hleaves.plans a ha)⟩
  · exact hends.post (apiRunPlan_replies hkeyed) agg rfl
  · exact hends.post (apiAssurePlan_replies hkeyed) agg rfl

/-! ### A drill every day -/

/-- A VERIFIED plan with a drill every day. -/
def drillPlan : Plan :=
  { id := 1, name := "P1", groupIds := [2], locationId := 3, verification := .VERIFIED
    scheduleEnabled := true, scheduleIntervalHours := 24 }

/-- What the probes find: a backup of guest 109. -/
def drillAnswers : (p : Probe) → Answer → Except Exn p.Reply
  | .backups, _ => .ok [{ backupId := "main|vm/109/1", vmid := some 109
                          timestamp := "2026-08-07T10:00:00Z", pveStorage := "pbs"
                          voltail := "vm/109/1" }]
  | _, _ => .error (.api "no answer")

/-- A world in which the drill is due. -/
def drillWorld : World where
  plans := (∅ : AList fun _ : Uuid => Plan).insert 1 drillPlan
  groups := (∅ : AList fun _ : Uuid => Group).insert 2 { id := 2, name := "g1", vmids := [109] }
  locations := (∅ : AList fun _ : Uuid => Location).insert 3
    { id := 3, node := "pve", nodes := ["pve"], storage := "local-lvm", vmidStart := 3500 }
  nextUuid := 4
  clock := 1790000000000000
  answers := drillAnswers

theorem drillWorld_keyed : drillWorld.PlansKeyed := by
  intro id plan hplan
  by_cases hid : id = 1
  · subst hid
    obtain rfl : drillPlan = plan :=
      Option.some.inj ((AList.lookup_insert (∅ : AList fun _ : Uuid => Plan)).symm.trans hplan)
    rfl
  · cases (AList.lookup_insert_ne hid).symm.trans hplan

/-- The tick starts one run. -/
theorem drill_ends : ∃ w', Ends environment (tickScheduledPlanRuns (readers .unused))
    drillWorld (.ok 1) w' := by
  have hrun : ((tickScheduledPlanRuns (readers .unused)).run environment [] drillWorld).map
      (fun end_ => end_.1.toOption) = some (some 1) := by decide +kernel
  obtain ⟨out, w', hends, hout⟩ := exists_ends_of_run hrun
  cases out with
  | error e => cases hout
  | ok n =>
    obtain rfl := Option.some.inj hout
    exact ⟨w', hends⟩

/-- A tick that starts a run, as a list of attempts. -/
theorem exists_started {n : ℕ} (h : Ends environment (tickScheduledPlanRuns (readers mt)) w
    (.ok (n + 1)) w') : ∃ attempts a run, ScheduleTick mt w attempts w' ∧ a ∈ attempts ∧
      a.out = .ok run := by
  obtain ⟨attempts, htick, hcount⟩ := tickScheduledPlanRuns_turns h
  have hpos : 0 < attempts.countP fun a => a.out.toBool := by
    rw [← Except.ok.inj hcount]
    omega
  obtain ⟨a, ha, hstarted⟩ := List.countP_pos_iff.mp hpos
  cases hout : a.out with
  | error e =>
    rw [hout] at hstarted
    cases hstarted
  | ok run => exact ⟨attempts, a, run, htick, ha, hout⟩

/-- The drill is started, and the plan is VERIFIED as before and has no last run. -/
theorem drill_not_recorded : ∃ (mt : Matching) (w : World) (attempts : List Attempt) (w' : World)
    (a : Attempt) (run : PlanRun) (stored : Plan), w.PlansKeyed ∧ ScheduleTick mt w attempts w' ∧
      a ∈ attempts ∧ a.out = .ok run ∧ w'.plan a.plan.id = some stored ∧
      stored.verification = .VERIFIED ∧ stored.lastRunAt = none ∧ ¬ a.IsRecorded run w' := by
  obtain ⟨w', hends⟩ := drill_ends
  obtain ⟨attempts, a, run, htick, ha, hout⟩ := exists_started hends
  obtain ⟨n, hleaves⟩ := htick.leaves drillWorld_keyed
  have hplan : a.plan = drillPlan := by
    have hdue := (List.mem_filter.mp (hleaves.due a ha)).1
    have hstored : drillWorld.storedPlans = [drillPlan] := by decide +kernel
    exact List.mem_singleton.mp (hstored ▸ hdue)
  have hleft := hleaves.plans a ha
  have hnot : ¬ a.IsRecorded run w' := fun hrecorded => by
    refine ((isRecorded_iff hout hleft).mp hrecorded).1 ?_
    rw [hplan]
    rfl
  rw [Attempt.LeavesPlan, hout] at hleft
  obtain ⟨t, -, -, hstored⟩ := hleft
  refine ⟨.unused, drillWorld, attempts, w', a, run, _, drillWorld_keyed, htick, ha, hout, hstored,
    ?_, ?_, hnot⟩
  · rw [hplan]
    rfl
  · rw [hplan]
    rfl

/-- The same start by the theorem on all starts. -/
theorem starts_recorded_iff_drill : ∃ attempts w', ScheduleTick .unused drillWorld attempts w' ∧
    attempts ≠ [] ∧ ∀ a ∈ attempts, ∀ run, a.out = .ok run → (a.IsRecorded run w' ↔
      a.plan.verification ≠ .VERIFIED ∧ a.plan.lastRunAt = run.startedAt) := by
  obtain ⟨w', hends⟩ := drill_ends
  obtain ⟨attempts, htick, hcount, hall⟩ :=
    (starts_recorded_iff {} .unused drillWorld_keyed).1 _ w' hends
  refine ⟨attempts, w', htick, fun hnone => ?_, hall⟩
  subst hnone
  cases hcount

end RestoreEngine
