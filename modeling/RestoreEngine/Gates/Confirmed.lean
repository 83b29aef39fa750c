import RestoreEngine.Gates.Starting

/-!
# No start without its confirmations

The handlers check, before they start a run, that the plan is verified where the settings ask for
it, and that the operator has confirmed a DR location. The schedule of the worker starts runs
without either check, so that a start has its confirmations on every path except there
(`startsConfirmed_iff`).
-/

namespace RestoreEngine

open Effects Prog Program

variable {w w' : World} {plan : Plan} {location : Location} {opts : StartOptions} {cfg : Config}
  {rd : Readers}

/-- The paths on which runs of a plan are started at a location. -/
inductive StartPath
  | apiRunPlan (plan : Plan) (location : Location) (body : PlanRunRequest)
  | apiAssurePlan (plan : Plan) (location : Location) (body : PlanAssureRequest)
  | schedule (plan : Plan) (location : Location)

namespace StartPath

/-- The plan whose runs are started. -/
def startedPlan : StartPath → Plan
  | apiRunPlan plan _ _ | apiAssurePlan plan _ _ | schedule plan _ => plan

/-- The program of the path. -/
def program (cfg : Config) (rd : Readers) : StartPath → Prog Unit
  | apiRunPlan plan _ body => discard (RestoreEngine.apiRunPlan cfg rd plan.id body)
  | apiAssurePlan plan _ body => discard (RestoreEngine.apiAssurePlan cfg rd plan.id body)
  | schedule _ _ => discard (tickScheduledPlanRuns rd)

/-- The plan and the location are stored, and all plans under their own ids. -/
def Stored (w : World) : StartPath → Prop
  | apiRunPlan plan location body => w.plan plan.id = some plan ∧
      w.location (body.locationId.getD plan.locationId) = some location
  | apiAssurePlan plan location _ => w.plan plan.id = some plan ∧
      w.location plan.locationId = some location
  | schedule plan location => w.plan plan.id = some plan ∧
      w.location plan.locationId = some location ∧ ∀ id p, w.plan id = some p → p.id = id

/-- The operator passes `allow_unverified`. -/
def allowUnverified : StartPath → Bool
  | apiRunPlan _ _ body => body.allowUnverified
  | apiAssurePlan _ _ body => body.allowUnverified
  | schedule _ _ => false

/-- The operator passes `confirm_dr`. -/
def confirmDr : StartPath → Bool
  | apiRunPlan _ _ body => body.confirmDr
  | apiAssurePlan _ _ body => body.confirmDr
  | schedule _ _ => false

end StartPath

/-- The run has its confirmations: unless it is a drill, the plan is verified, or need not be, or
the operator has allowed otherwise; and a DR run is confirmed. -/
structure PlanRun.Confirmed (cfg : Config) (verification : PlanVerification)
    (allowUnverified confirmDr : Bool) (run : PlanRun) : Prop where
  verified : requireVerifiedToRun cfg = true → run.drill = false →
    verification = .VERIFIED ∨ allowUnverified = true
  mode : run.restoreMode = "dr" → confirmDr = true

/-- **No start without its confirmations**: whatever the readers find, all runs of the plan that
an undisturbed run of the path stores have theirs, with the verification that is stored when the
path is entered. -/
def StartsConfirmed (cfg : Config) (p : StartPath) : Prop :=
  ∀ rd : Readers, rd.ReadOnly → ∀ w, p.Stored w → ∀ out w',
    Ends environment (p.program cfg rd) w out w' → ∀ id run, w'.run id = some run →
      w.run id ≠ some run → run.planId = p.startedPlan.id →
        run.Confirmed cfg p.startedPlan.verification p.allowUnverified p.confirmDr

/-- The schedule starts runs of the plan only if they need no confirmation. -/
def StartPath.Checks (cfg : Config) : StartPath → Prop
  | schedule plan location => plan.Scheduled → plan.groupIds ≠ [] →
      (requireVerifiedToRun cfg = true → plan.scheduleDrill = false →
        plan.verification = .VERIFIED) ∧ location.mode ≠ "dr"
  | _ => True

/-! ### The handlers -/

theorem Location.mode_eq_dr_iff : location.mode = "dr" ↔ location.restoreModeText = "dr" := by
  have hmode : location.mode = if location.restoreModeText = "" then "normal"
      else location.restoreModeText := rfl
  rw [hmode]
  split_ifs with h
  · rw [h]
    decide
  · rfl

private theorem verifiedGate_ok {allow : Bool} (h : verifiedGate cfg plan allow = .ok ())
    (hrequired : requireVerifiedToRun cfg = true) :
    plan.verification = .VERIFIED ∨ allow = true := by
  rw [verifiedGate] at h
  split_ifs at h with hgate
  by_contra hnot
  obtain ⟨hne, hallow⟩ := not_or.mp hnot
  exact hgate ⟨hrequired, hne, by simpa using hallow⟩

private theorem modeGates_ok {confirmDr overwrite confirmOverwrite : Bool} {text : String}
    (h : modeGates location confirmDr text overwrite confirmOverwrite = .ok ())
    (hdr : location.mode = "dr") : confirmDr = true := by
  rw [modeGates] at h
  split_ifs at h with hgate
  by_contra hnot
  exact hgate ⟨Location.mode_eq_dr_iff.mp hdr, by simpa using hnot⟩

/-- What a start by the API writes, if the runs that follow its options are confirmed. -/
private theorem startResolved_confirmed (hrd : rd.ReadOnly) {R : PlanRun → Prop}
    (hR : ∀ run, PlanRun.Follows plan location opts run → R run) :
    Satisfies environment.machine (fun _ w' => w.Adds (fun _ => True) R w') w
      (startResolved rd plan location opts) :=
  adds_of_only (startResolved_within hrd
    (fun _ _ _ _ => apiEnqueueRestores_within fun _ _ _ _ _ _ _ _ => trivial) hR)

private theorem apiRunPlan_confirmed (hrd : rd.ReadOnly) {body : PlanRunRequest}
    (hplan : w.plan plan.id = some plan)
    (hlocation : w.location (body.locationId.getD plan.locationId) = some location) :
    Satisfies environment.machine
      (fun _ w' => w.Adds (fun _ => True)
        (PlanRun.Confirmed cfg plan.verification body.allowUnverified body.confirmDr) w') w
      (apiRunPlan cfg rd plan.id body) := by
  refine enabledPlan_then hplan fun _ => gate_then fun _ hverified => ?_
  rw [satisfies_bind, satisfies_getLocation, hlocation, then_ok]
  refine gate_then fun _ hmode => gate_then fun _ _ => ?_
  refine startResolved_confirmed hrd fun run hrun => ?_
  refine ⟨fun hrequired _ => verifiedGate_ok hverified hrequired, fun hdr => ?_⟩
  exact modeGates_ok hmode (hrun.restoreMode.symm.trans hdr)

private theorem apiAssurePlan_confirmed (hrd : rd.ReadOnly) {body : PlanAssureRequest}
    (hplan : w.plan plan.id = some plan)
    (hlocation : w.location plan.locationId = some location) :
    Satisfies environment.machine
      (fun _ w' => w.Adds (fun _ => True)
        (PlanRun.Confirmed cfg plan.verification body.allowUnverified body.confirmDr) w') w
      (apiAssurePlan cfg rd plan.id body) := by
  refine enabledPlan_then hplan fun _ =>
    Satisfies.ite (fun _ => ?_) fun _ => gate_then fun _ hverified => ?_
  · exact satisfies_raise.mpr (.refl w)
  · rw [satisfies_bind, satisfies_getLocation, hlocation, then_ok]
    refine gate_then fun _ hgates => startResolved_confirmed hrd fun run hrun => ?_
    refine ⟨fun hrequired _ => verifiedGate_ok hverified hrequired, fun hdr => ?_⟩
    rw [assureGates] at hgates
    cases hmode : modeGates location body.confirmDr
        "DR location requires confirm_dr=true for assurance runs" body.overwrite
        body.confirmOverwrite with
    | error e => rw [hmode] at hgates; cases hgates
    | ok _ => exact modeGates_ok hmode (hrun.restoreMode.symm.trans hdr)

/-! ### The plans of a tick -/

/-- The plans that the loop of `list_plans` loads. -/
private theorem satisfies_loadStored {ids : List Uuid} {Q : Except Exn (List Plan) → World → Prop} :
    Satisfies environment.machine Q w (loadPlans ids) ↔ Q (.ok (ids.filterMap w.plan)) w := by
  induction ids generalizing Q with
  | nil => exact satisfies_ret
  | cons id rest ih =>
    rw [loadPlans, satisfies_bind, satisfies_getPlan, then_ok, satisfies_bind, ih, then_ok,
      pure_eq_ret, satisfies_ret]
    cases hplan : w.plan id with
    | none => rw [List.filterMap_cons_none hplan]; rfl
    | some p => rw [List.filterMap_cons_some hplan]; rfl

private theorem satisfies_listStored {Q : Except Exn (List Plan) → World → Prop} :
    Satisfies environment.machine Q w listPlans ↔
      Q (.ok ((w.plans.keys.mergeSort fun a b => a ≤ b).filterMap w.plan)) w := by
  rw [listPlans, satisfies_bind, satisfies_planIds, then_ok, satisfies_loadStored]

private theorem hasActiveRun_within {G : Job → Prop} {R : PlanRun → Prop} (planId : Uuid)
    (ids : List Uuid) : (hasActiveRun planId ids).Only (Op.Within G R) := by
  induction ids with
  | nil => exact only_ret
  | cons id rest ih =>
    exact Only.bind (only_perform.mpr trivial) fun _ => Only.ite (fun _ => only_ret) fun _ => ih

/-- Whoever writes within bounds changes no location. -/
private theorem locations_kept {α : Type} {G : Job → Prop} {R : PlanRun → Prop} {p : Prog α}
    (hp : p.Only (Op.Within G R)) :
    Satisfies environment.machine (fun _ w' => w'.locations = w.locations) w p := by
  refine hp.satisfies rfl (fun _ _ _ _ => trivial) ?_
  rintro s o r s' ho hs ⟨a, ha⟩
  have hkept : o.locationsAfter s = s.locations := by
    cases o with
    | setLocation _ => exact ho.elim
    | delLocation _ => exact ho.elim
    | _ => rfl
  exact (after_step ha).locations.trans (hkept.trans hs)

/-- The start of a due plan whose location is known. -/
private def startAt (rd : Readers) (plan : Plan) (location : Location) : Prog Bool := do
  if ← hasActiveRun plan.id (← issue .activeRuns) then return false
  else
    let outcome ← Program.attempt do
      let _ ← startScheduled rd plan location
      let now ← utcNow
      setPlan { plan with lastScheduledRunAt := .zoned now }
    return outcome.toBool

private theorem startDue_eq : startDue rd plan = getLocation plan.locationId >>= fun found =>
    match found with
    | none => return false
    | some location => startAt rd plan location := rfl

private theorem startAt_within {R : PlanRun → Prop} (hrd : rd.ReadOnly)
    (hR : plan.groupIds ≠ [] → ∀ cutoff run,
      PlanRun.Follows plan location (plan.scheduleOptions cutoff) run → R run) :
    (startAt rd plan location).Only (Op.Within (fun _ => True) R) := by
  refine Only.bind (only_perform.mpr trivial) fun active => ?_
  refine Only.bind (hasActiveRun_within _ _) fun found => ?_
  refine Only.ite (fun _ => only_ret) fun _ => Only.bind (Only.attempt ?_) fun _ => only_ret
  refine Only.bind ?_ fun _ => ?_
  · by_cases hgroups : plan.groupIds = []
    · exact startScheduled_groupless hrd hgroups
    · exact startScheduled_within hrd (fun _ _ _ _ _ =>
        enqueueRestores_within fun _ _ _ _ _ _ _ _ => trivial) (hR hgroups)
  · exact Only.bind (only_perform.mpr trivial) fun _ => only_perform.mpr trivial

private theorem startDue_within (hrd : rd.ReadOnly) {due : Plan} :
    (startDue rd due).Only (Op.Within (fun _ => True) fun _ => True) := by
  rw [startDue_eq]
  refine Only.bind (only_perform.mpr trivial) fun found => ?_
  cases found with
  | none => exact only_ret
  | some location => exact startAt_within hrd fun _ _ _ _ => trivial

/-- What the start of a due plan writes. -/
private theorem startDue_then {R : PlanRun → Prop} {started : Plan} (hrd : rd.ReadOnly)
    (hR : started.groupIds ≠ [] → ∀ location, w.location started.locationId = some location →
      ∀ cutoff run, PlanRun.Follows started location (started.scheduleOptions cutoff) run →
        R run) :
    Satisfies environment.machine (fun _ w' => w.Adds (fun _ => True) R w') w
      (startDue rd started) := by
  rw [startDue_eq, satisfies_bind, satisfies_getLocation, then_ok]
  cases hlocation : w.location started.locationId with
  | none => exact satisfies_ret.mpr (.refl w)
  | some location =>
    exact adds_of_only (startAt_within hrd fun hgroups => hR hgroups location hlocation)

private theorem startDuePlans_then {R : PlanRun → Prop} (hrd : rd.ReadOnly) (plans : List Plan)
    (hR : ∀ started ∈ plans, started.groupIds ≠ [] → ∀ location,
      w.location started.locationId = some location → ∀ cutoff run,
        PlanRun.Follows started location (started.scheduleOptions cutoff) run → R run) :
    Satisfies environment.machine (fun _ w' => w.Adds (fun _ => True) R w') w
      (startDuePlans rd plans) := by
  induction plans generalizing w with
  | nil => exact satisfies_ret.mpr (.refl w)
  | cons started rest ih =>
    refine ((startDue_then hrd (hR started List.mem_cons_self)).and
      (locations_kept (startDue_within hrd))).bind ?_ ?_
    · rintro _ w₁ ⟨hadds, hlocations⟩
      have hrest := ih (w := w₁) fun p hp hgroups location hlocation => by
        rw [World.location, hlocations] at hlocation
        exact hR p (List.mem_cons_of_mem _ hp) hgroups location hlocation
      refine hrest.bind (fun _ w₂ hadds' => ?_) fun _ w₂ hadds' => hadds.trans hadds'
      exact satisfies_ret.mpr (hadds.trans hadds')
    · exact fun _ _ h => h.1

/-- **What a tick writes**: runs of the plans that are due, at their locations. -/
private theorem tick_then {R : PlanRun → Prop} (hrd : rd.ReadOnly)
    (hR : ∀ id started, w.plan id = some started → started.Scheduled → started.groupIds ≠ [] →
      ∀ location, w.location started.locationId = some location → ∀ cutoff run,
        PlanRun.Follows started location (started.scheduleOptions cutoff) run → R run) :
    Satisfies environment.machine (fun _ w' => w.Adds (fun _ => True) R w') w
      (tickScheduledPlanRuns rd) := by
  rw [tickScheduledPlanRuns, satisfies_bind, satisfies_utcNow]
  intro n
  rw [then_ok, satisfies_bind, satisfies_listStored, then_ok]
  refine (startDuePlans_then hrd _ fun started hmem hgroups location hlocation => ?_).mono
    fun _ w' hadds => ⟨hadds.jobs, hadds.runs⟩
  obtain ⟨hlisted, hdue⟩ := List.mem_filter.mp hmem
  obtain ⟨id, -, hplan⟩ := List.mem_filterMap.mp hlisted
  exact hR id started hplan (of_decide_eq_true hdue).1 hgroups location hlocation

private theorem tick_confirmed (hrd : rd.ReadOnly)
    (hstored : (StartPath.schedule plan location).Stored w)
    (h : (StartPath.schedule plan location).Checks cfg) :
    Satisfies environment.machine
      (fun _ w' => w.Adds (fun _ => True)
        (fun run => run.planId = plan.id → run.Confirmed cfg plan.verification false false) w') w
      (tickScheduledPlanRuns rd) := by
  obtain ⟨hplan, hlocation, hkeyed⟩ := hstored
  refine tick_then hrd ?_
  intro id started hstarted hscheduled hgroups place hplace cutoff run hrun hid
  -- the run is one of the plan itself
  have hkey : id = plan.id := by
    rw [← hkeyed id started hstarted, ← hrun.planId, hid]
  obtain rfl : started = plan := Option.some.inj (hstarted.symm.trans (hkey ▸ hplan))
  obtain rfl : place = location := Option.some.inj (hplace.symm.trans hlocation)
  obtain ⟨hverified, hmode⟩ := h hscheduled hgroups
  refine ⟨fun hrequired hdrill => .inl ?_, fun hdr => ?_⟩
  · exact hverified hrequired (hrun.drill.symm.trans hdrill)
  · exact absurd (hrun.restoreMode.symm.trans hdr) hmode

/-! ### A tick that starts a run -/

/-- A time from which on the plan is due. -/
private def IsoTime.due (hours : ℕ) : IsoTime → Instant
  | .naive t | .zoned t => t + hours * 3600 * 1000000
  | .empty | .malformed => 0

/-- A run in `R` is stored. -/
private def World.HoldsRun (R : PlanRun → Prop) (w : World) : Prop :=
  ∃ id run, w.run id = some run ∧ R run

private theorem World.HoldsRun.step {G : Job → Prop} {R : PlanRun → Prop} {o : Op} {a : Answer}
    {r : o.Res} (hw : w.HoldsRun R) (ho : o.Within G R) (h : environment o a w = some (r, w')) :
    w'.HoldsRun R := by
  obtain ⟨id, run, hrun, hR⟩ := hw
  have hruns := (after_step h).runs
  cases o with
  | setRun new =>
    refine ⟨new.id, new, ?_, ho⟩
    rw [World.run, hruns]
    exact AList.lookup_insert _
  | _ => exact ⟨id, run, by rw [World.run, hruns]; exact hrun, hR⟩

private theorem stores_of_only {α : Type} {G : Job → Prop} {R : PlanRun → Prop} {p : Prog α}
    (hp : p.Only (Op.Within G R)) (hw : w.HoldsRun R) :
    Satisfies environment.machine (fun _ w' => w'.HoldsRun R) w p := by
  refine hp.satisfies hw (fun _ _ _ _ => trivial) ?_
  rintro s o r s' ho hs ⟨a, ha⟩
  exact hs.step ho ha

private theorem enqueueRestores_writesRuns (req : EnqueueRequest) (R : PlanRun → Prop) :
    (enqueueRestores req).Only (Op.Within (fun _ => True) R) :=
  enqueueRestores_within fun _ _ _ _ _ _ _ _ => trivial

private theorem startPlanRun_stores (hgroups : plan.groupIds ≠ []) :
    Satisfies environment.machine (fun _ w' => w'.HoldsRun (PlanRun.Follows plan location opts)) w
      (startPlanRun enqueueRestores plan location (plan.groupIds.map fun _ => [sampleRow])
        opts) := by
  rw [startPlanRun, firstGroup_samples hgroups, satisfies_bind, satisfies_ofExcept, then_ok,
    satisfies_bind, satisfies_uuid4, then_ok, satisfies_bind, satisfies_utcNow]
  intro n
  have hnew : PlanRun.Follows plan location opts
      (newRun w.nextUuid plan location opts (w.clock + n) 0) := newRun_follows
  rw [then_ok]
  generalize newRun w.nextUuid plan location opts (w.clock + n) 0 = run at hnew
  rw [satisfies_bind, satisfies_savePlanRun, then_ok]
  refine stores_of_only (G := fun _ => True) ?_ ⟨run.id, run, World.run_setRun _ _, hnew⟩
  refine Only.bind ?_ fun run => Only.bind (only_perform.mpr trivial) fun _ => only_ret
  exact enqueueFirst_within (fun _ => enqueueRestores_writesRuns _ _) fun _ hsame => hnew.same hsame

private theorem startScheduled_stores (hgroups : plan.groupIds ≠ []) :
    Satisfies environment.machine
      (fun _ w' => w'.HoldsRun fun run =>
        ∃ cutoff, PlanRun.Follows plan location (plan.scheduleOptions cutoff) run) w
      (startScheduled sampleReaders plan location) := by
  rw [startScheduled, satisfies_bind, satisfies_utcNow]
  intro n
  rw [then_ok, satisfies_bind]
  refine satisfies_ret.mpr (then_ok.mpr ?_)
  refine Satisfies.ite (fun h => absurd h (samples_ne hgroups)) fun _ => ?_
  exact (startPlanRun_stores hgroups).mono fun _ w' ⟨id, run, hrun, hfollows⟩ =>
    ⟨id, run, hrun, _, hfollows⟩

private theorem startDue_stores (hgroups : plan.groupIds ≠ [])
    (hlocation : w.location plan.locationId = some location) (hactive : w.active = []) :
    Satisfies environment.machine
      (fun _ w' => w'.HoldsRun fun run =>
        ∃ cutoff, PlanRun.Follows plan location (plan.scheduleOptions cutoff) run) w
      (startDue sampleReaders plan) := by
  rw [startDue_eq, satisfies_bind, satisfies_getLocation, hlocation, then_ok]
  simp only
  rw [startAt, satisfies_bind, satisfies_activeRuns, hactive, then_ok, satisfies_bind]
  refine satisfies_ret.mpr (then_ok.mpr ?_)
  rw [if_neg Bool.false_ne_true, satisfies_bind, satisfies_attempt]
  refine (Satisfies.bind (startScheduled_stores hgroups) (fun _ w₁ h => ?_) fun _ _ h => h).mono
    fun _ _ h => then_ok.mpr (satisfies_ret.mpr h)
  refine stores_of_only (G := fun _ => True) ?_ h
  exact Only.bind (only_perform.mpr trivial) fun _ => only_perform.mpr trivial

private theorem elapsed_due (last : IsoTime) (hours n : ℕ) :
    last.Elapsed hours (last.due hours + n) := by
  have hle (t : ℤ) : hours * 3600 * 1000000 ≤ t + hours * 3600 * 1000000 + n - t := by omega
  cases last with
  | naive t => exact hle t
  | zoned t => exact hle t
  | empty => trivial
  | malformed => trivial

/-- The plan and its location, at a time when the plan is due. -/
private def dueWorld (plan : Plan) (location : Location) : World :=
  { plans := (∅ : AList _).insert plan.id plan
    locations := (∅ : AList _).insert plan.locationId location
    clock := plan.lastScheduledRunAt.due plan.scheduleIntervalHours }

private theorem dueWorld_stored :
    (StartPath.schedule plan location).Stored (dueWorld plan location) := by
  refine ⟨AList.lookup_insert _, AList.lookup_insert _, fun id p hp => ?_⟩
  by_cases hid : id = plan.id
  · subst hid
    have hlookup : (dueWorld plan location).plan plan.id = some plan := AList.lookup_insert _
    rw [← Option.some.inj (hlookup.symm.trans hp)]
  · rw [show (dueWorld plan location).plan id = none from AList.lookup_insert_ne hid] at hp
    cases hp

private theorem tick_stores (hscheduled : plan.Scheduled) (hgroups : plan.groupIds ≠ []) :
    Satisfies environment.machine
      (fun _ w' => w'.HoldsRun fun run =>
        ∃ cutoff, PlanRun.Follows plan location (plan.scheduleOptions cutoff) run)
      (dueWorld plan location) (tickScheduledPlanRuns sampleReaders) := by
  obtain ⟨hplan, hlocation, -⟩ :
      (StartPath.schedule plan location).Stored (dueWorld plan location) := dueWorld_stored
  have hlist : (((dueWorld plan location).plans.keys.mergeSort fun a b => a ≤ b).filterMap
      (dueWorld plan location).plan) = [plan] := by
    have hkeys : (dueWorld plan location).plans.keys = [plan.id] := AList.keys_insert _
    rw [hkeys, List.mergeSort_singleton, List.filterMap_cons_some hplan, List.filterMap_nil]
  rw [tickScheduledPlanRuns, satisfies_bind, satisfies_utcNow]
  intro n
  rw [then_ok, satisfies_bind, satisfies_listStored, then_ok]
  change Satisfies _ _ _ (startDuePlans sampleReaders (plansDueForSchedule
    (((dueWorld plan location).plans.keys.mergeSort fun a b => a ≤ b).filterMap
      (dueWorld plan location).plan) ((dueWorld plan location).clock + n)))
  have hdue : plansDueForSchedule [plan] ((dueWorld plan location).clock + n) = [plan] :=
    List.filter_eq_self.mpr fun p hp => by
      rw [List.mem_singleton.mp hp]
      exact decide_eq_true ⟨hscheduled, elapsed_due _ _ _⟩
  rw [hlist, hdue, startDuePlans, startDuePlans]
  refine Satisfies.bind (startDue_stores hgroups hlocation rfl) ?_ fun _ _ h => h
  exact fun _ _ h => satisfies_ret.mpr h

private theorem loadPlans_within {G : Job → Prop} {R : PlanRun → Prop} (ids : List Uuid) :
    (loadPlans ids).Only (Op.Within G R) := by
  induction ids with
  | nil => exact only_ret
  | cons id rest ih =>
    exact Only.bind (only_perform.mpr trivial) fun _ => Only.bind ih fun _ => only_ret

private theorem startDuePlans_within (hrd : rd.ReadOnly) (plans : List Plan) :
    (startDuePlans rd plans).Only (Op.Within (fun _ => True) fun _ => True) := by
  induction plans with
  | nil => exact only_ret
  | cons plan rest ih =>
    rw [startDuePlans]
    exact Only.bind (startDue_within hrd) fun _ => Only.bind ih fun _ => only_ret

private theorem tick_within (hrd : rd.ReadOnly) :
    (tickScheduledPlanRuns rd).Only (Op.Within (fun _ => True) fun _ => True) := by
  refine Only.bind (only_perform.mpr trivial) fun now => ?_
  refine Only.bind ?_ fun plans => startDuePlans_within hrd _
  exact Only.bind (only_perform.mpr trivial) fun ids => loadPlans_within _

/-- A tick starts the runs of a plan that is due, whether they are confirmed or not. -/
private theorem schedule_gap (h : ¬ (StartPath.schedule plan location).Checks cfg) :
    ¬ StartsConfirmed cfg (.schedule plan location) := by
  intro hconfirmed
  obtain ⟨hscheduled, hgroups, hnot⟩ : plan.Scheduled ∧ plan.groupIds ≠ [] ∧
      ¬ ((requireVerifiedToRun cfg = true → plan.scheduleDrill = false →
        plan.verification = .VERIFIED) ∧ location.mode ≠ "dr") := by
    simpa only [StartPath.Checks, Classical.not_imp] using h
  have honly := (tick_within sampleReaders_readOnly).mono fun o ho => ho.ne_park
  have hstores := discard_holds (@tick_stores plan location hscheduled hgroups)
  obtain ⟨out, w', hends⟩ :=
    exists_run (Only.bind honly fun _ => only_ret) (dueWorld plan location)
  obtain ⟨id, run, hrun, cutoff, hfollows⟩ := satisfies_iff_ends.mp hstores out w' hends
  have hnone : (dueWorld plan location).run id ≠ some run := fun h => by cases h
  obtain ⟨hverified, hmode⟩ := hconfirmed sampleReaders sampleReaders_readOnly _ dueWorld_stored
    out w' hends id run hrun hnone hfollows.planId
  refine hnot ⟨fun hrequired hdrill => ?_, fun hdr => ?_⟩
  · exact (hverified hrequired (hfollows.drill.trans hdrill)).resolve_right Bool.false_ne_true
  · exact Bool.false_ne_true (hmode (hfollows.restoreMode.trans hdr))

/-! ### When a start has its confirmations -/

private theorem startsConfirmed_of_checks {p : StartPath} (h : p.Checks cfg) :
    StartsConfirmed cfg p := by
  intro rd hrd w hstored
  refine satisfies_iff_ends.mp ?_
  cases p with
  | apiRunPlan plan location body =>
    exact discard_holds ((apiRunPlan_confirmed hrd hstored.1 hstored.2).mono
      fun _ w' hadds id run hrun hnew _ => (hadds.runs id run hrun).resolve_left hnew)
  | apiAssurePlan plan location body =>
    exact discard_holds ((apiAssurePlan_confirmed hrd hstored.1 hstored.2).mono
      fun _ w' hadds id run hrun hnew _ => (hadds.runs id run hrun).resolve_left hnew)
  | schedule plan location =>
    exact discard_holds ((tick_confirmed hrd hstored h).mono
      fun _ w' hadds id run hrun hnew => (hadds.runs id run hrun).resolve_left hnew)

/-- **When a start has its confirmations**: by the API always, by the schedule if the plan needs
none. -/
theorem startsConfirmed_iff (cfg : Config) (p : StartPath) :
    StartsConfirmed cfg p ↔ p.Checks cfg := by
  refine ⟨fun h => ?_, startsConfirmed_of_checks⟩
  cases p with
  | schedule plan location =>
    by_contra hnot
    exact schedule_gap hnot h
  | _ => trivial

/-! ### A plan on the schedule -/

/-- A plan that is not verified, with real runs every day. -/
def dailyPlan : Plan :=
  { id := 0, groupIds := [1], locationId := 2, scheduleEnabled := true,
    scheduleIntervalHours := 24, scheduleDrill := false }

/-- A production site. -/
def drLocation : Location := { id := 2, node := "pve", storage := "local", restoreMode := "dr" }

/-- The settings that require verified plans. -/
def requiringVerified : Config := { plansRequireVerified := some true }

/-- The schedule starts the plan at the production site, though it is not verified where it must
be, and a DR run although nobody has confirmed it. -/
theorem daily_run_unconfirmed :
    ¬ StartsConfirmed requiringVerified (.schedule dailyPlan drLocation) ∧
      ¬ StartsConfirmed {} (.schedule { dailyPlan with verification := .VERIFIED } drLocation) := by
  refine ⟨schedule_gap fun h => ?_, schedule_gap fun h => ?_⟩
  · have hverified := (h (by decide) (by decide)).1 rfl rfl
    cases hverified
  · exact (h (by decide) (by decide)).2 (by decide)

end RestoreEngine
