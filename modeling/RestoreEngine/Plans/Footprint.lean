import RestoreEngine.Model.Changes
import RestoreEngine.Model.Registry
import RestoreEngine.Readiness.Asks

/-!
# What happens to plans

Most of what the engine does has nothing to do with the records of plans (`Op.BesidesPlans`). A
plan run writes some of them, and then lays a few fields over a record that it has read:
`planKeeper` is the machine for programs that store plans only if they come from plans that they
read, in the sense of a set `G` of plans.
-/

namespace RestoreEngine

open Effects Prog Program

variable {α : Type} {cfg : Config} {mt : Matching} {plan : Plan} {run : PlanRun}

/-! ### What runs do besides -/

/-- The command neither reads nor stores a plan, nor changes a group or a location. It also has
nothing to do with claiming jobs from the queue. -/
def Op.BesidesPlans : Op → Prop
  | setPlan _ | getPlan _ | delPlan _ | planIds | setGroup _ | delGroup _ | setLocation _
  | delLocation _ => False
  | blpop | lpop | getPaused | setPaused _ | incrSlots => False
  | _ => True

theorem Op.Asks.besidesPlans {o : Op} (ho : o.Asks) : o.BesidesPlans := by
  cases o <;> first | exact trivial | exact ho.elim

theorem Op.OfEnqueue.besidesPlans {req : EnqueueRequest} {o : Op} (ho : o.OfEnqueue req) :
    o.BesidesPlans := by
  cases o <;> first | exact trivial | exact ho.elim

theorem Op.OfDestroy.besidesPlans {px : Client} {vmid : ℤ} {o : Op} (ho : o.OfDestroy px vmid) :
    o.BesidesPlans := by
  cases o <;> first | exact trivial | exact ho.elim

theorem saveReport_besides {planId : Uuid} {metadata : ReportMeta} :
    (saveReport cfg planId metadata).Only Op.BesidesPlans := by
  refine Only.bind (only_perform.mpr trivial) fun id => ?_
  refine Only.bind (only_perform.mpr trivial) fun _ => Only.bind ?_ fun _ => only_ret
  refine Only.bind (only_perform.mpr trivial) fun ids => Only.ite (fun _ => only_ret) fun _ => ?_
  refine Only.bind (only_perform.mpr trivial) fun ids => ?_
  exact Only.ite (fun _ => only_ret) fun _ => only_perform.mpr trivial

theorem savePlanRun_besides : (savePlanRun run).Only Op.BesidesPlans :=
  Only.bind (only_perform.mpr trivial) fun _ => only_ret

theorem aggregatePlanRun_besides : (aggregatePlanRun run).Only Op.BesidesPlans :=
  aggregatePlanRun_only (fun _ => trivial) run

theorem jobStates_besides (ids : List Uuid) : (jobStates ids).Only Op.BesidesPlans := by
  induction ids with
  | nil => exact only_ret
  | cons id rest ih =>
    exact Only.bind (only_perform.mpr trivial) fun _ => Only.bind ih fun _ => only_ret

theorem cancelJobs_besides (ids : List Uuid) : (cancelJobs ids).Only Op.BesidesPlans := by
  induction ids with
  | nil => exact only_ret
  | cons id rest ih =>
    refine Only.bind ?_ fun _ => Only.bind ih fun _ => only_ret
    refine Only.bind (only_perform.mpr trivial) fun data => ?_
    split
    · exact Only.bind (only_perform.mpr trivial) fun _ => only_ret
    · exact Only.bind (only_perform.mpr trivial) fun _ => only_ret
    · exact only_ret

theorem reload_besides : (reload run).Only Op.BesidesPlans :=
  Only.bind (only_perform.mpr trivial) fun _ => only_ret

theorem notifyOnce_besides : (notifyOnce run).Only Op.BesidesPlans := by
  refine Only.ite (fun _ => only_ret) fun _ => ?_
  refine Only.bind aggregatePlanRun_besides fun _ => Only.bind (only_perform.mpr trivial) fun _ => ?_
  exact Only.bind savePlanRun_besides fun _ => only_ret

private theorem collectFromJobs_besides (byVmid : List Target) (ids : List Uuid) :
    (collectFromJobs byVmid ids).Only Op.BesidesPlans := by
  induction ids generalizing byVmid with
  | nil => exact only_ret
  | cons id rest ih => exact Only.bind (only_perform.mpr trivial) fun _ => ih _

private theorem provenanceVmids_besides (ids : List Uuid) :
    (provenanceVmids ids).Only Op.BesidesPlans := by
  induction ids with
  | nil => exact only_ret
  | cons id rest ih =>
    exact Only.bind (only_perform.mpr trivial) fun _ => Only.bind ih fun _ => only_ret

private theorem teardownTargets_besides (px : Client) (provenance : List ℤ)
    (targets : List Target) : (teardownTargets px provenance targets).Only Op.BesidesPlans := by
  induction targets with
  | nil => exact only_ret
  | cons t rest ih =>
    refine Only.bind ?_ fun _ => Only.bind ih fun _ => only_ret
    refine Only.bind ?_ fun node => Only.ite (fun _ => only_ret) fun _ => ?_
    · refine Only.ite (fun _ => ?_) fun _ => only_ret
      exact (@findQemuNode_only px t.vmid t.vmid).mono fun _ ho => ho.besidesPlans
    · rw [map_eq_bind]
      refine Only.bind (Only.attempt ?_) fun _ => only_ret
      exact destroyOwnedQemuVm_only.mono fun _ ho => ho.besidesPlans

theorem teardownPlanRun_besides : (teardownPlanRun run).Only Op.BesidesPlans := by
  refine Only.ite (fun _ => only_ret) fun _ => Only.ite (fun _ => only_raise) fun _ => ?_
  refine Only.bind (collectFromJobs_besides _ _) fun targets => ?_
  refine Only.bind ?_ fun _ => Only.bind (provenanceVmids_besides _) fun provenance => ?_
  · exact Only.ite (fun _ => only_ret) fun _ =>
      Only.bind (only_perform.mpr trivial) fun _ => only_ofExcept
  · refine Only.bind (teardownTargets_besides _ _ _) fun results => ?_
    exact Only.bind (only_perform.mpr trivial) fun _ => savePlanRun_besides

theorem autoTeardown_besides : (autoTeardown run).Only Op.BesidesPlans := by
  refine Only.ite (fun _ => ?_) fun _ => only_ret
  exact Only.bind teardownPlanRun_besides.attempt fun _ => only_ret

theorem enqueueRestores_besides (req : EnqueueRequest) :
    (enqueueRestores req).Only Op.BesidesPlans :=
  enqueueRestores_only.mono fun _ ho => ho.besidesPlans

theorem apiEnqueueRestores_besides (req : EnqueueRequest) :
    (apiEnqueueRestores req).Only Op.BesidesPlans := by
  refine Only.bind (enqueueRestores_besides req).attempt fun out => ?_
  split
  · exact only_ret
  · exact only_raise
  · exact only_raise

/-! ### Programs that keep plans -/

/-- The plan `q` is one that a run makes of the plan `p`: it has the same groups and the same
location, and is VERIFIED only if `p` is. -/
structure Plan.Follows (p q : Plan) : Prop where
  id : q.id = p.id
  groupIds : q.groupIds = p.groupIds
  locationId : q.locationId = p.locationId
  verification : q.verification = .VERIFIED → p.verification = .VERIFIED

/-- A run that goes on, or ends, also keeps the schedule. -/
structure Plan.FollowsOnSchedule (p q : Plan) : Prop extends p.Follows q where
  lastScheduledRunAt : q.lastScheduledRunAt = p.lastScheduledRunAt
  scheduleIntervalHours : q.scheduleIntervalHours = p.scheduleIntervalHours

/-- The machine of programs that store plans of `G`, if they read plans of `G`, change no group and
no location, and claim no jobs. -/
def planKeeper (G : Plan → Prop) : Machine commands Unit where
  Permits _ o :=
    match o with
    | .setPlan plan => G plan
    | .delPlan _ | .setGroup _ | .delGroup _ | .setLocation _ | .delLocation _ => False
    | .blpop | .lpop | .getPaused | .setPaused _ | .incrSlots => False
    | _ => True
  Moves _ o r _ :=
    match o, r with
    | .getPlan _, r => ∀ plan : Plan, r = some plan → G plan
    | _, _ => True

/-- The program stores plans of `G` only, and its values satisfy `Q`. -/
def KeepsPlans (G : Plan → Prop) (p : Prog α) (Q : α → Prop := fun _ => True) : Prop :=
  p.Satisfies (planKeeper G) (fun out _ => ∀ a, out = .ok a → Q a) ()

variable {G : Plan → Prop} {Q : α → Prop}

namespace KeepsPlans

theorem ret {a : α} (ha : Q a) : KeepsPlans G (.ret a) Q := by
  refine satisfies_ret.mpr fun b hb => ?_
  obtain rfl := Except.ok.inj hb
  exact ha

theorem raise {e : Exn} : KeepsPlans G (.raise e : Prog α) Q :=
  satisfies_raise.mpr fun b hb => by cases hb

theorem ofExcept {x : Except Exn α} (hx : ∀ a, x = .ok a → Q a) :
    KeepsPlans G (Program.ofExcept x) Q := by
  cases x with
  | ok a => exact ret (hx a rfl)
  | error e => exact raise

theorem bind {β : Type} {p : Prog α} {f : α → Prog β} {R : β → Prop} (hp : KeepsPlans G p Q)
    (hf : ∀ a, Q a → KeepsPlans G (f a) R) : KeepsPlans G (p >>= f) R := by
  refine Satisfies.bind hp (fun a _ ha => hf a (ha a rfl)) ?_
  intro e _ _ b hb
  cases hb

/-- Sequencing, where the second half needs nothing from the first. -/
theorem seq {β : Type} {p : Prog α} {f : α → Prog β} {R : β → Prop} (hp : KeepsPlans G p)
    (hf : ∀ a, KeepsPlans G (f a) R) : KeepsPlans G (p >>= f) R :=
  hp.bind fun a _ => hf a

theorem ite {c : Prop} [Decidable c] {p q : Prog α} (hp : c → KeepsPlans G p Q)
    (hq : ¬ c → KeepsPlans G q Q) : KeepsPlans G (if c then p else q) Q := by
  split_ifs with hc
  · exact hp hc
  · exact hq hc

theorem mono {p : Prog α} {Q' : α → Prop} (hp : KeepsPlans G p Q) (h : ∀ a, Q a → Q' a) :
    KeepsPlans G p Q' :=
  Satisfies.mono hp fun _ _ hout a ha => h a (hout a ha)

theorem attempt {p : Prog α} (hp : KeepsPlans G p Q) :
    KeepsPlans G p.attempt fun out => ∀ a, out = .ok a → Q a := by
  refine satisfies_attempt.mpr (Satisfies.mono hp fun out _ hout r hr => ?_)
  obtain rfl := Except.ok.inj hr
  exact hout

/-- What is tried, whatever it comes to. -/
theorem tried {p : Prog α} (hp : KeepsPlans G p) : KeepsPlans G p.attempt :=
  hp.attempt.mono fun _ _ => trivial

/-- What has nothing to do with plans. -/
theorem of_only {p : Prog α} (hp : p.Only Op.BesidesPlans) : KeepsPlans G p := by
  refine (hp.satisfies (I := fun _ => True) trivial ?_ fun _ _ _ _ _ _ _ => trivial).mono ?_
  · intro s o ho _
    cases o <;> first | exact trivial | exact ho.elim
  · exact fun _ _ _ _ _ => trivial

/-- A single command. -/
theorem issue (o : Op) {Q : o.Res → Prop} (hpermits : (planKeeper G).Permits () o)
    (hQ : ∀ r, (planKeeper G).Moves () o r () → Q r) : KeepsPlans G (Prog.issue o) Q := by
  refine (@satisfies_perform commands Exn Unit (planKeeper G) () o _).mpr ⟨hpermits, ?_⟩
  intro r s' hr a ha
  obtain rfl := Except.ok.inj ha
  exact hQ r hr

theorem getPlan (id : Uuid) : KeepsPlans G (Prog.getPlan id) fun r => ∀ p, r = some p → G p :=
  issue (.getPlan id) trivial fun _ hr => hr

theorem setPlan {p : Plan} (hp : G p) : KeepsPlans G (Prog.setPlan p) :=
  issue (.setPlan p) hp fun _ _ => trivial

end KeepsPlans

/-! ### The programs of plan runs -/

section Runs

variable {location : Location} {opts : StartOptions} {groupRows : List (List Row)}
  {enqueueFn : EnqueueFn} {rd : Readers}

/-- With a plan of `G`, the plans that a run makes of it are in `G`. -/
def ClosedUnderRuns (G : Plan → Prop) : Prop := ∀ p q : Plan, G p → p.Follows q → G q

/-- With a plan of `G`, the plans that runs make of it in going on are in `G`. -/
def ClosedUnderAdvances (G : Plan → Prop) : Prop :=
  ∀ p q : Plan, G p → p.FollowsOnSchedule q → G q

theorem ClosedUnderRuns.advances (hG : ClosedUnderRuns G) : ClosedUnderAdvances G :=
  fun p q hp hq => hG p q hp hq.toFollows

/-- The starting of a run. -/
theorem startPlanRun_keepsPlans (hG : ClosedUnderRuns G)
    (henqueue : ∀ req, (enqueueFn req).Only Op.BesidesPlans) (hplan : G plan) :
    KeepsPlans G (startPlanRun enqueueFn plan location groupRows opts) := by
  rw [startPlanRun]
  refine .bind (.ofExcept fun _ _ => trivial) fun startIdx _ => ?_
  refine .bind (.of_only (only_perform.mpr trivial)) fun runId _ => ?_
  refine .bind (.of_only (only_perform.mpr trivial)) fun now _ => ?_
  refine .bind (.of_only savePlanRun_besides) fun run _ => .bind (.of_only ?_) fun run _ => ?_
  · refine Only.bind (henqueue _) fun result => Only.bind savePlanRun_besides fun _ => ?_
    exact Only.bind only_ofExcept fun _ => savePlanRun_besides
  · refine .bind (.setPlan (hG plan _ hplan ⟨rfl, rfl, rfl, fun h => ?_⟩)) fun _ _ => .ret trivial
    by_contra hnot
    simp [hnot] at h

private theorem orNow_besides (t : Option Instant) : (orNow t).Only Op.BesidesPlans := by
  cases t with
  | none => exact only_perform.mpr trivial
  | some t => exact only_ret

/-- The verdict on a run. -/
private theorem applyAssuranceFromRun_keepsPlans (hG : ClosedUnderAdvances G) (run : PlanRun) :
    KeepsPlans G (applyAssuranceFromRun run) := by
  rw [applyAssuranceFromRun]
  refine .ite (fun _ => (KeepsPlans.getPlan _).mono fun _ _ => trivial) fun _ => ?_
  refine .bind (.getPlan _) fun found hfound => ?_
  split
  · exact .bind (.of_only savePlanRun_besides) fun _ _ => .ret trivial
  · next plan hplan =>
    have hmem : G plan := by
      cases found with
      | none => cases hplan
      | some p =>
        obtain ⟨hp, -⟩ := Option.filter_eq_some_iff.mp hplan
        exact hfound _ hp
    refine .bind (.of_only aggregatePlanRun_besides) fun aggregated _ => ?_
    rw [map_eq_bind]
    refine .seq ?_ fun _ => .ret trivial
    refine .bind (.of_only (only_perform.mpr trivial)) fun now _ => ?_
    refine .bind (.of_only ?_) fun lastRunAt _ => ?_
    · exact orNow_besides _
    · refine .bind (.setPlan (hG plan _ hmem ⟨⟨rfl, rfl, rfl, id⟩, rfl, rfl⟩)) fun _ _ => ?_
      exact .bind (.of_only savePlanRun_besides) fun _ _ => .ret trivial

/-- The end of a run. -/
private theorem finalizePlanRunReport_keepsPlans (hG : ClosedUnderAdvances G) (run : PlanRun) :
    KeepsPlans G (finalizePlanRunReport cfg run) := by
  have hsettle : ∀ run, KeepsPlans G (settleRun run) := by
    intro run
    refine .bind (.of_only autoTeardown_besides) fun _ _ => ?_
    refine .bind (.of_only reload_besides) fun run _ => ?_
    refine .bind (applyAssuranceFromRun_keepsPlans hG run).attempt fun _ _ => ?_
    refine .bind (.of_only reload_besides) fun run _ => ?_
    exact .bind (.of_only notifyOnce_besides) fun _ _ => .of_only reload_besides
  rw [finalizePlanRunReport]
  split
  · exact hsettle run
  · refine .seq ?_ fun run => hsettle run
    refine .bind (.of_only aggregatePlanRun_besides) fun aggregated _ => ?_
    refine .bind (.getPlan _) fun found hfound => ?_
    refine .bind (.of_only saveReport_besides) fun rep _ => ?_
    refine .bind (.of_only savePlanRun_besides) fun _ _ => ?_
    cases found with
    | none => exact .ret trivial
    | some plan =>
      exact .bind (.setPlan (hG plan _ (hfound plan rfl) ⟨⟨rfl, rfl, rfl, id⟩, rfl, rfl⟩)) fun _ _ =>
        .ret trivial

private theorem endRun_keepsPlans (hG : ClosedUnderAdvances G) (run : PlanRun) :
    KeepsPlans G (endRun cfg run) := by
  refine .bind (.of_only (only_perform.mpr trivial)) fun now _ => ?_
  refine .bind (.of_only savePlanRun_besides) fun run _ => ?_
  exact .bind (finalizePlanRunReport_keepsPlans hG run) fun _ _ => .ret trivial

/-- The advancing of runs. -/
theorem advancePlanRuns_keepsPlans (hG : ClosedUnderAdvances G)
    (henqueue : ∀ req, (enqueueFn req).Only Op.BesidesPlans) :
    KeepsPlans G (advancePlanRuns cfg enqueueFn) := by
  refine .bind (.of_only (only_perform.mpr trivial)) fun ids _ => ?_
  induction ids with
  | nil => exact .ret trivial
  | cons id rest ih =>
    refine .seq ?_ fun _ => .seq ih fun _ => .ret trivial
    refine .bind (.of_only (only_perform.mpr trivial)) fun found _ => ?_
    split
    · exact .bind (.of_only (only_perform.mpr trivial)) fun _ _ => .ret trivial
    · next run _ =>
      rw [advanceRunning]
      refine .ite (fun _ => endRun_keepsPlans hG _) fun _ => .ite (fun _ => .of_only ?_) fun _ => ?_
      · refine Only.ite (fun _ => Only.bind savePlanRun_besides fun _ => only_ret) fun _ => ?_
        exact Only.bind (henqueue _) fun _ => Only.bind savePlanRun_besides fun _ => only_ret
      · rw [awaitGroup]
        refine .bind (.of_only (jobStates_besides _)) fun states _ => ?_
        refine .ite (fun _ => ?_) fun _ => .ret trivial
        split
        · exact endRun_keepsPlans hG _
        · exact .bind (.of_only savePlanRun_besides) fun _ _ => .ret trivial

/-- The cancelling of a run. -/
theorem cancelPlanRun_keepsPlans (hG : ClosedUnderAdvances G) (runId : Uuid) :
    KeepsPlans G (cancelPlanRun cfg runId) := by
  refine .bind (.of_only (only_perform.mpr trivial)) fun found _ => ?_
  cases found with
  | none => exact .raise
  | some run =>
    refine .ite (fun _ => .of_only aggregatePlanRun_besides) fun _ => ?_
    refine .bind (.of_only (cancelJobs_besides _)) fun stats _ => ?_
    refine .bind (.of_only (only_perform.mpr trivial)) fun now _ => ?_
    refine .bind (.of_only savePlanRun_besides) fun run _ => ?_
    refine .bind (finalizePlanRunReport_keepsPlans hG run) fun _ _ => ?_
    exact .bind (.of_only reload_besides) fun run _ => .of_only aggregatePlanRun_besides

/-- The programs of a record of readers have nothing to do with plans. -/
structure Readers.BesidePlans (rd : Readers) : Prop where
  resolvePlanGroupRows : ∀ ids cutoff node,
    (rd.resolvePlanGroupRows ids cutoff node).Only Op.BesidesPlans
  resolveScheduledRows : ∀ ids cutoff location,
    (rd.resolveScheduledRows ids cutoff location).Only Op.BesidesPlans

theorem readers_besidePlans (mt : Matching) : (readers mt).BesidePlans where
  resolvePlanGroupRows ids _ node :=
    (resolvePlanGroupRows_asks ids node).mono fun _ ho => ho.besidesPlans
  resolveScheduledRows ids _ _ :=
    (resolveScheduledRows_asks ids).mono fun _ ho => ho.besidesPlans

private theorem startResolved_keepsPlans (hG : ClosedUnderRuns G) (hrd : rd.BesidePlans)
    (hplan : G plan) : KeepsPlans G (startResolved rd plan location opts) := by
  refine .seq (.of_only (hrd.resolvePlanGroupRows _ _ _)) fun groupRows => ?_
  refine .ite (fun _ => .raise) fun _ => ?_
  refine .bind (startPlanRun_keepsPlans hG apiEnqueueRestores_besides hplan).attempt fun out _ => ?_
  split
  · exact .of_only aggregatePlanRun_besides
  · exact .raise
  · exact .raise

private theorem enabledPlan_keepsPlans (planId : Uuid) : KeepsPlans G (enabledPlan planId) G := by
  refine .bind (.getPlan planId) fun found hfound => ?_
  cases found with
  | none => exact .raise
  | some plan => exact .ite (fun _ => .ret (hfound plan rfl)) fun _ => .raise

/-- A run that is asked for. -/
theorem apiRunPlan_keepsPlans (hG : ClosedUnderRuns G) (hrd : rd.BesidePlans) (planId : Uuid)
    (body : PlanRunRequest) : KeepsPlans G (apiRunPlan cfg rd planId body) := by
  refine .bind (enabledPlan_keepsPlans planId) fun plan hplan => ?_
  refine .seq (.of_only only_ofExcept) fun _ => ?_
  refine .seq (.of_only (only_perform.mpr trivial)) fun found => ?_
  cases found with
  | none => exact .raise
  | some location =>
    refine .seq (.of_only only_ofExcept) fun _ => .seq (.of_only only_ofExcept) fun _ => ?_
    exact startResolved_keepsPlans hG hrd hplan

/-- An assurance drill that is asked for. -/
theorem apiAssurePlan_keepsPlans (hG : ClosedUnderRuns G) (hrd : rd.BesidePlans) (planId : Uuid)
    (body : PlanAssureRequest) : KeepsPlans G (apiAssurePlan cfg rd planId body) := by
  refine .bind (enabledPlan_keepsPlans planId) fun plan hplan => .ite (fun _ => .raise) fun _ => ?_
  refine .seq (.of_only only_ofExcept) fun _ => ?_
  refine .seq (.of_only (only_perform.mpr trivial)) fun found => ?_
  cases found with
  | none => exact .raise
  | some location =>
    exact .seq (.of_only only_ofExcept) fun _ => startResolved_keepsPlans hG hrd hplan

private theorem loadPlans_keepsPlans (ids : List Uuid) :
    KeepsPlans G (loadPlans ids) fun plans => ∀ plan ∈ plans, G plan := by
  induction ids with
  | nil => exact .ret fun plan hplan => (List.not_mem_nil hplan).elim
  | cons id rest ih =>
    refine .bind (.getPlan id) fun found hfound => .bind ih fun others hothers => .ret ?_
    intro plan hplan
    rcases List.mem_append.mp hplan with hone | hplan
    · exact hfound plan (Option.mem_toList.mp hone)
    · exact hothers plan hplan

theorem listPlans_keepsPlans : KeepsPlans G listPlans fun plans => ∀ plan ∈ plans, G plan :=
  .seq (.issue .planIds (Q := fun _ => True) trivial fun _ _ => trivial) fun _ =>
    loadPlans_keepsPlans _

theorem hasActiveRun_besides (planId : Uuid) (ids : List Uuid) :
    (hasActiveRun planId ids).Only Op.BesidesPlans := by
  induction ids with
  | nil => exact only_ret
  | cons id rest ih =>
    exact Only.bind (only_perform.mpr trivial) fun _ => Only.ite (fun _ => only_ret) fun _ => ih

private theorem startDue_keepsPlans (hG : ClosedUnderRuns G) (hrd : rd.BesidePlans)
    (hplan : G plan) : KeepsPlans G (startDue rd plan) := by
  refine .seq (.of_only (only_perform.mpr trivial)) fun found => ?_
  cases found with
  | none => exact .ret trivial
  | some location =>
    refine .seq (.of_only (only_perform.mpr trivial)) fun ids => ?_
    refine .seq (.of_only (hasActiveRun_besides _ _)) fun active => ?_
    refine .ite (fun _ => .ret trivial) fun _ => ?_
    refine .seq (.tried ?_) fun _ => .ret trivial
    refine .seq ?_ fun _ => .seq (.of_only (only_perform.mpr trivial)) fun now =>
      .setPlan (hG plan _ hplan ⟨rfl, rfl, rfl, id⟩)
    refine .seq (.of_only (only_perform.mpr trivial)) fun now => ?_
    refine .seq (.of_only (hrd.resolveScheduledRows _ _ _)) fun groupRows => ?_
    exact .ite (fun _ => .raise) fun _ => startPlanRun_keepsPlans hG enqueueRestores_besides hplan

/-- The scheduled starts. -/
theorem tickScheduledPlanRuns_keepsPlans (hG : ClosedUnderRuns G) (hrd : rd.BesidePlans) :
    KeepsPlans G (tickScheduledPlanRuns rd) := by
  refine .seq (.of_only (only_perform.mpr trivial)) fun now => ?_
  refine .bind listPlans_keepsPlans fun plans hplans => ?_
  have hdue : ∀ plan ∈ plansDueForSchedule plans now, G plan := fun plan hplan =>
    hplans plan (List.mem_filter.mp hplan).1
  generalize plansDueForSchedule plans now = due at hdue ⊢
  induction due with
  | nil => exact .ret trivial
  | cons plan rest ih =>
    obtain ⟨hplan, hrest⟩ := List.forall_mem_cons.mp hdue
    exact .seq (startDue_keepsPlans hG hrd hplan) fun _ => .seq (ih hrest) fun _ => .ret trivial

end Runs

/-! ### The effect -/

/-- Plans are stored under their own ids. -/
def World.PlansKeyed (w : World) : Prop := ∀ id plan, w.plan id = some plan → plan.id = id

/-- The worlds store the same plans, groups and locations. -/
structure World.SameRegistry (w w' : World) : Prop where
  plans : w'.plans = w.plans
  groups : w'.groups = w.groups
  locations : w'.locations = w.locations
  nextUuid : w.nextUuid ≤ w'.nextUuid

theorem World.SameRegistry.refl (w : World) : w.SameRegistry w := ⟨rfl, rfl, rfl, le_refl _⟩

theorem World.SameRegistry.trans {w w' w'' : World} (h : w.SameRegistry w')
    (h' : w'.SameRegistry w'') : w.SameRegistry w'' :=
  ⟨h'.plans.trans h.plans, h'.groups.trans h.groups, h'.locations.trans h.locations,
    h.nextUuid.trans h'.nextUuid⟩

theorem Op.nextUuid_le {o : Op} {a : Answer} {r : o.Res} {w w' : World}
    (h : environment o a w = some (r, w')) : w.nextUuid ≤ w'.nextUuid := by
  rw [(after_step h).nextUuid]
  cases o <;> first | exact le_refl _ | exact Nat.le_succ _

/-- **Programs besides plans** leave plans, groups and locations as they are. -/
theorem sameRegistry_of_only {w : World} {p : Prog α} (hp : p.Only Op.BesidesPlans) :
    Satisfies environment.machine (fun _ w' => w.SameRegistry w') w p := by
  refine hp.satisfies (.refl w) (fun _ _ _ _ => trivial) ?_
  rintro w₁ o r w₂ ho hsame ⟨a, ha⟩
  have hafter := after_step ha
  refine hsame.trans ⟨hafter.plans.trans ?_, hafter.groups.trans ?_, hafter.locations.trans ?_,
    Op.nextUuid_le ha⟩ <;> cases o <;> first | rfl | exact ho.elim

/-- What is left of plans by programs that store plans of `G`. -/
structure World.PlansKept (G : Plan → Prop) (w w' : World) : Prop where
  plans : ∀ id plan, w'.plan id = some plan → plan.id = id ∧ G plan
  groups : w'.groups = w.groups
  locations : w'.locations = w.locations
  nextUuid : w.nextUuid ≤ w'.nextUuid

/-- **The effect of a program that keeps plans.** -/
theorem KeepsPlans.effect {w : World} {p : Prog α} (hp : KeepsPlans G p Q)
    (hw : ∀ id plan, w.plan id = some plan → plan.id = id ∧ G plan) :
    Satisfies environment.machine
      (fun out w' => (∀ a, out = .ok a → Q a) ∧ w.PlansKept G w') w p := by
  refine (Satisfies.simulate (R := fun _ w' => w.PlansKept G w') hp
    ⟨hw, rfl, rfl, le_refl _⟩ (fun _ _ _ _ _ => trivial) ?_).mono fun _ _ ⟨_, h⟩ => h
  rintro s w₁ o r w₂ hkept hpermits ⟨a, ha⟩
  have hafter := after_step ha
  have hplan : ∀ id, w₂.plan id = (o.plansAfter w₁).lookup id := fun id => by
    rw [World.plan, hafter.plans]
  have huuid : w₁.nextUuid ≤ w₂.nextUuid := Op.nextUuid_le ha
  have hsame : w₂.plans = w₁.plans → w₂.groups = w₁.groups → w₂.locations = w₁.locations →
      w.PlansKept G w₂ := by
    intro hplans hgroups hlocations
    refine ⟨fun id plan hstored => hkept.plans id plan ?_, hgroups.trans hkept.groups,
      hlocations.trans hkept.locations, hkept.nextUuid.trans huuid⟩
    rwa [World.plan, hplans] at hstored
  cases o with
  | getPlan id =>
    have hpair : (w₁.plan id, w₁) = (r, w₂) := Option.some.inj ha
    obtain ⟨rfl, rfl⟩ := Prod.mk.inj hpair
    exact ⟨(), fun plan hplan => (hkept.plans id plan hplan).2, hkept⟩
  | setPlan plan =>
    refine ⟨(), trivial, ⟨fun id stored hstored => ?_, hafter.groups.trans hkept.groups,
      hafter.locations.trans hkept.locations, hkept.nextUuid.trans huuid⟩⟩
    rw [hplan] at hstored
    by_cases hid : id = plan.id
    · subst hid
      obtain rfl := Option.some.inj ((AList.lookup_insert w₁.plans).symm.trans hstored)
      exact ⟨rfl, hpermits⟩
    · exact hkept.plans id stored ((AList.lookup_insert_ne hid).symm.trans hstored)
  | delPlan _ | setGroup _ | delGroup _ | setLocation _ | delLocation _ => exact hpermits.elim
  | _ => exact ⟨(), trivial, hsame hafter.plans hafter.groups hafter.locations⟩

end RestoreEngine
