import RestoreEngine.Model.Plans
import RestoreEngine.Model.Worker

/-!
# Rules for undisturbed runs

What a single command does to the world when nobody else acts, as rewriting rules for
`Program.Satisfies environment.machine`. With the rules of sequencing they execute a program
symbolically: a judgement about a program becomes one about its outcome.
-/

namespace RestoreEngine

open Effects Prog Program

variable {α β : Type} {w : World}

/-- A command, judged by all its answers. -/
theorem satisfies_issue_iff {env : Environment commands World Answer} (o : Op)
    {Q : Except Exn o.Res → World → Prop} :
    Satisfies env.machine Q w (issue o) ↔ ∀ a r w', env o a w = some (r, w') → Q (.ok r) w' :=
  @satisfies_machine_perform commands Exn World Answer env o Q w

/-- A command whose answer is determined. -/
private theorem satisfies_issue (o : Op) {Q : Except Exn o.Res → World → Prop} {w₀ : World}
    {r₀ : o.Res} (h : ∀ a, environment o a w = some (r₀, w₀)) :
    Satisfies environment.machine Q w (issue o) ↔ Q (.ok r₀) w₀ :=
  @satisfies_of_determined commands Exn World Answer environment _ o Q w w₀ r₀ h

/-! ### Redis -/

@[simp] theorem satisfies_hgetall {id : Uuid} {Q : Except Exn (Option Job) → World → Prop} :
    Satisfies environment.machine Q w (hgetall id) ↔ Q (.ok (w.job id)) w :=
  satisfies_issue (.hgetall id) fun _ => rfl

@[simp] theorem satisfies_hset {id : Uuid} {f : Instant → Job → Job}
    {Q : Except Exn Unit → World → Prop} :
    Satisfies environment.machine Q w (hset id f) ↔ Q (.ok ()) (w.setJob id f) :=
  satisfies_issue (.hset id f) fun _ => rfl

@[simp] theorem satisfies_hsetLrem {id : Uuid} {f : Instant → Job → Job}
    {Q : Except Exn Unit → World → Prop} :
    Satisfies environment.machine Q w (hsetLrem id f) ↔
      Q (.ok ()) { w.setJob id f with queue := w.queue.filter (· ≠ id) } :=
  satisfies_issue (.hsetLrem id f) fun _ => rfl

@[simp] theorem satisfies_rpush {id : Uuid} {Q : Except Exn Unit → World → Prop} :
    Satisfies environment.machine Q w (issue (.rpush id)) ↔
      Q (.ok ()) { w with queue := w.queue ++ [id] } :=
  satisfies_issue (.rpush id) fun _ => rfl

@[simp] theorem satisfies_lpop {Q : Except Exn (Option Uuid) → World → Prop} :
    Satisfies environment.machine Q w (issue .lpop) ↔
      Q (.ok w.queue.head?) { w with queue := w.queue.tail } :=
  satisfies_issue (.lpop) fun _ => rfl

@[simp] theorem satisfies_setPaused {paused : Bool} {Q : Except Exn Unit → World → Prop} :
    Satisfies environment.machine Q w (issue (.setPaused paused)) ↔ Q (.ok ()) { w with paused } :=
  satisfies_issue (.setPaused paused) fun _ => rfl

@[simp] theorem satisfies_scanJobs {Q : Except Exn (List Uuid) → World → Prop} :
    Satisfies environment.machine Q w (issue .scanJobs) ↔ Q (.ok w.jobs.keys) w :=
  satisfies_issue (.scanJobs) fun _ => rfl

@[simp] theorem satisfies_getSlots {Q : Except Exn ℤ → World → Prop} :
    Satisfies environment.machine Q w (issue .getSlots) ↔ Q (.ok w.slots) w :=
  satisfies_issue (.getSlots) fun _ => rfl

@[simp] theorem satisfies_setSlots {n : ℤ} {Q : Except Exn Unit → World → Prop} :
    Satisfies environment.machine Q w (issue (.setSlots n)) ↔ Q (.ok ()) { w with slots := n } :=
  satisfies_issue (.setSlots n) fun _ => rfl

/-- The world after `save_plan_run`. -/
def World.setRun (w : World) (run : PlanRun) : World :=
  { w with
    runs := w.runs.insert run.id run
    active := if run.status = .RUNNING then w.active.insert run.id
      else w.active.filter (· ≠ run.id) }

@[simp] theorem satisfies_setRun {run : PlanRun} {Q : Except Exn Unit → World → Prop} :
    Satisfies environment.machine Q w (setRun run) ↔ Q (.ok ()) (w.setRun run) :=
  satisfies_issue (.setRun run) fun _ => rfl

theorem satisfies_savePlanRun {run : PlanRun} {Q : Except Exn PlanRun → World → Prop} :
    Satisfies environment.machine Q w (savePlanRun run) ↔ Q (.ok run) (w.setRun run) := by
  rw [savePlanRun, satisfies_bind, satisfies_setRun, then_ok, pure_eq_ret, satisfies_ret]

@[simp] theorem satisfies_getRun {id : Uuid} {Q : Except Exn (Option PlanRun) → World → Prop} :
    Satisfies environment.machine Q w (getRun id) ↔ Q (.ok (w.run id)) w :=
  satisfies_issue (.getRun id) fun _ => rfl

@[simp] theorem satisfies_dropActive {id : Uuid} {Q : Except Exn Unit → World → Prop} :
    Satisfies environment.machine Q w (issue (.dropActive id)) ↔
      Q (.ok ()) { w with active := w.active.filter (· ≠ id) } :=
  satisfies_issue (.dropActive id) fun _ => rfl

/-- The world after a plan is stored. -/
def World.setPlan (w : World) (plan : Plan) : World :=
  { w with plans := w.plans.insert plan.id plan }

@[simp] theorem satisfies_setPlan {plan : Plan} {Q : Except Exn Unit → World → Prop} :
    Satisfies environment.machine Q w (setPlan plan) ↔ Q (.ok ()) (w.setPlan plan) :=
  satisfies_issue (.setPlan plan) fun _ => rfl

@[simp] theorem satisfies_getPlan {id : Uuid} {Q : Except Exn (Option Plan) → World → Prop} :
    Satisfies environment.machine Q w (getPlan id) ↔ Q (.ok (w.plan id)) w :=
  satisfies_issue (.getPlan id) fun _ => rfl

@[simp] theorem satisfies_planIds {Q : Except Exn (List Uuid) → World → Prop} :
    Satisfies environment.machine Q w (issue .planIds) ↔ Q (.ok w.plans.keys) w :=
  satisfies_issue (.planIds) fun _ => rfl

@[simp] theorem satisfies_getLocation {id : Uuid}
    {Q : Except Exn (Option Location) → World → Prop} :
    Satisfies environment.machine Q w (getLocation id) ↔ Q (.ok (w.location id)) w :=
  satisfies_issue (.getLocation id) fun _ => rfl

@[simp] theorem satisfies_getGroup {id : Uuid} {Q : Except Exn (Option Group) → World → Prop} :
    Satisfies environment.machine Q w (issue (.getGroup id)) ↔ Q (.ok (w.group id)) w :=
  satisfies_issue (.getGroup id) fun _ => rfl

@[simp] theorem satisfies_setGroup {group : Group} {Q : Except Exn Unit → World → Prop} :
    Satisfies environment.machine Q w (issue (.setGroup group)) ↔
      Q (.ok ()) { w with groups := w.groups.insert group.id group } :=
  satisfies_issue (.setGroup group) fun _ => rfl

@[simp] theorem satisfies_delGroup {id : Uuid} {Q : Except Exn Bool → World → Prop} :
    Satisfies environment.machine Q w (issue (.delGroup id)) ↔
      Q (.ok (w.group id).isSome) { w with groups := w.groups.erase id } :=
  satisfies_issue (.delGroup id) fun _ => rfl

@[simp] theorem satisfies_setLocation {location : Location}
    {Q : Except Exn Unit → World → Prop} :
    Satisfies environment.machine Q w (issue (.setLocation location)) ↔
      Q (.ok ()) { w with locations := w.locations.insert location.id location } :=
  satisfies_issue (.setLocation location) fun _ => rfl

@[simp] theorem satisfies_delLocation {id : Uuid} {Q : Except Exn Bool → World → Prop} :
    Satisfies environment.machine Q w (issue (.delLocation id)) ↔
      Q (.ok (w.location id).isSome) { w with locations := w.locations.erase id } :=
  satisfies_issue (.delLocation id) fun _ => rfl

@[simp] theorem satisfies_delPlan {id : Uuid} {Q : Except Exn Bool → World → Prop} :
    Satisfies environment.machine Q w (issue (.delPlan id)) ↔
      Q (.ok (w.plan id).isSome) { w with plans := w.plans.erase id } :=
  satisfies_issue (.delPlan id) fun _ => rfl

@[simp] theorem satisfies_activeRuns {Q : Except Exn (List Uuid) → World → Prop} :
    Satisfies environment.machine Q w (issue .activeRuns) ↔ Q (.ok w.active) w :=
  satisfies_issue (.activeRuns) fun _ => rfl

@[simp] theorem satisfies_addReport {rep : Report} {Q : Except Exn Unit → World → Prop} :
    Satisfies environment.machine Q w (issue (.addReport rep)) ↔
      Q (.ok ()) { w with reports := w.reports ++ [rep] } :=
  satisfies_issue (.addReport rep) fun _ => rfl

@[simp] theorem satisfies_reportIds {Q : Except Exn (List Uuid) → World → Prop} :
    Satisfies environment.machine Q w (issue .reportIds) ↔
      Q (.ok (w.reports.map (·.id))) w :=
  satisfies_issue (.reportIds) fun _ => rfl

@[simp] theorem satisfies_dropReports {ids : List Uuid} {Q : Except Exn Unit → World → Prop} :
    Satisfies environment.machine Q w (issue (.dropReports ids)) ↔
      Q (.ok ()) { w with reports := w.reports.filter fun rep => rep.id ∉ ids } :=
  satisfies_issue (.dropReports ids) fun _ => rfl

@[simp] theorem satisfies_uuid4 {Q : Except Exn Uuid → World → Prop} :
    Satisfies environment.machine Q w uuid4 ↔
      Q (.ok w.nextUuid) { w with nextUuid := w.nextUuid + 1 } :=
  satisfies_issue (.uuid4) fun _ => rfl

/-- Any time may have passed when the clock is read. -/
@[simp] theorem satisfies_utcNow {Q : Except Exn Instant → World → Prop} :
    Satisfies environment.machine Q w utcNow ↔
      ∀ n : ℕ, Q (.ok (w.clock + n)) { w with clock := w.clock + n } := by
  refine (satisfies_issue_iff .utcNow).trans ⟨fun h n => h (.number n) _ _ rfl, ?_⟩
  rintro h c r w' hc
  obtain ⟨rfl, rfl⟩ := Prod.mk.inj (Option.some.inj hc)
  cases c with
  | number n => exact h n
  | _ => exact h 0

@[simp] theorem satisfies_notify {id : Uuid} {Q : Except Exn Unit → World → Prop} :
    Satisfies environment.machine Q w (issue (.notify id)) ↔ Q (.ok ()) w :=
  satisfies_issue (.notify id) fun _ => rfl

/-! ### The API client -/

@[simp] theorem satisfies_connect {px : Client} {Q : Except Exn Unit → World → Prop} :
    Satisfies environment.machine Q w (connect px) ↔
      Q (if w.up then .ok () else .error (.api "connection refused")) w := by
  refine satisfies_bind.trans ((satisfies_issue (.connect px) fun _ => rfl).trans ?_)
  rw [then_ok, satisfies_ofExcept]

/-! ### Runs exist -/

/-- A run of one command. -/
theorem ends_issue {o : Op} {a : Answer} {r : o.Res} {w' : World}
    (h : environment o a w = some (r, w')) : Ends environment (issue o) w (.ok r) w' :=
  Ends.perform h

/-- A session is opened if the API can be reached. -/
theorem connect_ends {px : Client} (hup : w.up = true) :
    Ends environment (connect px) w (.ok ()) w := by
  have hanswer : environment (.connect px) .ok w = some (.ok (), w) := by
    change some (if w.up = true then _ else _, w) = _
    rw [if_pos hup]
  exact Ends.bind (ends_issue hanswer) (.ret _ _)

/-- No session is opened if the API cannot be reached. -/
theorem connect_refused {px : Client} (hdown : w.up = false) :
    Ends environment (connect px) w (.error (.api "connection refused")) w := by
  have hanswer : environment (.connect px) .ok w =
      some (.error (.api "connection refused"), w) := by
    change some (if w.up = true then _ else _, w) = _
    rw [hdown, if_neg Bool.false_ne_true]
  exact Ends.bind (ends_issue hanswer) (.raise _ _)

/-- The world answers every command but `park`. -/
theorem environment_answers {o : Op} (ho : o ≠ .park) (w : World) :
    ∃ c r w', environment o c w = some (r, w') := by
  cases o with
  | park => exact absurd rfl ho
  | _ => exact ⟨.ok, _, _, rfl⟩

/-- A program that does not park has a run from every world. -/
theorem exists_run {p : Prog α} (hp : p.Only (· ≠ Op.park)) (w : World) :
    ∃ out w', Ends environment p w out w' :=
  hp.exists_ends (fun _ w ho => environment_answers ho w) w

/-! ### The listing -/

variable {px : Client}

/-- A listing is obtained, or counts as empty. -/
@[simp] theorem satisfies_clusterVmResources
    {Q : Except Exn (List Resource) → World → Prop} :
    Satisfies environment.machine Q w (clusterVmResources px) ↔
      Q (.ok w.listing) w ∧ Q (.ok []) w := by
  rw [clusterVmResources, satisfies_bind, satisfies_issue_iff]
  constructor
  · intro h
    refine ⟨?_, ?_⟩
    · simpa using h .ok _ _ rfl
    · simpa using h .malformed _ _ rfl
  · rintro ⟨hlisting, hempty⟩ a r w' ha
    have hr : (_, w) = (r, w') := Option.some.inj ha
    rw [Prod.mk.injEq] at hr
    obtain ⟨rfl, rfl⟩ := hr
    cases a <;> simpa

/-- The listing may be obtained. -/
theorem clusterVmResources_obtained :
    Ends environment (clusterVmResources px) w (.ok w.listing) w :=
  Ends.bind (ends_issue (o := .clusterResources px) (r := .ok (some w.listing)) (a := .ok) rfl)
    (.ret _ _)

/-- The listing may be lost. -/
theorem clusterVmResources_lost :
    Ends environment (clusterVmResources px) w (.ok []) w :=
  Ends.bind (ends_issue (o := .clusterResources px) (r := .ok none) (a := .malformed) rfl)
    (.ret _ _)

/-! ### Lookups after updates -/

namespace World

@[simp] theorem job_setRun (w : World) (run : PlanRun) (id : Uuid) :
    (w.setRun run).job id = w.job id := rfl

@[simp] theorem job_setPlan (w : World) (plan : Plan) (id : Uuid) :
    (w.setPlan plan).job id = w.job id := rfl

@[simp] theorem run_setRun (w : World) (run : PlanRun) :
    (w.setRun run).run run.id = some run := AList.lookup_insert _

theorem run_setRun_of_eq (w : World) {run : PlanRun} {id : Uuid} (h : run.id = id) :
    (w.setRun run).run id = some run := by
  subst h
  exact w.run_setRun run

theorem run_setRun_ne (w : World) {run : PlanRun} {id : Uuid} (h : id ≠ run.id) :
    (w.setRun run).run id = w.run id := AList.lookup_insert_ne h

@[simp] theorem run_setPlan (w : World) (plan : Plan) (id : Uuid) :
    (w.setPlan plan).run id = w.run id := rfl

@[simp] theorem plan_setPlan (w : World) (plan : Plan) :
    (w.setPlan plan).plan plan.id = some plan := AList.lookup_insert _

theorem plan_setPlan_of_eq (w : World) {plan : Plan} {id : Uuid} (h : plan.id = id) :
    (w.setPlan plan).plan id = some plan := by
  subst h
  exact w.plan_setPlan plan

@[simp] theorem plan_setRun (w : World) (run : PlanRun) (id : Uuid) :
    (w.setRun run).plan id = w.plan id := rfl

theorem job_setJob (w : World) (id : Uuid) (f : Instant → Job → Job) :
    (w.setJob id f).job id = some (f w.clock ((w.job id).getD {})) := AList.lookup_insert _

theorem job_setJob_ne (w : World) {id id' : Uuid} (f : Instant → Job → Job) (h : id' ≠ id) :
    (w.setJob id f).job id' = w.job id' := AList.lookup_insert_ne h

end World

end RestoreEngine
