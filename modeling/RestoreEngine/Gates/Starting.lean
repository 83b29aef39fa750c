import RestoreEngine.Model.Changes
import RestoreEngine.Model.Schedule

/-!
# What a start writes

Whoever starts a plan run, the run record and the jobs of its first group carry the parameters
that `start_plan_run` derives from the location and its options. The programs are followed by what
they write (`Op.Within`): a world that a program leads to stores nothing but what was stored
before and what the program may write (`World.Adds`).
-/

namespace RestoreEngine

open Effects Prog Program

variable {α : Type} {G : Job → Prop} {R : PlanRun → Prop} {w w' w'' : World} {plan : Plan}
  {location : Location} {opts : StartOptions}

/-! ### Writing within bounds -/

/-- Commands that store only jobs in `G` and runs in `R`, leave the locations alone, and do not
wait without end. -/
def Op.Within (G : Job → Prop) (R : PlanRun → Prop) : Op → Prop
  | hset _ f => ∀ now j, G (f now j)
  | hsetLrem _ _ | setLocation _ | delLocation _ | park => False
  | setRun run => R run
  | _ => True

theorem Op.Within.ne_park {o : Op} (ho : o.Within G R) : o ≠ .park := by
  rintro rfl
  exact ho

theorem Op.Within.mono {G' : Job → Prop} {R' : PlanRun → Prop} {o : Op} (ho : o.Within G R)
    (hG : ∀ j, G j → G' j) (hR : ∀ run, R run → R' run) : o.Within G' R' := by
  cases o with
  | hset _ f => exact fun now j => hG _ (ho now j)
  | setRun run => exact hR run ho
  | hsetLrem _ _ => exact ho
  | park => exact ho
  | _ => trivial

/-- The jobs and runs that `w'` stores are those of `w`, or in `G` and `R`. -/
structure World.Adds (G : Job → Prop) (R : PlanRun → Prop) (w w' : World) : Prop where
  jobs : ∀ id j, w'.job id = some j → w.job id = some j ∨ G j
  runs : ∀ id run, w'.run id = some run → w.run id = some run ∨ R run

theorem World.Adds.refl (w : World) : w.Adds G R w := ⟨fun _ _ => .inl, fun _ _ => .inl⟩

theorem World.Adds.trans (h : w.Adds G R w') (h' : w'.Adds G R w'') : w.Adds G R w'' where
  jobs id j hj := (h'.jobs id j hj).elim (h.jobs id j) .inr
  runs id run hrun := (h'.runs id run hrun).elim (h.runs id run) .inr

theorem Op.Within.adds {o : Op} (ho : o.Within G R) {a : Answer} {r : o.Res}
    (h : environment o a w = some (r, w')) : w.Adds G R w' := by
  have hafter := after_step h
  refine ⟨fun id j hj => ?_, fun id run hrun => ?_⟩
  · rw [World.job, hafter.jobs] at hj
    cases o with
    | hset i f =>
      by_cases hi : id = i
      · subst hi
        exact .inr (Option.some.inj ((w.job_setJob id f).symm.trans hj) ▸ ho _ _)
      · exact .inl ((w.job_setJob_ne f hi).symm.trans hj)
    | hsetLrem i f => exact ho.elim
    | park => exact ho.elim
    | _ => exact .inl hj
  · rw [World.run, hafter.runs] at hrun
    cases o with
    | setRun new =>
      by_cases hi : id = new.id
      · subst hi
        exact .inr (Option.some.inj ((AList.lookup_insert w.runs).symm.trans hrun) ▸ ho)
      · exact .inl ((AList.lookup_insert_ne hi).symm.trans hrun)
    | _ => exact .inl hrun

/-- **What a program writes** is what the world gains. -/
theorem adds_of_only {p : Prog α} (hp : p.Only (Op.Within G R)) :
    Satisfies environment.machine (fun _ w' => w.Adds G R w') w p := by
  refine hp.satisfies (.refl w) (fun _ _ _ _ => trivial) ?_
  rintro s o r s' ho hs ⟨a, ha⟩
  exact hs.trans (ho.adds ha)

/-! ### The programs of a start -/

theorem enqueueRestores_within {req : EnqueueRequest}
    (hG : ∀ row sourceVmid vmid node storage archive now hash,
      G (req.newJob row sourceVmid vmid node storage archive now hash)) :
    (enqueueRestores req).Only (Op.Within G R) := by
  refine enqueueRestores_only.mono fun o ho => ?_
  cases o with
  | hset i f =>
    obtain ⟨row, sourceVmid, vmid, node, storage, archive, now, rfl⟩ := ho
    exact fun _ hash => hG row sourceVmid vmid node storage archive now hash
  | hsetLrem _ _ => exact ho.elim
  | setRun _ => exact ho.elim
  | park => exact ho.elim
  | _ => trivial

theorem apiEnqueueRestores_within {req : EnqueueRequest}
    (hG : ∀ row sourceVmid vmid node storage archive now hash,
      G (req.newJob row sourceVmid vmid node storage archive now hash)) :
    (apiEnqueueRestores req).Only (Op.Within G R) := by
  refine Only.bind (enqueueRestores_within hG).attempt fun out => ?_
  split
  · exact only_ret
  · exact only_raise
  · exact only_raise

/-- The run has the parameters that `start_plan_run` derives. -/
structure PlanRun.Follows (plan : Plan) (location : Location) (opts : StartOptions)
    (run : PlanRun) : Prop where
  planId : run.planId = plan.id
  liveRestore : run.liveRestore = opts.live location
  powerOn : run.powerOn = opts.doPowerOn location
  qgaWaitSec : run.qgaWaitSec = opts.qgaSec location
  networkMode : run.networkMode = normalizeNetworkMode location.networkMode
  drill : run.drill = opts.drill
  restoreMode : run.restoreMode = location.mode

/-- The parameters of a run that a derivation is about. -/
def PlanRun.parameters (run : PlanRun) : Uuid × Bool × Bool × ℤ × String × Bool × String :=
  (run.planId, run.liveRestore, run.powerOn, run.qgaWaitSec, run.networkMode, run.drill,
    run.restoreMode)

theorem PlanRun.Follows.same {run run' : PlanRun} (h : run.Follows plan location opts)
    (hsame : run'.parameters = run.parameters) : run'.Follows plan location opts := by
  simp only [PlanRun.parameters, Prod.mk.injEq] at hsame
  obtain ⟨h₁, h₂, h₃, h₄, h₅, h₆, h₇⟩ := hsame
  exact ⟨h₁.trans h.1, h₂.trans h.2, h₃.trans h.3, h₄.trans h.4, h₅.trans h.5, h₆.trans h.6,
    h₇.trans h.7⟩

theorem newRun_follows {id : Uuid} {now : Instant} {startIdx : ℕ} :
    PlanRun.Follows plan location opts (newRun id plan location opts now startIdx) := by
  constructor <;> simp only [newRun]

/-- The run is stored, and handed on. -/
theorem savePlanRun_within {run : PlanRun} {k : PlanRun → Prog α} (hR : R run)
    (hk : (k run).Only (Op.Within G R)) : (savePlanRun run >>= k).Only (Op.Within G R) := by
  change Only (Op.Within G R) (.call (Op.setRun run : commands.Op) fun _ => k run)
  exact only_call.mpr ⟨hR, fun _ => hk⟩

theorem enqueueFirst_within {enqueueFn : EnqueueFn} {groupRows : List (List Row)}
    {run : PlanRun} {startIdx : ℕ}
    (hfn : ∀ rows, (enqueueFn (startRequest run location startIdx rows)).Only (Op.Within G R))
    (hR : ∀ run', run'.parameters = run.parameters → R run') :
    (enqueueFirst enqueueFn run location startIdx groupRows).Only (Op.Within G R) := by
  rw [enqueueFirst]
  refine Only.bind (hfn _) fun result => savePlanRun_within (hR _ rfl) ?_
  exact Only.bind only_ofExcept fun stash => Only.bind (only_perform.mpr (hR _ rfl)) fun _ =>
    only_ret

/-- **What `start_plan_run` writes**: runs with the derived parameters, and what its `enqueue_fn`
writes. -/
theorem startPlanRun_within {enqueueFn : EnqueueFn} {groupRows : List (List Row)}
    (hfn : ∀ run idx rows, PlanRun.Follows plan location opts run →
      (enqueueFn (startRequest run location idx rows)).Only (Op.Within G R))
    (hR : ∀ run, PlanRun.Follows plan location opts run → R run) :
    (startPlanRun enqueueFn plan location groupRows opts).Only (Op.Within G R) := by
  rw [startPlanRun]
  refine Only.bind only_ofExcept fun startIdx => ?_
  refine Only.bind (only_perform.mpr trivial) fun runId => ?_
  refine Only.bind (only_perform.mpr trivial) fun now => ?_
  have hnew : PlanRun.Follows plan location opts
      (newRun runId plan location opts now startIdx) := newRun_follows
  generalize newRun runId plan location opts now startIdx = run at hnew
  refine savePlanRun_within (hR _ hnew) (Only.bind ?_ fun run =>
    Only.bind (only_perform.mpr trivial) fun _ => only_ret)
  exact enqueueFirst_within (hfn _ _ · hnew) fun run' hsame => hR run' (hnew.same hsame)

/-! ### Readers -/

/-- The readers store no jobs and no runs, and come to an end. -/
structure Readers.ReadOnly (rd : Readers) : Prop where
  backups : rd.listVmBackups.Only (Op.Within (fun _ => False) fun _ => False)
  tags : ∀ rows node, (rd.resolveTags rows node).Only (Op.Within (fun _ => False) fun _ => False)
  planRows : ∀ groupIds cutoff node, (rd.resolvePlanGroupRows groupIds cutoff node).Only
    (Op.Within (fun _ => False) fun _ => False)
  scheduledRows : ∀ groupIds cutoff location,
    (rd.resolveScheduledRows groupIds cutoff location).Only
      (Op.Within (fun _ => False) fun _ => False)

/-- What stores nothing is within all bounds. -/
theorem reads_within {p : Prog α}
    (hp : p.Only (Op.Within (fun _ => False) fun _ => False)) : p.Only (Op.Within G R) :=
  hp.mono fun _ ho => ho.mono (fun _ => False.elim) fun _ => False.elim

variable {cfg : Config} {rd : Readers}

private theorem apiStartPlanRun_within {groupRows : List (List Row)}
    (hfn : ∀ run idx rows, PlanRun.Follows plan location opts run →
      (apiEnqueueRestores (startRequest run location idx rows)).Only (Op.Within G R))
    (hR : ∀ run, PlanRun.Follows plan location opts run → R run) :
    (apiStartPlanRun plan location groupRows opts).Only (Op.Within G R) := by
  refine Only.bind (startPlanRun_within hfn hR).attempt fun out => ?_
  split
  · exact aggregatePlanRun_only (fun _ => trivial) _
  · exact only_raise
  · exact only_raise

/-- What a start by the API writes. -/
theorem startResolved_within (hrd : rd.ReadOnly)
    (hfn : ∀ run idx rows, PlanRun.Follows plan location opts run →
      (apiEnqueueRestores (startRequest run location idx rows)).Only (Op.Within G R))
    (hR : ∀ run, PlanRun.Follows plan location opts run → R run) :
    (startResolved rd plan location opts).Only (Op.Within G R) := by
  refine Only.bind (reads_within (hrd.planRows _ _ _)) fun groupRows => ?_
  exact Only.ite (fun _ => only_raise) fun _ => apiStartPlanRun_within hfn hR

/-- The options of a scheduled start. -/
def Plan.scheduleOptions (plan : Plan) (cutoff : String) : StartOptions :=
  { cutoff, drill := plan.scheduleDrill, autoTeardown := plan.scheduleDrill }

/-- What a scheduled start writes. -/
theorem startScheduled_within (hrd : rd.ReadOnly)
    (hfn : ∀ cutoff run idx rows, PlanRun.Follows plan location (plan.scheduleOptions cutoff) run →
      (enqueueRestores (startRequest run location idx rows)).Only (Op.Within G R))
    (hR : ∀ cutoff run, PlanRun.Follows plan location (plan.scheduleOptions cutoff) run → R run) :
    (startScheduled rd plan location).Only (Op.Within G R) := by
  refine Only.bind (only_perform.mpr trivial) fun now => ?_
  refine Only.bind (reads_within (hrd.scheduledRows _ _ _)) fun groupRows => ?_
  exact Only.ite (fun _ => only_raise) fun _ =>
    startPlanRun_within (hfn (utcText now)) (hR (utcText now))

/-! ### Gates -/

/-- What follows a gate counts only if the gate lets pass. -/
theorem only_gate {α β : Type} {F : Op → Prop} {gate : Except Exn α} {k : α → Prog β}
    (h : ∀ a, gate = .ok a → (k a).Only F) : (Program.ofExcept gate >>= k).Only F := by
  cases gate with
  | error e => exact only_raise
  | ok a => exact h a rfl

/-- A gate that raises leaves the world alone. -/
theorem gate_then {α β : Type} {G : Job → Prop} {R : PlanRun → Prop} {gate : Except Exn α}
    {k : α → Prog β}
    (h : ∀ a, gate = .ok a →
      Satisfies environment.machine (fun _ w' => w.Adds G R w') w (k a)) :
    Satisfies environment.machine (fun _ w' => w.Adds G R w') w
      (Program.ofExcept gate >>= k) := by
  rw [satisfies_bind, satisfies_ofExcept]
  cases gate with
  | error e => exact then_error.mpr (.refl w)
  | ok a => exact then_ok.mpr (h a rfl)

theorem enabledPlan_then {β : Type} {G : Job → Prop} {R : PlanRun → Prop}
    {k : Plan → Prog β} (hplan : w.plan plan.id = some plan)
    (h : plan.enabled = true →
      Satisfies environment.machine (fun _ w' => w.Adds G R w') w (k plan)) :
    Satisfies environment.machine (fun _ w' => w.Adds G R w') w
      (enabledPlan plan.id >>= k) := by
  rw [satisfies_bind, enabledPlan, satisfies_bind, satisfies_getPlan, hplan, then_ok]
  refine Satisfies.ite (fun henabled => ?_) fun _ => ?_
  · exact satisfies_ret.mpr (then_ok.mpr (h henabled))
  · exact satisfies_raise.mpr (then_error.mpr (.refl w))

/-- What is true of a program is true if its result is dropped. -/
theorem discard_holds {α : Type} {P : World → Prop} {p : Prog α}
    (h : Satisfies environment.machine (fun _ w' => P w') w p) :
    Satisfies environment.machine (fun _ w' => P w') w (discard p) :=
  h.bind (fun _ _ hleft => satisfies_ret.mpr hleft) fun _ _ hleft => hleft

theorem apiRunPlan_only {body : PlanRunRequest} {planId : Uuid} (hrd : rd.ReadOnly) :
    (apiRunPlan cfg rd planId body).Only (Op.Within (fun _ => True) fun _ => True) := by
  refine Only.bind (Only.bind (only_perform.mpr trivial) fun found => ?_) fun plan => ?_
  · cases found with
    | none => exact only_raise
    | some plan => exact Only.ite (fun _ => only_ret) fun _ => only_raise
  · refine only_gate fun _ _ => Only.bind (only_perform.mpr trivial) fun found => ?_
    cases found with
    | none => exact only_raise
    | some location =>
      refine only_gate fun _ _ => only_gate fun _ _ => startResolved_within hrd ?_ ?_
      · exact fun _ _ _ _ => apiEnqueueRestores_within fun _ _ _ _ _ _ _ _ => trivial
      · exact fun _ _ => trivial

/-! ### Plans without groups -/

/-- A plan without groups is not started. -/
theorem startPlanRun_groupless {enqueueFn : EnqueueFn} {groupRows : List (List Row)}
    (hgroups : plan.groupIds = []) :
    (startPlanRun enqueueFn plan location groupRows opts).Only (Op.Within G R) := by
  refine only_gate fun startIdx hfirst => ?_
  rw [firstGroup, hgroups] at hfirst
  cases groupRows <;> cases hfirst

theorem startResolved_groupless (hrd : rd.ReadOnly) (hgroups : plan.groupIds = []) :
    (startResolved rd plan location opts).Only (Op.Within G R) := by
  refine Only.bind (reads_within (hrd.planRows _ _ _)) fun groupRows => ?_
  refine Only.ite (fun _ => only_raise) fun _ => ?_
  refine Only.bind (startPlanRun_groupless hgroups).attempt fun out => ?_
  split
  · exact aggregatePlanRun_only (fun _ => trivial) _
  · exact only_raise
  · exact only_raise

theorem startScheduled_groupless (hrd : rd.ReadOnly) (hgroups : plan.groupIds = []) :
    (startScheduled rd plan location).Only (Op.Within G R) := by
  refine Only.bind (only_perform.mpr trivial) fun now => ?_
  refine Only.bind (reads_within (hrd.scheduledRows _ _ _)) fun groupRows => ?_
  exact Only.ite (fun _ => only_raise) fun _ => startPlanRun_groupless hgroups

/-! ### Readers that find something -/

/-- The backup of a guest. -/
def sampleRow : Row :=
  { backupId := "b", vmid := some 100, pveStorage := "pbs", voltail := "vm/100/t" }

/-- Readers that find a backup for each group. -/
def sampleReaders : Readers where
  lower := Text.lower
  listVmBackups := .ret [sampleRow]
  resolveTags _ _ := .ret []
  resolvePlanGroupRows groupIds _ _ := .ret (groupIds.map fun _ => [sampleRow])
  resolveScheduledRows groupIds _ _ := .ret (groupIds.map fun _ => [sampleRow])

theorem sampleReaders_readOnly : sampleReaders.ReadOnly :=
  ⟨only_ret, fun _ _ => only_ret, fun _ _ _ => only_ret, fun _ _ _ => only_ret⟩

theorem samples_ne (hgroups : plan.groupIds ≠ []) :
    ¬ ((plan.groupIds.map fun _ => [sampleRow]).all (· = [])) = true := by
  cases hids : plan.groupIds with
  | nil => exact absurd hids hgroups
  | cons id rest => exact Bool.false_ne_true

theorem firstGroup_samples (hgroups : plan.groupIds ≠ []) :
    firstGroup plan (plan.groupIds.map fun _ => [sampleRow]) = .ok 0 := by
  cases hids : plan.groupIds with
  | nil => exact absurd hids hgroups
  | cons id rest =>
    rw [firstGroup, hids, if_neg (by simp)]
    rfl

end RestoreEngine
