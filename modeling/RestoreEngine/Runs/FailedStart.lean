import Mathlib.Logic.Relation
import RestoreEngine.Model.Api
import RestoreEngine.Runs.Ticks

/-!
# A start that fails

`startPlanRun` stores the run, RUNNING and in the active set, before it enqueues the first group.
If the enqueueing raises, the run stays behind without jobs and without stashed rows, and the next
tick takes it for one that has nothing left to do: it becomes COMPLETED, with a report and, if
the plan asks for one, a verdict (`failed_start_left_behind`). So no failed start is undone
(`failed_start_not_undone`).
-/

namespace RestoreEngine

open Effects Prog Program

variable {w w' : World} {plan : Plan} {run : PlanRun} {location : Location}
  {groupRows : List (List Row)} {opts : StartOptions}

/-- Who starts a run: the API or the scheduler of the worker. -/
inductive Starter
  | api | scheduler

/-- The `enqueue_fn` that the starter passes. -/
def Starter.enqueueFn : Starter → EnqueueFn
  | api => apiEnqueueRestores
  | scheduler => enqueueRestores

/-- The world once a run is stored that starts `n` microseconds from now. -/
def World.shell (w : World) (run : PlanRun) (n : ℕ) : World :=
  World.setRun { w with nextUuid := w.nextUuid + 1, clock := w.clock + n } run

/-- `enqueue_fn` raises inside `start_plan_run`: the checks pass, `run` is stored, and the
enqueueing of its first group raises, which leads from `w` to `w'`. -/
structure FailedStart (starter : Starter) (plan : Plan) (location : Location)
    (groupRows : List (List Row)) (opts : StartOptions) (w : World) (run : PlanRun) (e : Exn)
    (w' : World) : Prop where
  fails : ∃ startIdx n, firstGroup plan groupRows = .ok startIdx ∧
    run = newRun w.nextUuid plan location opts (w.clock + (n : ℕ)) startIdx ∧
    Ends environment
      (starter.enqueueFn (startRequest run location startIdx (groupRows.getD startIdx [])))
      (w.shell run n) (.error e) w'

/-- The exception escapes `start_plan_run`, and nothing else happens. -/
theorem FailedStart.ends {starter : Starter} {e : Exn}
    (h : FailedStart starter plan location groupRows opts w run e w') :
    Ends environment (startPlanRun starter.enqueueFn plan location groupRows opts) w
      (.error e) w' := by
  obtain ⟨startIdx, n, hfirst, rfl, hfail⟩ := h.fails
  rw [startPlanRun, hfirst]
  refine Ends.bind (.ret _ _) (Ends.bind (ends_issue (o := .uuid4) (a := .ok) rfl) ?_)
  refine Ends.bind (ends_issue (o := .utcNow) (r := w.clock + (n : ℕ)) (a := .number n) rfl) ?_
  refine Ends.bind (Ends.bind (ends_issue (o := .setRun _) (r := ()) (a := .ok) rfl) (.ret _ _)) ?_
  exact ends_bind.mpr (.inr ⟨e, rfl, ends_bind.mpr (.inr ⟨e, rfl, hfail⟩)⟩)

private theorem starter_sameRuns {starter : Starter} {req : EnqueueRequest}
    {out : Except Exn EnqueueResult} (h : Ends environment (starter.enqueueFn req) w out w') :
    w.SameRuns w' := by
  cases starter with
  | scheduler => exact enqueueRestores_sameRuns h
  | api =>
    have hspec : Satisfies environment.machine (fun _ w' => w.SameRuns w') w
        (apiEnqueueRestores req) := by
      rw [apiEnqueueRestores, satisfies_bind, satisfies_attempt]
      refine satisfies_iff_ends.mpr fun out w' hends => ?_
      have hsame := enqueueRestores_sameRuns hends
      rw [then_ok]
      split
      · exact satisfies_ret.mpr hsame
      · exact satisfies_raise.mpr hsame
      · exact satisfies_raise.mpr hsame
    exact satisfies_iff_ends.mp hspec out w' h

/-- A run that is left behind by a failed start: it is RUNNING and active, its turn in a tick
comes to an end, and whenever it does the run is COMPLETED and has a report, and the plan has a
verdict on it, if assurance is enabled and the run is a drill. -/
structure World.LeftBehind (cfg : Config) (plan : Plan) (run : PlanRun) (w : World) : Prop where
  stored : w.run run.id = some run
  running : run.status = .RUNNING
  active : run.id ∈ w.active
  turn : ∃ out w', Ends environment (advanceRun cfg enqueueRestores run.id) w out w'
  completed : ∀ out w', Ends environment (advanceRun cfg enqueueRestores run.id) w out w' →
    ∃ run' plan', w'.run run.id = some run' ∧ run'.status = .COMPLETED ∧
      run'.reportId.isSome = true ∧ w'.plan plan.id = some plan' ∧
      (plan.assuranceEnabled = true → run.drill = true →
        plan'.assuranceLastRunId = some run.id)

/-- A new run has nothing to do as long as no jobs and no rows are recorded. -/
private theorem newRun_runsOut {id : Uuid} {now : Instant} {startIdx i : ℕ} :
    (newRun id plan location opts now startIdx).RunsOut i := by
  rintro k - - (hjobs | hrows)
  · refine hjobs ?_
    rw [PlanRun.jobsAt, newRun, List.getD_eq_getElem?_getD, List.getElem?_map]
    cases plan.groupIds[k]? <;> rfl
  · exact hrows rfl

private theorem newRun_targets {id : Uuid} {now : Instant} {startIdx k : ℕ} :
    w.targets ((newRun id plan location opts now startIdx).completed k) = [] := by
  have hnone : (plan.groupIds.map fun _ => ([] : List Uuid)).flatten = [] := by
    simp
  simp only [World.targets, PlanRun.completed, newRun, hnone, List.foldl_nil]

/-- A run without targets can be finalized. -/
private theorem exists_canTear (h : w.targets run = []) : ∃ status, w.CanTear run status := by
  by_cases hauto : run.autoTeardown = true ∧ run.teardownStatus = .UNSET
  · refine ⟨.COMPLETED, ?_⟩
    rw [World.CanTear, if_pos hauto, if_neg fun hdown => hdown.1 h, h]
    exact ⟨rfl, List.forall_mem_nil _⟩
  · refine ⟨run.teardownStatus, ?_⟩
    rw [World.CanTear, if_neg hauto]

/-- **A failed start** leaves its run behind, whatever made it fail. -/
theorem failed_start_left_behind (cfg : Config) (starter : Starter) {e : Exn}
    (hstored : w.plan plan.id = some plan)
    (h : FailedStart starter plan location groupRows opts w run e w') :
    Ends environment (startPlanRun starter.enqueueFn plan location groupRows opts) w
        (.error e) w' ∧ w'.LeftBehind cfg plan run := by
  refine ⟨h.ends, ?_⟩
  obtain ⟨startIdx, n, -, rfl, hfail⟩ := h.fails
  have hsame := starter_sameRuns hfail
  generalize hrun : newRun w.nextUuid plan location opts (w.clock + (n : ℕ)) startIdx = run at *
  have hrunning : run.status = .RUNNING := by rw [← hrun]; rfl
  have hplanId : run.planId = plan.id := by rw [← hrun]; rfl
  have hrec : w'.run run.id = some run := by
    rw [World.run, hsame.runs]
    exact World.run_setRun _ _
  have hplan : w'.plan run.planId = some plan := by
    rw [World.plan, hsame.plans, hplanId]
    exact hstored
  have hends : w'.EndsCompleted run := .inl (hrun ▸ newRun_runsOut)
  obtain ⟨k, hcompletes⟩ := advanceRun_completes cfg enqueueRestores hrec hrunning hends
  have hdone : (run.completed k).status ≠ .RUNNING := by rintro ⟨⟩
  -- there is nothing to tear down
  have htargets : w'.targets (run.completed k) = [] := by
    rw [← hrun]
    exact newRun_targets
  obtain ⟨status, hcan⟩ := exists_canTear htargets
  refine ⟨hrec, hrunning, ?_, ?_, fun out w'' hturn => ?_⟩
  · rw [hsame.active, World.shell, World.setRun, if_pos hrunning]
    exact List.mem_insert_self
  · obtain ⟨out, w'', hend, -⟩ := endRun_reaches cfg hdone hplan hplanId.symm hcan
    exact ⟨out, w'', (hcompletes out w'').mpr hend⟩
  · obtain ⟨m, run', plan', hfinal⟩ := satisfies_iff_ends.mp
      (endRun_spec cfg hdone hplan hplanId.symm) out w'' ((hcompletes out w'').mp hturn)
    refine ⟨run', plan', hfinal.run_eq, hfinal.course.status, hfinal.reported,
      hplanId ▸ hfinal.plan_eq, fun henabled hdrill => (hfinal.judged ⟨henabled, hdrill, ?_⟩).1⟩
    rw [← hrun]
    rfl

/-! ### Undoing a start -/

/-- The turn of an active run in a tick. Ticks are made of turns. -/
def World.Turn (cfg : Config) (w w' : World) : Prop :=
  ∃ id ∈ w.active, ∃ out, Ends environment (advanceRun cfg enqueueRestores id) w out w'

/-- The run is not left RUNNING in the active set. -/
def World.Withdrawn (w : World) (run : PlanRun) : Prop :=
  ∀ run', w.run run.id = some run' → run'.status = .RUNNING → run.id ∉ w.active

/-- No ticks turn the run into a COMPLETED one, give it a report, or judge the plan by it. -/
def World.NeverRevived (cfg : Config) (plan : Plan) (run : PlanRun) (w : World) : Prop :=
  ∀ w', Relation.ReflTransGen (World.Turn cfg) w w' →
    (∀ run', w'.run run.id = some run' → run'.status ≠ .COMPLETED ∧ run'.reportId = none) ∧
      ∀ plan', w'.plan plan.id = some plan' → plan'.assuranceLastRunId ≠ some run.id

/-- **No failed start is undone**: the run is left RUNNING and active, and a tick revives it. -/
theorem failed_start_not_undone (cfg : Config) (starter : Starter) {e : Exn}
    (hstored : w.plan plan.id = some plan)
    (h : FailedStart starter plan location groupRows opts w run e w') :
    ¬ w'.Withdrawn run ∧ ¬ w'.NeverRevived cfg plan run := by
  obtain ⟨-, hleft⟩ := failed_start_left_behind cfg starter hstored h
  refine ⟨fun hwithdrawn => ?_, fun hnever => ?_⟩
  · exact hwithdrawn run hleft.stored hleft.running hleft.active
  · obtain ⟨out, w'', hturn⟩ := hleft.turn
    obtain ⟨run', plan', hrun', hcompleted, -⟩ := hleft.completed out w'' hturn
    obtain ⟨hne, -⟩ := (hnever w'' (.single ⟨run.id, hleft.active, out, hturn⟩)).1 run' hrun'
    exact hne hcompleted

/-! ### A source VMID that is taken -/

/-- A plan with an assurance policy and one group. -/
def conflictPlan : Plan := { id := 0, groupIds := [1], locationId := 2, assuranceEnabled := true }

/-- A location that restores to the source VMIDs. -/
def conflictLocation : Location :=
  { id := 2, node := "pve", storage := "local", restoreMode := "dr" }

/-- The backup of guest 100. -/
def conflictRows : List (List Row) :=
  [[{ backupId := "b", vmid := some 100, pveStorage := "pbs", voltail := "vm/100/t" }]]

/-- A drill that is torn down automatically. -/
def conflictOptions : StartOptions := { drill := true, autoTeardown := true }

/-- A world in which VMID 100 is taken by a foreign guest. -/
def conflictWorld : World :=
  { plans := (∅ : AList _).insert 0 conflictPlan
    nextUuid := 3
    guests := (∅ : AList _).insert 100 { kind := .qemu, node := "pve" } }

/-- The run that is stored. -/
def conflictRun : PlanRun := newRun 3 conflictPlan conflictLocation conflictOptions 0 0

/-- Enqueueing the group of the run. -/
def conflictEnqueue : Prog EnqueueResult :=
  enqueueRestores (startRequest conflictRun conflictLocation 0 (conflictRows.getD 0 []))

/-- What the turn of the run leaves: its status, whether it has a report, and the plan's verdict. -/
def conflictTurn (w : World) : Option (Option (PlanRunStatus × Bool) × Option PlanAssurance) :=
  (Program.run environment [] (advanceRun {} enqueueRestores 3) w).map fun r =>
    ((r.2.run 3).map fun run => (run.status, run.reportId.isSome),
      (r.2.plan 0).map (·.assuranceStatus))

private theorem conflict_fails :
    ∃ e w', FailedStart .scheduler conflictPlan conflictLocation conflictRows conflictOptions
        conflictWorld conflictRun e w' ∧
      3 ∈ w'.active ∧ conflictTurn w' = some (some (.COMPLETED, true), some .ASSURED) := by
  have hrun : (Program.run environment [] conflictEnqueue (conflictWorld.shell conflictRun 0)).map
      (fun r => (r.1.toOption.isNone && decide (3 ∈ r.2.active), conflictTurn r.2)) =
        some (true, some (some (.COMPLETED, true), some .ASSURED)) := by
    decide
  obtain ⟨out, w', hends, hleft⟩ := exists_ends_of_run hrun
  simp only [Prod.mk.injEq, Bool.and_eq_true] at hleft
  obtain ⟨⟨herror, hactive⟩, hturn⟩ := hleft
  cases out with
  | ok result => cases herror
  | error e => exact ⟨e, w', ⟨0, 0, rfl, rfl, hends⟩, of_decide_eq_true hactive, hturn⟩

/-- The start fails because VMID 100 is taken, and a tick makes the plan ASSURED by it. -/
theorem conflict_start_revived :
    ∃ e w', FailedStart .scheduler conflictPlan conflictLocation conflictRows conflictOptions
        conflictWorld conflictRun e w' ∧
      ¬ (w'.Withdrawn conflictRun ∧ w'.NeverRevived {} conflictPlan conflictRun) := by
  obtain ⟨e, w', hfails, hactive, hturn⟩ := conflict_fails
  refine ⟨e, w', hfails, fun ⟨_, hnever⟩ => ?_⟩
  obtain ⟨out, w'', hends, hdone⟩ := exists_ends_of_run hturn
  rw [Prod.mk.injEq] at hdone
  obtain ⟨run', hrun', hcompleted⟩ := Option.map_eq_some_iff.mp hdone.1
  exact ((hnever w'' (.single ⟨3, hactive, out, hends⟩)).1 run' hrun').1
    (congrArg Prod.fst hcompleted)

/-- Neither half of the undoing takes place. -/
theorem conflict_start_not_undone :
    ∃ w' : World, ¬ w'.Withdrawn conflictRun ∧ ¬ w'.NeverRevived {} conflictPlan conflictRun := by
  obtain ⟨e, w', hfails, -⟩ := conflict_fails
  exact ⟨w', failed_start_not_undone {} .scheduler rfl hfails⟩

end RestoreEngine
