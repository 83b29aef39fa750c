import RestoreEngine.Enqueue.Placement
import RestoreEngine.Runs.Settling
import RestoreEngine.Runs.Steps
import RestoreEngine.Runs.Ticks

/-!
# Cancelling a run

An undisturbed `cancel_plan_run` does to every job that the run lists what its state asks for
(`Job.runCancelled`), takes the PENDING ones off the queue, and stores the run as CANCELLED. The
finalization that follows writes the record of the run a few times more, but neither its status nor
its rows (`SettledBeside`). Since `advance_plan_runs` enqueues only for runs that are RUNNING, no
later tick enqueues anything for the run, whatever commands come between (`Onwards`).

The store is one that `save_plan_run` has written: runs are stored under their own ids.
-/

namespace RestoreEngine

open Effects Prog Program

variable {cfg : Config} {R : Uuid} {w w' : World} {run : PlanRun}

/-! ### The jobs -/

/-- What the cancelling of its run does to a job. -/
def Job.runCancelled (now : Instant) (job : Job) : Job :=
  match job.stateOrPending with
  | .PENDING =>
    { job with
      state := some .CANCELLED
      updatedAt := some now
      error := "Cancelled with plan run"
      cancelRequested := true }
  | .RESTORING => { job with cancelRequested := true, updatedAt := some now }
  | _ => job

namespace Job

variable {now : Instant} {job : Job}

theorem runCancelled_of_pending (h : job.stateOrPending = .PENDING) :
    job.runCancelled now =
      { job with
        state := some .CANCELLED
        updatedAt := some now
        error := "Cancelled with plan run"
        cancelRequested := true } := by
  rw [runCancelled, h]

theorem runCancelled_of_restoring (h : job.stateOrPending = .RESTORING) :
    job.runCancelled now = { job with cancelRequested := true, updatedAt := some now } := by
  rw [runCancelled, h]

theorem runCancelled_of_terminal (h : job.stateOrPending.IsTerminal = true) :
    job.runCancelled now = job := by
  rw [runCancelled]
  split
  next hstate => rw [hstate] at h; cases h
  next hstate => rw [hstate] at h; cases h
  next => rfl

/-- No job is PENDING afterwards. -/
theorem runCancelled_not_pending : (job.runCancelled now).stateOrPending ≠ .PENDING := by
  cases hstate : job.stateOrPending with
  | PENDING =>
    rw [runCancelled_of_pending hstate]
    exact nofun
  | RESTORING =>
    rw [runCancelled_of_restoring hstate]
    exact fun hpending => nomatch hstate.symm.trans hpending
  | COMPLETED | FAILED | CANCELLED =>
    rw [runCancelled_of_terminal (by rw [hstate]; rfl), hstate]
    exact nofun

/-- Cancelling a job with its run a second time changes nothing. -/
theorem runCancelled_idem : (job.runCancelled now).runCancelled now = job.runCancelled now := by
  cases hstate : job.stateOrPending with
  | PENDING =>
    rw [runCancelled_of_pending hstate]
    exact runCancelled_of_terminal rfl
  | RESTORING =>
    rw [runCancelled_of_restoring hstate]
    exact runCancelled_of_restoring hstate
  | COMPLETED | FAILED | CANCELLED =>
    have hterminal : job.stateOrPending.IsTerminal = true := by rw [hstate]; rfl
    rw [runCancelled_of_terminal hterminal, runCancelled_of_terminal hterminal]

end Job

/-- The job is there and PENDING. -/
def World.Awaits (w : World) (id : Uuid) : Prop :=
  (w.job id).map Job.stateOrPending = some .PENDING

instance (w : World) (id : Uuid) : Decidable (w.Awaits id) := inferInstanceAs (Decidable (_ = _))

/-- **The jobs `ids` are cancelled with their run**: no other job and no other entry of the queue
is touched. -/
structure World.CancelsJobs (w : World) (ids : List Uuid) (w' : World) : Prop where
  clock_eq : w'.clock = w.clock
  runs_eq : w'.runs = w.runs
  job_eq : ∀ id, w'.job id =
    if id ∈ ids then (w.job id).map (Job.runCancelled w.clock) else w.job id
  queue_eq : w'.queue = w.queue.filter fun id => ¬ (id ∈ ids ∧ w.Awaits id)

namespace World.CancelsJobs

variable {w₁ : World} {id : Uuid} {ids : List Uuid}

theorem nil (w : World) : w.CancelsJobs [] w := by
  refine ⟨rfl, rfl, fun id => (if_neg List.not_mem_nil).symm, ?_⟩
  exact (List.filter_eq_self.mpr fun id _ => by simp).symm

/-- A job that does not wait afterwards is not waited for by the rest. -/
theorem waits_iff (h : w.CancelsJobs ids w') : w'.Awaits id ↔ id ∉ ids ∧ w.Awaits id := by
  rw [Awaits, h.job_eq id]
  split_ifs with hid
  · refine iff_of_false (fun hwaits => ?_) fun hnot => hnot.1 hid
    rw [Option.map_map, Option.map_eq_some_iff] at hwaits
    obtain ⟨job, -, hpending⟩ := hwaits
    exact Job.runCancelled_not_pending hpending
  · exact (and_iff_right hid).symm

/-- One job after the other. -/
theorem cons (h : w.CancelsJobs [id] w₁) (h' : w₁.CancelsJobs ids w') :
    w.CancelsJobs (id :: ids) w' := by
  refine ⟨h'.clock_eq.trans h.clock_eq, h'.runs_eq.trans h.runs_eq, fun i => ?_, ?_⟩
  · have hmine := h.job_eq i
    rw [h'.job_eq i, hmine, h.clock_eq]
    by_cases hid : i = id
    · -- A job that is listed again is in the state in which it stays.
      subst hid
      have hidem : (w.job i).map (Job.runCancelled w.clock) =
          ((w.job i).map (Job.runCancelled w.clock)).map (Job.runCancelled w.clock) := by
        rw [Option.map_map]
        exact congrArg (Option.map · (w.job i)) (funext fun job => Job.runCancelled_idem.symm)
      rw [if_pos (List.mem_singleton_self i), ← hidem, ite_self, if_pos List.mem_cons_self]
    · rw [if_neg (mt List.mem_singleton.mp hid)]
      simp only [List.mem_cons, hid, false_or]
  · rw [h'.queue_eq, h.queue_eq, List.filter_filter]
    refine List.filter_congr fun i _ => ?_
    have hwaits : w₁.Awaits i ↔ i ∉ [id] ∧ w.Awaits i := h.waits_iff
    rw [List.mem_singleton] at hwaits
    rw [← Bool.decide_and, decide_eq_decide, hwaits, List.mem_singleton, List.mem_cons]
    tauto

end World.CancelsJobs

/-- **The cancelling of one job.** -/
theorem cancelJob_cancels (w : World) (id : Uuid) : Satisfies environment.machine
    (fun out w' => (∃ stats, out = .ok stats) ∧ w.CancelsJobs [id] w') w (cancelJob id) := by
  rw [cancelJob, satisfies_bind, satisfies_hgetall, then_ok]
  have hkept (hsame : (w.job id).map (Job.runCancelled w.clock) = w.job id)
      (hwaits : ¬ w.Awaits id) : w.CancelsJobs [id] w := by
    refine ⟨rfl, rfl, fun i => ?_, (List.filter_eq_self.mpr fun i _ => ?_).symm⟩
    · split_ifs with hi
      · rw [List.mem_singleton.mp hi, hsame]
      · rfl
    · refine decide_eq_true ?_
      rintro ⟨hi, hwaiting⟩
      exact hwaits (List.mem_singleton.mp hi ▸ hwaiting)
  have hset {job : Job} (hjob : w.job id = some job) {w' : World}
      (hjobs : w'.jobs = w.jobs.insert id (job.runCancelled w.clock)) (i : Uuid) : w'.job i =
        if i ∈ [id] then (w.job i).map (Job.runCancelled w.clock) else w.job i := by
    rw [World.job, hjobs]
    split_ifs with hi
    · obtain rfl := List.mem_singleton.mp hi
      rw [hjob, Option.map_some]
      exact AList.lookup_insert w.jobs
    · exact AList.lookup_insert_ne (mt List.mem_singleton.mpr hi)
  cases hjob : w.job id with
  | none =>
    refine satisfies_ret.mpr ⟨⟨_, rfl⟩, hkept (by rw [hjob]; rfl) ?_⟩
    rw [World.Awaits, hjob]
    rintro ⟨⟩
  | some job =>
    rw [Option.map_some]
    cases hstate : job.stateOrPending with
    | PENDING =>
      have hwaits : w.Awaits id := by rw [World.Awaits, hjob, Option.map_some, hstate]
      refine satisfies_bind.mpr (satisfies_hsetLrem.mpr (then_ok.mpr (satisfies_ret.mpr ?_)))
      refine ⟨⟨_, rfl⟩, rfl, rfl, fun i => ?_, ?_⟩
      · refine hset hjob ?_ i
        rw [World.setJob, hjob, Job.runCancelled_of_pending hstate, Option.getD_some]
      refine List.filter_congr fun i _ => decide_eq_decide.mpr (not_congr ?_)
      refine ⟨fun hi => ⟨List.mem_singleton.mpr hi, hi ▸ hwaits⟩, fun hi => ?_⟩
      exact List.mem_singleton.mp hi.1
    | RESTORING =>
      have hwaits : ¬ w.Awaits id := by
        rw [World.Awaits, hjob, Option.map_some, hstate]
        rintro ⟨⟩
      refine satisfies_bind.mpr (satisfies_hset.mpr (then_ok.mpr (satisfies_ret.mpr ?_)))
      refine ⟨⟨_, rfl⟩, rfl, rfl, fun i => ?_, ?_⟩
      · refine hset hjob ?_ i
        rw [World.setJob, hjob, Job.runCancelled_of_restoring hstate, Option.getD_some]
      refine (List.filter_eq_self.mpr fun i _ => decide_eq_true ?_).symm
      exact fun hi => hwaits (List.mem_singleton.mp hi.1 ▸ hi.2)
    | COMPLETED | FAILED | CANCELLED =>
      refine satisfies_ret.mpr ⟨⟨_, rfl⟩, hkept ?_ ?_⟩
      · rw [hjob, Option.map_some, Job.runCancelled_of_terminal (by rw [hstate]; rfl)]
      · rw [World.Awaits, hjob, Option.map_some, hstate]
        rintro ⟨⟩

/-- **The loop over the jobs of a run.** -/
theorem cancelJobs_cancels (w : World) (ids : List Uuid) : Satisfies environment.machine
    (fun out w' => (∃ stats, out = .ok stats) ∧ w.CancelsJobs ids w') w (cancelJobs ids) := by
  induction ids generalizing w with
  | nil => exact satisfies_ret.mpr ⟨⟨_, rfl⟩, .nil w⟩
  | cons id rest ih =>
    refine (cancelJob_cancels w id).bind (fun one w₁ h => ?_) ?_
    · refine (ih w₁).bind (fun others w' h' => satisfies_ret.mpr ⟨⟨_, rfl⟩, h.2.cons h'.2⟩) ?_
      rintro e w' ⟨⟨stats, hnever⟩, -⟩
      cases hnever
    · rintro e w' ⟨⟨stats, hnever⟩, -⟩
      cases hnever

/-! ### The record -/

/-- The run is stored as a record that settling made of `ended`, and beside `w₀` nothing else has
changed of the jobs, the queue and the runs. -/
structure SettledBeside (w₀ : World) (ended run : PlanRun) (w : World) : Prop where
  stored : w.run run.id = some run
  settles : ended.Settles run
  jobs_eq : w.jobs = w₀.jobs
  queue_eq : w.queue = w₀.queue
  others : ∀ id ≠ ended.id, w.run id = w₀.run id
  inactive : ended.status ≠ .RUNNING → ended.id ∉ w.active

/-- Settling leaves the set of active runs to the saving of the record. -/
private theorem active_kept {id : Uuid} {o : Op} {a : Answer} {r : o.Res} (ho : o.OfSettling id)
    (h : environment o a w = some (r, w')) : w'.active = w.active := by
  by_cases hcluster : o.OnCluster
  · obtain ⟨guests, up, rfl⟩ := hcluster.sameRest h
    rfl
  · cases o <;> first
      | exact ho.elim
      | exact absurd trivial hcluster
      | (cases h; rfl)

private theorem rest_kept {id : Uuid} {o : Op} {a : Answer} {r : o.Res} (ho : o.OfSettling id)
    (h : environment o a w = some (r, w')) :
    w'.jobs = w.jobs ∧ w'.queue = w.queue ∧ w'.runs = w.runs := by
  rw [(after_step h).jobs, (after_step h).queue, (after_step h).runs]
  cases o <;> first | exact ⟨rfl, rfl, rfl⟩ | exact ho.elim

theorem settling_beside (w₀ : World) (ended : PlanRun) :
    Settling environment.machine (SettledBeside w₀ ended) where
  aside {run s} o hK ho := by
    refine ⟨trivial, ?_⟩
    rintro r s' ⟨a, ha⟩
    obtain ⟨hjobs, hqueue, hruns⟩ := rest_kept ho ha
    refine ⟨?_, hK.settles, hjobs.trans hK.jobs_eq, hqueue.trans hK.queue_eq, ?_, ?_⟩
    · rw [World.run, hruns]
      exact hK.stored
    · intro id hid
      rw [World.run, hruns]
      exact hK.others id hid
    · rw [active_kept ho ha]
      exact hK.inactive
  save {run run' s} hK hrun := by
    have hsettles := hK.settles.trans hrun
    refine ⟨trivial, ?_⟩
    rintro r s' ⟨a, ha⟩
    obtain rfl : s.setRun run' = s' := congrArg Prod.snd (Option.some.inj ha)
    refine ⟨s.run_setRun run', hsettles, hK.jobs_eq, hK.queue_eq, fun id hid => ?_, ?_⟩
    · rw [s.run_setRun_ne (hsettles.id ▸ hid)]
      exact hK.others id hid
    · intro hended
      rw [World.setRun, if_neg (hsettles.status ▸ hended), List.mem_filter, hsettles.id]
      exact fun hmem => of_decide_eq_true hmem.2 rfl
  load {run run' s} hK hid := by
    refine ⟨trivial, ?_⟩
    rintro r s' ⟨a, ha⟩
    obtain ⟨rfl, rfl⟩ := Prod.mk.inj (Option.some.inj (show some (s.run run.id, s) = some (r, s')
      from ha))
    have hstored : s.run run.id = some run' := hid ▸ hK.stored
    rw [hstored]
    exact ⟨hid, hK⟩

/-- The record that a saving leaves. -/
theorem SettledBeside.saved (w₀ : World) {clock : Instant} (run : PlanRun) :
    SettledBeside w₀ run run (World.setRun { w₀ with clock } run) := by
  refine ⟨World.run_setRun _ run, .refl run, rfl, rfl, fun id hid => ?_, fun hended => ?_⟩
  · exact World.run_setRun_ne _ hid
  · rw [World.setRun, if_neg hended, List.mem_filter]
    exact fun hmem => of_decide_eq_true hmem.2 rfl

/-- **The end of a cancellation**: the run has been saved, is finalized and read again. -/
private theorem cancelled_settles (w₀ : World) (clock : Instant) (ended : PlanRun) :
    Satisfies environment.machine
      (fun out w' => (∃ result, out = .ok result) ∧ ∃ run', SettledBeside w₀ ended run' w')
      (World.setRun { w₀ with clock } ended)
      (finalizePlanRunReport cfg ended >>= fun _ => reload ended >>= aggregatePlanRun) := by
  have hsettling := settling_beside w₀ ended
  refine (hsettling.finalize (.saved w₀ ended) cfg).bind ?_ ?_
  · rintro a w₁ ⟨run', -, hknown, hid⟩
    refine satisfies_bind.mpr (hsettling.reload ⟨run', hknown, hid⟩ fun run'' w₂ _ hknown' => ?_)
    refine then_ok.mpr ((hsettling.aggregatePlanRun hknown' run'').mono ?_)
    exact fun _ w₃ hlast => ⟨hlast.1, run'', hlast.2⟩
  · rintro e w₁ ⟨run', hnever, -⟩
    cases hnever

/-! ### Later ticks -/

/-- The world goes on from `w₀`: by ticks of `advance_plan_runs`, and by commands of others that do
not write the record of the run. -/
inductive Onwards (cfg : Config) (R : Uuid) (w₀ : World) : World → Prop
  | start : Onwards cfg R w₀ w₀
  | tick {w w' : World} {out : Except Exn ℕ} (h : Onwards cfg R w₀ w)
      (hends : Ends environment (advancePlanRuns cfg enqueueRestores) w out w') :
      Onwards cfg R w₀ w'
  | other {w w' : World} {o : Op} {a : Answer} {r : o.Res} (h : Onwards cfg R w₀ w)
      (hstep : environment o a w = some (r, w')) (hspares : ¬ o.Writes R) : Onwards cfg R w₀ w'

/-- The run is stored with a status other than RUNNING. -/
structure World.Over (w : World) (R : Uuid) : Prop where
  keyed : w.Keyed
  ended : ∃ run, w.run R = some run ∧ run.status ≠ .RUNNING

/-- A job of some other run, or of none. -/
abbrev Job.NotOf (R : Uuid) (job : Job) : Prop := job.planRunId ≠ some R

/-- What a tick does in a world in which the run is over. -/
structure World.Spares (w : World) (R : Uuid) (w' : World) : Prop where
  isOver : w'.Over R
  writes : w.Writes (Job.NotOf R) w'

namespace World.Over

/-- The record stays, and the rest is kept in order anyway. -/
theorem of_run (hover : w.Over R) (hkeyed : w'.Keyed) (hrun : w'.run R = w.run R) : w'.Over R := by
  obtain ⟨run, hstored, hended⟩ := hover.ended
  exact ⟨hkeyed, run, hrun.trans hstored, hended⟩

/-- Any program keeps the runs under their ids. -/
private theorem keyed_of_ends {α : Type} {p : Prog α} {out : Except Exn α} (hkeyed : w.Keyed)
    (h : Ends environment p w out w') : w'.Keyed := by
  refine h.post (satisfies_of_moves (I := World.Keyed) (fun _ _ => trivial) ?_ hkeyed)
  exact fun s o r s' hs ⟨a, ha⟩ => hs.step ha

/-- A record of another run is saved, and nothing else. -/
private theorem setRun (hover : w.Over R) (hne : run.id ≠ R) : w.Spares R (w.setRun run) := by
  have hkeyed : (w.setRun run).Keyed :=
    hover.keyed.step (show environment (.setRun run) .ok w = some ((), w.setRun run) from rfl)
  exact ⟨hover.of_run hkeyed (w.run_setRun_ne hne.symm), .of_same rfl rfl⟩

end World.Over

/-- The ending of another run. -/
private theorem endRun_spares {out : Except Exn Bool}
    (h : Ends environment (endRun cfg run) w out w') (hover : w.Over R) (hne : run.id ≠ R) :
    w.Spares R w' := by
  have hbeside : Satisfies environment.machine (fun _ w' => ∃ run', SettledBeside w run run' w') w
      (endRun cfg run) := by
    rw [endRun, satisfies_bind, satisfies_utcNow]
    intro n
    rw [then_ok, satisfies_bind, satisfies_savePlanRun, then_ok]
    have hknown : SettledBeside w run { run with finishedAt := some (w.clock + n) }
        (World.setRun { w with clock := w.clock + n }
          { run with finishedAt := some (w.clock + n) }) := by
      have hsaved := @SettledBeside.saved w (w.clock + n)
        { run with finishedAt := some (w.clock + n) }
      exact ⟨hsaved.stored, ⟨rfl, rfl, rfl, rfl, rfl, rfl, rfl, rfl⟩, hsaved.jobs_eq,
        hsaved.queue_eq, hsaved.others, hsaved.inactive⟩
    refine ((settling_beside w run).finalize hknown cfg).bind ?_ ?_
    · rintro a w₁ ⟨run', -, hlast, -⟩
      exact satisfies_ret.mpr ⟨run', hlast⟩
    · rintro e w₁ ⟨run', hnever, -⟩
      cases hnever
  obtain ⟨run', hlast⟩ := h.post hbeside
  refine ⟨hover.of_run (World.Over.keyed_of_ends hover.keyed h) (hlast.others R hne.symm), ?_⟩
  exact .of_same hlast.jobs_eq hlast.queue_eq

/-- The enqueueing of a group of another run. -/
private theorem enqueueGroup_spares {idx : ℕ} (hover : w.Over R) (hne : run.id ≠ R)
    {out : Except Exn Bool} (h : Ends environment (enqueueGroup enqueueRestores run idx) w out w') :
    w.Spares R w' := by
  have hsave {w₁ : World} {run' : PlanRun} {out : Except Exn Bool}
      (h : Ends environment (savePlanRun run' >>= fun _ => pure true) w₁ out w')
      (hspares : w.Spares R w₁) (hid : run'.id = run.id) : w.Spares R w' := by
    obtain rfl : w₁.setRun run' = w' := h.post (Q := fun _ w' => w₁.setRun run' = w') <| by
      rw [satisfies_bind, satisfies_savePlanRun, then_ok]
      exact satisfies_ret.mpr rfl
    have hsaved := hspares.isOver.setRun (hid ▸ hne)
    exact ⟨hsaved.isOver, hspares.writes.trans hsaved.writes⟩
  have henqueue {w₁ : World} {out : Except Exn EnqueueResult}
      (h : Ends environment (enqueueRestores (run.request idx (run.rowsAt idx))) w out w₁) :
      w.Spares R w₁ := by
    have hmakes : (run.request idx (run.rowsAt idx)).Makes (Job.NotOf R) :=
      fun _ _ _ _ _ _ hsame => hne (Option.some.inj hsame)
    have hruns := (enqueueRestores_sameRuns h).runs
    have hrun : w₁.run R = w.run R := by rw [World.run, hruns, World.run]
    refine ⟨hover.of_run (World.Over.keyed_of_ends hover.keyed h) hrun, ?_⟩
    rw [← environment.restrict_true] at h
    exact enqueueRestores_writes hmakes h
  have hself : w.Spares R w := ⟨hover, .of_same rfl rfl⟩
  rw [enqueueGroup] at h
  split_ifs at h with hrows
  · exact hsave h hself rfl
  · rcases ends_bind.mp h with ⟨result, w₁, hresult, h⟩ | ⟨e, rfl, hraise⟩
    · exact hsave h (henqueue hresult) rfl
    · exact henqueue hraise

/-- **The turn of a run in a tick** enqueues nothing for a run that is over. -/
theorem advanceRun_spares (hover : w.Over R) {id : Uuid} {out : Except Exn Bool}
    (h : Ends environment (advanceRun cfg enqueueRestores id) w out w') : w.Spares R w' := by
  have hself : w.Spares R w := ⟨hover, .of_same rfl rfl⟩
  refine h.post (Q := fun _ w' => w.Spares R w') ?_
  rw [advanceRun, satisfies_bind, satisfies_getRun, then_ok]
  cases hfound : (w.run id).filter (·.status = .RUNNING) with
  | none =>
    have hkeyed : ({ w with active := w.active.filter (· ≠ id) } : World).Keyed := hover.keyed
    rw [satisfies_bind, satisfies_dropActive, then_ok]
    exact satisfies_ret.mpr ⟨hover.of_run hkeyed rfl, .of_same rfl rfl⟩
  | some run =>
    obtain ⟨hrun, hstatus⟩ := Option.filter_eq_some_iff.mp hfound
    have hid := hover.keyed id run hrun
    have hne : run.id ≠ R := by
      rintro rfl
      obtain ⟨run', hrun', hended⟩ := hover.ended
      rw [hid, hrun] at hrun'
      exact hended (Option.some.inj hrun' ▸ of_decide_eq_true hstatus)
    change Satisfies environment.machine _ w (advanceRunning cfg enqueueRestores run)
    rw [advanceRunning]
    refine Satisfies.ite (fun _ => ?_) fun _ => Satisfies.ite (fun _ => ?_) fun _ => ?_
    · exact satisfies_iff_ends.mpr fun _ _ hends => endRun_spares hends hover hne
    · exact satisfies_iff_ends.mpr fun _ _ hends => enqueueGroup_spares hover hne hends
    rw [awaitGroup, satisfies_bind, satisfies_jobStates, then_ok]
    refine Satisfies.ite (fun _ => ?_) fun _ => satisfies_ret.mpr hself
    split
    next ended houtcome =>
      obtain ⟨status, error, current, -, rfl⟩ := outcome_spec houtcome
      exact satisfies_iff_ends.mpr fun _ _ hends => endRun_spares hends hover hne
    next next houtcome =>
      rw [satisfies_bind, satisfies_savePlanRun, then_ok]
      exact satisfies_ret.mpr (hover.setRun hne)

/-- **A tick enqueues nothing for a run that is over**, and the run stays over. -/
theorem advancePlanRuns_spares (hover : w.Over R) {out : Except Exn ℕ}
    (h : Ends environment (advancePlanRuns cfg enqueueRestores) w out w') : w.Spares R w' := by
  have hloop : ∀ (ids : List Uuid) {w : World}, w.Over R → Satisfies environment.machine
      (fun _ w' => w.Spares R w') w (advanceRuns cfg enqueueRestores ids) := by
    intro ids
    induction ids with
    | nil => exact fun hover => satisfies_ret.mpr ⟨hover, .of_same rfl rfl⟩
    | cons id rest ih =>
      intro w hover
      have hfirst : Satisfies environment.machine (fun _ w' => w.Spares R w') w
          (advanceRun cfg enqueueRestores id) :=
        satisfies_iff_ends.mpr fun _ _ hends => advanceRun_spares hover hends
      refine hfirst.bind (fun touched w₁ h₁ => ?_) fun _ _ h₁ => h₁
      have hboth {w₂ : World} (h₂ : w₁.Spares R w₂) : w.Spares R w₂ :=
        ⟨h₂.isOver, h₁.writes.trans h₂.writes⟩
      exact (ih h₁.isOver).bind (fun others w₂ h₂ => satisfies_ret.mpr (hboth h₂))
        fun _ _ h₂ => hboth h₂
  refine h.post (Q := fun _ w' => w.Spares R w') ?_
  rw [advancePlanRuns, satisfies_bind, satisfies_activeRuns, then_ok]
  exact hloop _ hover

/-- A run that is over stays over as the world goes on. -/
theorem World.Over.onwards (hover : w.Over R) (h : Onwards cfg R w w') : w'.Over R := by
  induction h with
  | start => exact hover
  | tick _ hends ih => exact (advancePlanRuns_spares ih hends).isOver
  | other _ hstep hspares ih => exact ih.of_run (ih.keyed.step hstep) (run_kept hstep hspares)

/-! ### The cancellation -/

/-- **A cancelled run.** The jobs of the run are those that its record lists. -/
structure World.CancelsRun (w : World) (cfg : Config) (run : PlanRun) (w' : World) : Prop where
  pending : ∀ id ∈ run.jobIdsByGroup.flatten, ∀ job, w.job id = some job →
    job.stateOrPending = .PENDING → id ∉ w'.queue ∧ w'.job id = some
      { job with
        state := some .CANCELLED
        updatedAt := some w.clock
        error := "Cancelled with plan run"
        cancelRequested := true }
  restoring : ∀ id ∈ run.jobIdsByGroup.flatten, ∀ job, w.job id = some job →
    job.stateOrPending = .RESTORING →
      w'.job id = some { job with cancelRequested := true, updatedAt := some w.clock }
  terminal : ∀ id ∈ run.jobIdsByGroup.flatten, ∀ job, w.job id = some job →
    job.stateOrPending.IsTerminal = true → w'.job id = some job
  unlisted : ∀ id ∉ run.jobIdsByGroup.flatten, w'.job id = w.job id
  queue : w'.queue = w.queue.filter fun id => ¬ (id ∈ run.jobIdsByGroup.flatten ∧ w.Awaits id)
  record : ∃ run', w'.run run.id = some run' ∧ run'.status = .CANCELLED ∧
    run'.pendingGroupRows = some []
  inactive : run.id ∉ w'.active
  quiet : ∀ w₁ w₂ out, Onwards cfg run.id w' w₁ →
    Ends environment (advancePlanRuns cfg enqueueRestores) w₁ out w₂ →
      w₁.Writes (Job.NotOf run.id) w₂

/-- The jobs of the run after its cancellation. -/
private theorem cancelsRun_of_settled {ended run' : PlanRun} {w₁ : World}
    (hjobs : w.CancelsJobs run.jobIdsByGroup.flatten w₁) (hbeside : SettledBeside w₁ ended run' w')
    (hkeyed : w'.Keyed) (hid : ended.id = run.id) (hstatus : ended.status = .CANCELLED)
    (hrows : ended.pendingGroupRows = some []) : w.CancelsRun cfg run w' := by
  have hjob (id : Uuid) : w'.job id = if id ∈ run.jobIdsByGroup.flatten
      then (w.job id).map (Job.runCancelled w.clock) else w.job id := by
    rw [World.job, hbeside.jobs_eq]
    exact hjobs.job_eq id
  have hlisted {id : Uuid} (hmem : id ∈ run.jobIdsByGroup.flatten) {job : Job}
      (hold : w.job id = some job) : w'.job id = some (job.runCancelled w.clock) := by
    rw [hjob id, if_pos hmem, hold, Option.map_some]
  have hqueue := hbeside.queue_eq.trans hjobs.queue_eq
  have hended : ended.status ≠ .RUNNING := by
    rw [hstatus]
    rintro ⟨⟩
  have hstored : w'.run run.id = some run' := by
    rw [← hid, ← hbeside.settles.id]
    exact hbeside.stored
  have hover : w'.Over run.id := ⟨hkeyed, run', hstored, hbeside.settles.status ▸ hended⟩
  refine ⟨fun id hmem job hold hstate => ⟨?_, ?_⟩, fun id hmem job hold hstate => ?_,
    fun id hmem job hold hstate => ?_, fun id hmem => ?_, hqueue, ?_, ?_, ?_⟩
  · rw [hqueue, List.mem_filter]
    refine fun hqueued => of_decide_eq_true hqueued.2 ⟨hmem, ?_⟩
    rw [World.Awaits, hold, Option.map_some, hstate]
  · rw [hlisted hmem hold, Job.runCancelled_of_pending hstate]
  · rw [hlisted hmem hold, Job.runCancelled_of_restoring hstate]
  · rw [hlisted hmem hold, Job.runCancelled_of_terminal hstate]
  · rw [hjob id, if_neg hmem]
  · exact ⟨run', hstored, hbeside.settles.status.trans hstatus,
      hbeside.settles.pendingGroupRows.trans hrows⟩
  · exact hid ▸ hbeside.inactive hended
  · exact fun w₁ w₂ out honwards hends =>
      (advancePlanRuns_spares (hover.onwards honwards) hends).writes

/-- **`cancel_plan_run`** of a RUNNING run, undisturbed: the PENDING jobs of the run are CANCELLED
and leave the queue, RESTORING ones are asked to stop, everything else in jobs and queue stays as it
is, the run is CANCELLED for good, and no later tick enqueues anything for it. -/
theorem cancelPlanRun_cancels {out : Except Exn AggregatedRun} (hkeyed : w.Keyed)
    (hrun : w.run R = some run) (hstatus : run.status = .RUNNING)
    (h : Ends environment (cancelPlanRun cfg R) w out w') :
    (∃ result, out = .ok result) ∧ w.CancelsRun cfg run w' := by
  have hkeyed' := World.Over.keyed_of_ends hkeyed h
  refine h.post (Q := fun out w' => w'.Keyed → (∃ result, out = .ok result) ∧
    w.CancelsRun cfg run w') ?_ hkeyed'
  rw [cancelPlanRun, satisfies_bind, satisfies_getRun, then_ok, hrun]
  change Satisfies _ _ w (if run.status ≠ .RUNNING then _ else _)
  rw [if_neg (not_not.mpr hstatus)]
  refine (cancelJobs_cancels w _).bind ?_ ?_
  · rintro stats w₁ ⟨-, hjobs⟩
    rw [satisfies_bind, satisfies_utcNow]
    intro n
    rw [then_ok, satisfies_bind, satisfies_savePlanRun, then_ok]
    refine (cancelled_settles w₁ _ _).mono ?_
    rintro out w' ⟨hok, run', hbeside⟩ hkeyed'
    exact ⟨hok, cancelsRun_of_settled hjobs hbeside hkeyed' rfl rfl rfl⟩
  · rintro e w₁ ⟨⟨stats, hnever⟩, -⟩
    cases hnever

/-- A run with a job in each state but one, and a group that is still to be enqueued. -/
def mixedRun : PlanRun :=
  { id := 1
    planId := 0
    status := .RUNNING
    locationId := 0
    node := "pve"
    nodes := ["pve"]
    storage := "local"
    vmidStart := 100
    groupIds := [0, 1]
    jobIdsByGroup := [[10, 11, 12], []]
    pendingGroupRows := some [[], [
      { backupId := "b", vmid := some 100, pveStorage := "pbs", voltail := "vm/100/t" }]] }

/-- A world that stores the run and its jobs, and has other jobs in the queue. -/
def mixedRunWorld : World :=
  { runs := AList.insert 1 mixedRun ∅
    active := [1]
    nextUuid := 30
    jobs := (((AList.insert 10 { state := some .PENDING, planRunId := some 1 } ∅).insert 11
      { state := some .RESTORING, planRunId := some 1 }).insert 12
      { state := some .COMPLETED, planRunId := some 1 }).insert 20 { state := some .PENDING }
    queue := [20, 10, 21] }

theorem cancelPlanRun_cancels_mixed :
    ∃ w', mixedRunWorld.CancelsRun {} mixedRun w' ∧ w'.queue = [20, 21] := by
  have hkeyed : mixedRunWorld.Keyed := by
    intro id run h
    by_cases hid : id = 1
    · subst hid
      exact Option.some.inj h ▸ rfl
    · cases (show mixedRunWorld.run id = none from AList.lookup_insert_ne hid).symm.trans h
  have hrun : (run environment [] (cancelPlanRun {} 1) mixedRunWorld).map (fun r => r.2.queue) =
      some [20, 21] := by decide +kernel
  obtain ⟨out, w', hends, hqueue⟩ := exists_ends_of_run hrun
  exact ⟨w', (cancelPlanRun_cancels hkeyed rfl rfl hends).2, hqueue⟩

end RestoreEngine
