import RestoreEngine.Effects.History
import RestoreEngine.Model.Footprints
import RestoreEngine.Model.Queue
import RestoreEngine.Plans.Footprint
import RestoreEngine.Protocols.Rules

/-!
# The pause flag and the claims of workers

An iteration of the worker reads the pause flag once, at its start, and claims a job at its end.
Between the two lie the ticks and the taking of a slot. A queue that is paused in the meantime
loses a job to the worker (`claimed_while_paused`). As long as the flag is never set while an
iteration is on its way from the one to the other, jobs leave a paused queue by its stop only
(`pause_holds`).
-/

namespace RestoreEngine

open Effects Prog Program

/-! ### Those who use the queue -/

/-- Who uses the queue. -/
inductive QueueActor
  /-- An iteration of a worker, with the limit that it reads. -/
  | iteration (limit : ℤ)
  /-- `set_queue_paused`. -/
  | pause (paused : Bool)
  /-- `drain_pending_jobs`. -/
  | drain (fuel : ℕ)
  /-- `enqueue_restores`. -/
  | enqueue (req : EnqueueRequest)

namespace QueueActor

/-- What the actor does. -/
def program (cfg : Config) (mt : Matching) (polls : ℕ) : QueueActor → Prog Unit
  | iteration limit => workerIteration cfg mt polls limit
  | pause paused => setQueuePaused paused
  | drain fuel => do
    let _ ← drainPendingJobs fuel
    return ()
  | enqueue req => do
    let _ ← enqueueRestores req
    return ()

/-- The actor stops the queue. -/
def Drains : QueueActor → Bool
  | drain _ => true
  | _ => false

/-- The cap on the slots that the actor takes. -/
def cap : QueueActor → ℤ
  | iteration limit => max 1 limit
  | _ => 1

end QueueActor

/-- **The protocol of the queue**: jobs are claimed by those who have found the flag clear and have
got their slot since, and taken by those who stop the queue. The view tells whether a claim may
follow. -/
def claimProtocol (actor : QueueActor) : Protocol commands Bool where
  observe m o r :=
    match o, r with
    | .getPaused, r => !r
    | .incrSlots, r => m && decide (r ≤ actor.cap)
    | .blpop, _ => false
    | _, _ => m
  Permits m o :=
    match o with
    | .blpop => m = true
    | .lpop => actor.Drains = true
    | _ => True

/-! ### What has happened to the queue -/

section History

variable {ι : Type} [DecidableEq ι] (actors : ι → QueueActor)

/-- The flag after a command. -/
def Op.flagAfter (paused : Bool) : Op → Bool
  | setPaused b => b
  | _ => paused

/-- The flag after a history. -/
def pausedAfter (paused : Bool) (h : List (ι × Event commands)) : Bool :=
  h.foldl (fun b e => e.2.op.flagAfter b) paused

/-- The event takes a job id from the queue. -/
def takesJob (e : Event commands) : Bool :=
  match e.op, e.res with
  | .blpop, r | .lpop, r => r.isSome
  | _, _ => false

/-- Those who take job ids from the queue while the flag is set. -/
def takersWhilePaused (paused : Bool) : List (ι × Event commands) → List ι
  | [] => []
  | e :: h =>
    (if paused && takesJob e.2 then [e.1] else []) ++
      takersWhilePaused (e.2.op.flagAfter paused) h

/-- The actor has found the flag clear, and may still claim a job. -/
def aboutToClaim (i : ι) (h : List (ι × Event commands)) : Bool :=
  (claimProtocol (actors i)).viewOf false i h

/-- The command sets the flag. -/
def Op.setsPause : Op → Bool
  | setPaused b => b
  | _ => false

/-- **The flag is set only when nobody is about to claim a job.** -/
def PausesBetween : StepCondition commands ι := fun h e =>
  e.2.op.setsPause = true → ∀ i, aboutToClaim actors i h = false

variable {actors}

omit [DecidableEq ι] in
private theorem pausedAfter_append {paused : Bool} {h : List (ι × Event commands)}
    {e : ι × Event commands} :
    pausedAfter paused (h ++ [e]) = e.2.op.flagAfter (pausedAfter paused h) := by
  rw [pausedAfter, List.foldl_append]
  rfl

omit [DecidableEq ι] in
private theorem mem_takers_append {paused : Bool} {h : List (ι × Event commands)}
    {e : ι × Event commands} {i : ι} (hi : i ∈ takersWhilePaused paused (h ++ [e])) :
    i ∈ takersWhilePaused paused h ∨
      i = e.1 ∧ takesJob e.2 = true ∧ pausedAfter paused h = true := by
  induction h generalizing paused with
  | nil =>
    rw [List.nil_append, takersWhilePaused, takersWhilePaused, List.append_nil] at hi
    split_ifs at hi with htaken
    · rw [Bool.and_eq_true] at htaken
      exact .inr ⟨List.mem_singleton.mp hi, htaken.2, htaken.1⟩
    · exact (List.not_mem_nil hi).elim
  | cons e' h ih =>
    rw [List.cons_append, takersWhilePaused] at hi
    rw [takersWhilePaused]
    rcases List.mem_append.mp hi with hi | hi
    · exact .inl (List.mem_append_left _ hi)
    · exact (ih hi).imp_left (List.mem_append_right _)

end History

/-! ### Keeping to the protocol -/

section Protocol

variable {cfg : Config} {mt : Matching} {polls : ℕ} {actor : QueueActor} {m : Bool} {α : Type}

/-- The command has nothing to do with claiming jobs. -/
def Op.SparesClaims : Op → Prop
  | blpop | lpop | getPaused | incrSlots => False
  | _ => True

private theorem spares_kept {p : Prog α} (hp : p.Only Op.SparesClaims) :
    Satisfies (claimProtocol actor).machine (fun _ m' => m' = m) m p := by
  refine onProtocol_of_only hp (fun o ho => ?_) fun o r ho => ?_
  · cases o <;> first | exact trivial | exact ho.elim
  · cases o <;> first | rfl | exact ho.elim

/-- What has to do with plans claims no jobs. -/
private theorem KeepsPlans.sparesClaims {p : Prog α} {Q : α → Prop}
    (hp : KeepsPlans (fun _ => True) p Q) : p.Only Op.SparesClaims := by
  refine Satisfies.only hp (fun s o ho => ?_) fun s o r ho => ⟨(), ?_⟩
  · cases o <;> first | exact trivial | exact ho.elim
  · cases o <;> first | exact trivial | exact fun _ _ => trivial

private theorem applyCheckResult_keepsPlans {plan : Plan} {check : Check} :
    KeepsPlans (fun _ => True) (applyCheckResult cfg plan check) := by
  refine .seq (.setPlan trivial) fun _ => .seq (.of_only saveReport_besides) fun rep => ?_
  exact .seq (.setPlan trivial) fun _ => .ret trivial

private theorem checkDue_keepsPlans {plan : Plan} :
    KeepsPlans (fun _ => True) (checkDue cfg mt plan) := by
  refine .seq (KeepsPlans.tried ?_) fun out => ?_
  · refine .seq (.of_only (readinessCheck_asks.mono fun _ ho => ho.besidesPlans)) fun check => ?_
    exact .seq applyCheckResult_keepsPlans fun _ => .ret trivial
  · cases out with
    | ok result => exact .ret trivial
    | error exc =>
      refine .seq (.of_only (only_perform.mpr trivial)) fun now => ?_
      exact .seq applyCheckResult_keepsPlans fun _ => .ret trivial

private theorem tickPlanReadiness_keepsPlans :
    KeepsPlans (fun _ => True) (tickPlanReadiness cfg mt) := by
  rw [tickPlanReadiness, map_eq_bind]
  refine .seq (.ite (fun _ => .ret trivial) fun _ => ?_) fun _ => .ret trivial
  refine .seq (listPlans_keepsPlans.mono fun _ _ => trivial) fun plans => ?_
  refine .seq (.of_only (only_perform.mpr trivial)) fun now => ?_
  refine .seq (.of_only only_ofExcept) fun due => ?_
  induction due with
  | nil => exact .ret trivial
  | cons plan rest ih => exact .seq checkDue_keepsPlans fun _ => .seq ih fun _ => .ret trivial

private theorem runJob_sparesClaims {id : Uuid} : (runJob cfg polls id).Only Op.SparesClaims := by
  refine runJob_only.mono fun o ho => ?_
  rcases ho with ho | ⟨node, p, rfl⟩ | ⟨node, v, rfl⟩
  · cases o <;> first | exact trivial | exact ho.elim
  · trivial
  · trivial

private theorem releaseSlot_sparesClaims : releaseSlot.Only Op.SparesClaims :=
  Only.bind (only_perform.mpr trivial) fun _ =>
    Only.ite (fun _ => only_perform.mpr trivial) fun _ => only_ret

/-- The claim at the end of an iteration, which has found the flag clear. -/
private theorem workerTurn_onProtocol {limit : ℤ} :
    Satisfies (claimProtocol (.iteration limit)).machine (fun _ _ => True) true
      (workerTurn cfg polls limit) := by
  rw [workerTurn, withSlot, satisfies_bind, tryAcquireSlot, satisfies_bind, onProtocol_issue]
  refine ⟨trivial, fun n => ?_⟩
  rw [then_ok]
  refine Satisfies.ite (fun _ => ?_) fun hle => ?_
  · rw [satisfies_bind, onProtocol_issue]
    refine ⟨trivial, fun n' => ?_⟩
    rw [then_ok]
    refine satisfies_ret.mpr ?_
    rw [then_ok, if_neg Bool.false_ne_true]
    exact satisfies_ret.mpr trivial
  · refine satisfies_ret.mpr ?_
    rw [then_ok, if_pos rfl, satisfies_bind, satisfies_attempt, claimJob, satisfies_bind]
    have hslot : (claimProtocol (.iteration limit)).observe true .incrSlots n = true :=
      (Bool.true_and _).trans (decide_eq_true (not_lt.mp hle))
    refine (onProtocol_issue .blpop).mpr ⟨hslot, fun claimed => ?_⟩
    rw [then_ok]
    have hrest : ∀ (out : Except Exn Unit) (m' : Bool),
        Then (claimProtocol (.iteration limit)).machine (fun _ _ => True)
          (fun out => do
            releaseSlot
            Program.ofExcept out) (.ok out) m' := by
      intro out m'
      rw [then_ok]
      exact (spares_kept (Only.bind releaseSlot_sparesClaims fun _ => only_ofExcept)).mono
        fun _ _ _ => trivial
    cases claimed with
    | none => exact satisfies_ret.mpr (hrest _ _)
    | some id => exact (spares_kept runJob_sparesClaims).mono fun out m' _ => hrest out m'

private theorem workerIteration_onProtocol {limit : ℤ} :
    Satisfies (claimProtocol (.iteration limit)).machine (fun _ _ => True) m
      (workerIteration cfg mt polls limit) := by
  rw [workerIteration, isQueuePaused, satisfies_bind]
  refine (onProtocol_issue .getPaused).mpr ⟨trivial, fun paused => ?_⟩
  rw [then_ok]
  refine Satisfies.ite (fun _ => satisfies_ret.mpr trivial) fun hclear => ?_
  have hview : (claimProtocol (.iteration limit)).observe m .getPaused paused = true := by
    rw [Bool.not_eq_true] at hclear
    rw [hclear]
    rfl
  rw [hview]
  -- the ticks claim no jobs
  have htick : ∀ {α : Type} {p : Prog α} {f : Except Exn α → Prog Unit},
      KeepsPlans (fun _ => True) p → (∀ out, Satisfies (claimProtocol (.iteration limit)).machine
        (fun _ _ => True) true (f out)) →
      Satisfies (claimProtocol (.iteration limit)).machine (fun _ _ => True) true
        (p.attempt >>= f) := by
    intro α p f hp hf
    refine Satisfies.bind (spares_kept hp.sparesClaims.attempt) ?_ fun _ _ _ => trivial
    rintro out m' rfl
    exact hf out
  refine htick (advancePlanRuns_keepsPlans (fun _ _ _ _ => trivial) enqueueRestores_besides)
    fun _ => ?_
  refine htick tickPlanReadiness_keepsPlans fun _ => ?_
  refine htick (tickScheduledPlanRuns_keepsPlans (fun _ _ _ _ => trivial) (readers_besidePlans mt))
    fun _ => ?_
  exact workerTurn_onProtocol

/-- The command claims no job as the worker does. -/
def Op.SparesBlpop : Op → Prop
  | blpop => False
  | _ => True

private theorem cancelByStop_sparesBlpop {id : Uuid} : (cancelByStop id).Only Op.SparesBlpop :=
  only_perform.mpr trivial

private theorem emptyQueue_sparesBlpop (fuel : ℕ) : (emptyQueue fuel).Only Op.SparesBlpop := by
  induction fuel with
  | zero => exact Only.bind (only_perform.mpr trivial) nofun
  | succ fuel ih =>
    rw [emptyQueue]
    refine Only.bind (only_perform.mpr trivial) fun claimed => ?_
    cases claimed with
    | none => exact only_ret
    | some id =>
      refine Only.bind (only_perform.mpr trivial) fun data => Only.ite (fun _ => ?_) fun _ => ih
      exact Only.bind cancelByStop_sparesBlpop fun _ => Only.bind ih fun _ => only_ret

private theorem sweepPending_sparesBlpop (ids cancelled : List Uuid) :
    (sweepPending cancelled ids).Only Op.SparesBlpop := by
  rw [sweepPending]
  induction ids generalizing cancelled with
  | nil => exact only_ret
  | cons id rest ih =>
    rw [sweepKeys]
    refine Only.bind (only_perform.mpr trivial) fun data => Only.ite (fun _ => ?_) fun _ => ih _
    exact Only.bind cancelByStop_sparesBlpop fun _ => ih _

/-- The stop of the queue takes jobs from it. -/
private theorem drainPendingJobs_onProtocol {fuel : ℕ} :
    Satisfies (claimProtocol (.drain fuel)).machine (fun _ _ => True) m
      (drainPendingJobs fuel) := by
  have hspares : (drainPendingJobs fuel).Only Op.SparesBlpop :=
    Only.bind (only_perform.mpr trivial) fun _ => Only.bind (emptyQueue_sparesBlpop fuel) fun _ =>
      Only.bind (only_perform.mpr trivial) fun _ => sweepPending_sparesBlpop _ _
  refine hspares.satisfies (I := fun _ => True) trivial (fun m o ho _ => ?_)
    fun _ _ _ _ _ _ _ => trivial
  cases o <;> first | exact trivial | exact ho.elim | exact rfl

private theorem program_onProtocol :
    Satisfies (claimProtocol actor).machine (fun _ _ => True) false
      (actor.program cfg mt polls) := by
  cases actor with
  | iteration limit => exact workerIteration_onProtocol
  | pause paused =>
    have hspares : (setQueuePaused paused).Only Op.SparesClaims := only_perform.mpr trivial
    exact (spares_kept hspares).mono fun _ _ _ => trivial
  | drain fuel =>
    rw [QueueActor.program]
    refine Satisfies.bind drainPendingJobs_onProtocol (fun ids m' _ => ?_) fun _ _ _ => trivial
    exact satisfies_ret.mpr trivial
  | enqueue req =>
    have hspares : (enqueueRestores req).Only Op.SparesClaims :=
      (KeepsPlans.of_only (enqueueRestores_besides req)).sparesClaims
    exact (spares_kept (Only.bind hspares fun _ => only_ret)).mono fun _ _ _ => trivial

end Protocol

/-! ### The run -/

section Run

variable {ι : Type} [DecidableEq ι] {actors : ι → QueueActor} {cfg : Config} {mt : Matching}
  {polls : ℕ} {w₀ w w' : World} {h : List (ι × Event commands)} {v : ι → Bool}
  {p : ι → Prog Unit}

/-- **The invariant.** While the flag is set, nobody is about to claim a job. -/
private structure Quiet (actors : ι → QueueActor) (paused : Bool) (h : List (ι × Event commands))
    (v : ι → Bool) (w : World) : Prop where
  flag : w.paused = pausedAfter paused h
  views : ∀ i, v i = aboutToClaim actors i h
  quiet : w.paused = true → ∀ i, v i = false
  takers : ∀ i ∈ takersWhilePaused paused h, (actors i).Drains = true

private theorem Quiet.step {paused : Bool} {i : ι} {o : Op} {a : Answer} {r : o.Res}
    (hinv : Quiet actors paused h v w) (hpermits : (claimProtocol (actors i)).Permits (v i) o)
    (hw : environment o a w = some (r, w')) (hcond : PausesBetween actors h (i, ⟨o, r⟩)) :
    Quiet actors paused (h ++ [(i, ⟨o, r⟩)])
      (Function.update v i ((claimProtocol (actors i)).observe (v i) o r)) w' := by
  have hflag : w'.paused = o.pausedAfter w := (after_step hw).paused
  have hviews : ∀ j, Function.update v i ((claimProtocol (actors i)).observe (v i) o r) j =
      aboutToClaim actors j (h ++ [(i, ⟨o, r⟩)]) := by
    intro j
    rw [aboutToClaim, Protocol.viewOf_append]
    by_cases hj : j = i
    · subst hj
      rw [Function.update_self, if_pos rfl, hinv.views]
      rfl
    · rw [Function.update_of_ne hj, if_neg (Ne.symm hj), hinv.views]
      rfl
  refine ⟨?_, hviews, fun hpaused j => ?_, fun j hj => ?_⟩
  · rw [pausedAfter_append, ← hinv.flag, hflag]
    cases o <;> rfl
  · by_cases hset : o.setsPause = true
    · have hkept : (claimProtocol (actors i)).observe (v i) o r = v i := by
        cases o <;> first | rfl | cases hset
      rw [hkept, Function.update_eq_self, hinv.views]
      exact hcond hset j
    · -- the flag was set before
      have hbefore : w.paused = true := by
        rw [hflag] at hpaused
        cases o <;> first | exact hpaused | exact absurd hpaused hset
      by_cases hj : j = i
      · subst hj
        rw [Function.update_self, hinv.quiet hbefore j]
        cases o with
        | getPaused =>
          have hpair : (w.paused, w) = (r, w') := Option.some.inj hw
          obtain ⟨rfl, -⟩ := Prod.mk.inj hpair
          exact congrArg Bool.not hbefore
        | _ => rfl
      · rw [Function.update_of_ne hj]
        exact hinv.quiet hbefore j
  · rcases mem_takers_append hj with hj | ⟨heq, htakes, hpaused⟩
    · exact hinv.takers j hj
    · -- a taker is one that stops the queue, or has found the flag clear
      obtain rfl : j = i := heq
      rw [← hinv.flag] at hpaused
      cases o with
      | blpop =>
        have hclaim : v j = true := hpermits
        rw [hinv.quiet hpaused j] at hclaim
        cases hclaim
      | lpop => exact hpermits
      | _ => cases htakes

/-- **A paused queue holds its jobs**, as long as it is paused only when nobody is about to claim
one: job ids leave it by its stop only. -/
theorem pause_holds
    (hrun : Interleaved environment (PausesBetween actors)
      (fun i => (actors i).program cfg mt polls) w₀ h p w) :
    ∀ i ∈ takersWhilePaused w₀.paused h, (actors i).Drains = true := by
  have hinit : Quiet actors w₀.paused [] (fun _ => false) w₀ :=
    ⟨rfl, fun _ => rfl, fun _ _ => rfl, fun _ hi => (List.not_mem_nil hi).elim⟩
  obtain ⟨v, hinv⟩ := hrun.invariant (fun i => claimProtocol (actors i)) (fun _ _ _ => True)
    (Quiet actors w₀.paused) (fun _ => program_onProtocol.guarded) hinit
    fun _ _ _ _ _ _ _ _ hinv hpermits hw hcond => ⟨trivial, hinv.step hpermits hw hcond⟩
  exact hinv.takers

end Run

/-! ### A claim from a paused queue -/

/-- A world with a job in the queue. -/
private def queuedWorld : World where
  jobs := (∅ : AList fun _ : Uuid => Job).insert 7 { state := some .PENDING }
  queue := [7]

/-- A worker, and an operator who pauses the queue and resumes it. -/
private def pausers : Fin 4 → QueueActor
  | 0 => .iteration 2
  | 1 => .pause true
  | 2 => .pause false
  | 3 => .iteration 2

private abbrev pauserPrograms : Fin 4 → Prog Unit := fun i => (pausers i).program {} .unused 0

/-- The steps of the actors, all of whose requests are carried out. -/
private def stepsOf (steps : List (Fin 4)) : List (Fin 4 × Answer) := steps.map fun i => (i, .ok)

/-- The worker finds the flag clear, the operator sets it, and the worker claims the job. -/
theorem claimed_while_paused : ∃ h p w,
    Interleaved environment (fun _ _ => True) pauserPrograms queuedWorld h p w ∧
      ¬ ∀ i ∈ takersWhilePaused queuedWorld.paused h, (pausers i).Drains = true := by
  have hshown : (interleave environment (fun _ _ => true)
      (stepsOf ([0, 1] ++ List.replicate 7 0)) [] pauserPrograms queuedWorld).any
        (fun end_ => takersWhilePaused queuedWorld.paused end_.1 == [0]) = true := by
    decide +kernel
  obtain ⟨h, p, w, hrun, hend⟩ := exists_interleaved (fun _ _ _ => trivial) hshown
  refine ⟨h, p, w, hrun, fun hdrains => ?_⟩
  rw [beq_iff_eq] at hend
  have htaker := hdrains 0 (hend ▸ List.mem_singleton_self 0)
  cases htaker

/-- An iteration during the pause claims nothing, and one after it claims the job. -/
theorem pause_holds_resumed : ∃ h p w,
    Interleaved environment (PausesBetween pausers) pauserPrograms queuedWorld h p w ∧
      w.queue = [] ∧ ∀ i ∈ takersWhilePaused queuedWorld.paused h, (pausers i).Drains = true := by
  let check : List (Fin 4 × Event commands) → Fin 4 × Event commands → Bool := fun h e =>
    !e.2.op.setsPause || decide (∀ i, aboutToClaim pausers i h = false)
  have hcheck : ∀ h e, check h e = true → PausesBetween pausers h e := by
    intro h e hpass hset
    simpa [check, hset] using hpass
  have hshown : (interleave environment check (stepsOf ([1, 0, 2] ++ List.replicate 8 3)) []
      pauserPrograms queuedWorld).any (fun end_ => end_.2.2.queue == []) = true := by
    decide +kernel
  obtain ⟨h, p, w, hrun, hend⟩ := exists_interleaved hcheck hshown
  exact ⟨h, p, w, hrun, beq_iff_eq.mp hend, pause_holds hrun⟩

end RestoreEngine
