import RestoreEngine.Effects.Ledger
import RestoreEngine.Jobs.Isolation
import RestoreEngine.Model.Changes
import RestoreEngine.Model.Slots

/-!
# How jobs end

A worker that runs a job leaves it COMPLETED, FAILED or CANCELLED, whatever the services it calls
reply and whenever the operator asks to cancel the job, and gives its slot back once
(`job_ends`). What has to go right before a job is COMPLETED is told by `Succeeded`, in terms of
the replies that the worker got.
-/

namespace RestoreEngine

open Effects Prog Program

variable {cfg : Config} {polls : ℕ} {id : Uuid} {data : Job} {node upid : String} {vmid : ℤ}
  {α : Type}

/-! ### The hash of a job while a worker runs it -/

/-- The operator may have asked to cancel the job in the meantime. -/
def Job.MayCancel (j j' : Job) : Prop := j' = j ∨ j' = { j with cancelRequested := true }

/-- **The hash of the job `id`** as the worker sees it: Redis serves the worker's commands, and
apart from the worker only the operator writes to the hash, by a request to cancel the job. All
other replies are arbitrary. -/
def jobHash (id : Uuid) : Machine commands Job where
  Permits _ _ := True
  Moves j o r j' := ∃ j₁, j.MayCancel j₁ ∧
    match o, r with
    | .hgetall i, r => (i = id → r = some j₁) ∧ j' = j₁
    | .hset i f, _ | .hsetLrem i f, _ => if i = id then ∃ now, j' = f now j₁ else j' = j₁
    | _, _ => j' = j₁

/-! ### What has to go right -/

/-- The task has ended, with the exit status OK or an empty one. -/
def TaskEndedOk (px : Client) (node upid : String) (h : List (Event commands)) : Prop :=
  ∃ status : TaskStatus, (⟨.taskStatus px node upid, .ok (some status)⟩ : Event commands) ∈ h ∧
    Text.lower status.status = "stopped" ∧
      (status.exitstatus = "" ∨ Text.lower status.exitstatus = "ok")

/-- The restore was submitted as the job says, and its task has ended well. -/
def RestoreEndedOk (id : Uuid) (data : Job) (node : String) (vmid : ℤ)
    (h : List (Event commands)) : Prop :=
  ∃ (params : RestoreParams) (upid : String), params.vmid = vmid ∧ params.archive = data.archive ∧
    (⟨.qemuRestore (.job id) node params, .ok (some upid)⟩ : Event commands) ∈ h ∧
      TaskEndedOk (.job id) node upid h

/-- The start task that a start request has returned, if any. -/
def startUpid (reply : Option String) : Option String := (reply.map Text.strip).filter (· ≠ "")

/-- The guest was started, and its start task, if there is one, has ended well. -/
def StartEndedOk (id : Uuid) (node : String) (vmid : ℤ) (h : List (Event commands)) : Prop :=
  ∃ reply : Option String,
    (⟨.qemuStart (.job id) node vmid, .ok reply⟩ : Event commands) ∈ h ∧
      ∀ upid, startUpid reply = some upid → TaskEndedOk (.job id) node upid h

/-- The guest of the job is to be powered on. -/
def Job.PowersOn (data : Job) : Prop :=
  data.powerOn = true ∨ data.liveRestore = true ∨ 0 < data.qgaWaitSec

/-- **The job has succeeded**: what the worker was told on the way, and what it left in the
hash. -/
structure Succeeded (id : Uuid) (data : Job) (node : String) (vmid : ℤ)
    (h : List (Event commands)) (final : Job) : Prop where
  placed : placement data = .ok (node, vmid)
  restored : RestoreEndedOk id data node vmid h
  marked : final.managedMarked = "1"
  isolated : data.Isolates → Isolated id data h
  started : data.PowersOn → data.liveRestore = false → StartEndedOk id node vmid h
  answered : 0 < data.qgaWaitSec →
    (⟨.agentPing (.job id) node vmid, true⟩ : Event commands) ∈ h
  reached : data.PowersOn → Text.strip data.httpCheckUrl ≠ "" → ∃ code : ℤ, code < 400 ∧
    (⟨.httpGet (Text.strip data.httpCheckUrl), .ok code⟩ : Event commands) ∈ h

/-- The command gives a slot back. -/
def Op.releases : Op → Bool
  | decrSlots => true
  | _ => false

/-- How often a slot was given back. -/
def releases (h : List (Event commands)) : ℕ := h.countP fun e => e.op.releases

/-! ### Rules -/

/-- The hash of the job and the trace so far. -/
private abbrev Ledger : Type := Job × List (Event commands)

/-- What a part of the worker yields. -/
private abbrev Works (id : Uuid) (s : Ledger) (p : Prog α) (P : α → Ledger → Prop) : Prop :=
  Yields (jobHash id).recording s p P

variable {s : Ledger} {P : α → Ledger → Prop}

private theorem Job.MayCancel.state {j j' : Job} (h : j.MayCancel j') : j'.state = j.state := by
  rcases h with rfl | rfl <;> rfl

private theorem Job.MayCancel.managedMarked {j j' : Job} (h : j.MayCancel j') :
    j'.managedMarked = j.managedMarked := by
  rcases h with rfl | rfl <;> rfl

/-- The command does not write to a job hash. -/
def Op.SparesHash : Op → Prop
  | hset _ _ | hsetLrem _ _ => False
  | _ => True

private theorem mayCancel_of_spares {o : Op} {r : o.Res} {j j' : Job} (ho : o.SparesHash)
    (hmove : (jobHash id).Moves j o r j') : j.MayCancel j' := by
  obtain ⟨j₁, hj₁, hmove⟩ := hmove
  cases o <;> first | exact ho.elim | exact hmove ▸ hj₁ | exact hmove.2 ▸ hj₁

/-- The command leaves the mark of ownership in a job hash alone. -/
def Op.KeepsMark : Op → Prop
  | hset _ f | hsetLrem _ f => ∀ now j, (f now j).managedMarked = j.managedMarked
  | _ => True

private theorem works_keepsMark {p : Prog α} (hp : p.Only Op.KeepsMark) :
    Works id s p fun _ s' => s'.1.managedMarked = s.1.managedMarked := by
  refine hp.yields (A := (jobHash id).recording)
    (I := fun s' : Ledger => s'.1.managedMarked = s.1.managedMarked) rfl (fun _ _ _ => trivial) ?_
  rintro ⟨j, h⟩ o r ⟨j', h'⟩ ho hmark ⟨hmove, -⟩
  refine Eq.trans ?_ hmark
  by_cases hspares : o.SparesHash
  · exact (mayCancel_of_spares hspares hmove).managedMarked
  · obtain ⟨j₁, hj₁, hmove⟩ := hmove
    cases o with
    | hset i f | hsetLrem i f =>
      dsimp only at hmove
      split_ifs at hmove
      · obtain ⟨now, rfl⟩ := hmove
        exact (ho now j₁).trans hj₁.managedMarked
      · exact hmove ▸ hj₁.managedMarked
    | _ => exact absurd trivial hspares

/-- A command that does not write to the hash. -/
private theorem works_issue (o : Op) {P : o.Res → Ledger → Prop} (ho : o.SparesHash)
    (hP : ∀ r j', s.1.MayCancel j' → P r (j', s.2 ++ [⟨o, r⟩])) : Works id s (issue o) P := by
  refine yields_perform trivial ?_
  rintro r ⟨j', h'⟩ ⟨hmove, rfl⟩
  exact hP r j' (mayCancel_of_spares ho hmove)

/-- A write to the hash. -/
private theorem works_hset {f : Instant → Job → Job} {P : Unit → Ledger → Prop}
    (hP : ∀ now j', s.1.MayCancel j' → P () (f now j', s.2 ++ [⟨.hset id f, ()⟩])) :
    Works id s (hset id f) P := by
  refine @yields_perform commands Exn Ledger (jobHash id).recording s (.hset id f) P trivial ?_
  rintro r ⟨j', h'⟩ ⟨⟨j₁, hj₁, hmove⟩, rfl⟩
  dsimp only at hmove
  rw [if_pos rfl] at hmove
  obtain ⟨now, rfl⟩ := hmove
  exact hP now j₁ hj₁

/-- Sequencing, where the second half goes on with the trace of the first. -/
private theorem works_bind {β : Type} {p : Prog α} {f : α → Prog β} {R : β → Ledger → Prop}
    (hp : Works id s p P)
    (hf : ∀ a j' h', P a (j', s.2 ++ h') → Works id (j', s.2 ++ h') (f a) R) :
    Works id s (p >>= f) R := by
  refine hp.traced.bind ?_
  rintro a ⟨j', h'⟩ ⟨ha, h₁, rfl, -⟩
  exact hf a j' h₁ ha

/-! ### The stages of a job -/

private theorem TaskEndedOk.append {px : Client} {h : List (Event commands)}
    (htask : TaskEndedOk px node upid h) (h' : List (Event commands)) :
    TaskEndedOk px node upid (h ++ h') := by
  obtain ⟨status, hmem, hok⟩ := htask
  exact ⟨status, List.mem_append_left _ hmem, hok⟩

private theorem RestoreEndedOk.append {h : List (Event commands)}
    (hrestore : RestoreEndedOk id data node vmid h) (h' : List (Event commands)) :
    RestoreEndedOk id data node vmid (h ++ h') := by
  obtain ⟨params, upid, hvmid, harchive, hmem, htask⟩ := hrestore
  exact ⟨params, upid, hvmid, harchive, List.mem_append_left _ hmem, htask.append h'⟩

private theorem StartEndedOk.append {h : List (Event commands)}
    (hstart : StartEndedOk id node vmid h) (h' : List (Event commands)) :
    StartEndedOk id node vmid (h ++ h') := by
  obtain ⟨reply, hmem, htask⟩ := hstart
  exact ⟨reply, List.mem_append_left _ hmem, fun upid hupid => (htask upid hupid).append h'⟩

private theorem works_setState {state : RestoreState} {error : Option String} :
    Works id s (setState cfg id state error) fun _ s' =>
      s'.1.state = some state ∧ s'.1.managedMarked = s.1.managedMarked := by
  refine (works_hset (f := stateFields state error) (P := fun _ s' => s'.1.state = some state ∧
    s'.1.managedMarked = s.1.managedMarked) fun now j' hj' => ⟨rfl, hj'.managedMarked⟩).bind ?_
  rintro _ s' ⟨hstate, hmark⟩
  refine Yields.ite (fun _ => ?_) fun _ => yields_ret ⟨hstate, hmark⟩
  refine works_issue (.expire id) trivial fun r j' hj' => ⟨?_, ?_⟩
  · exact hj'.state.trans hstate
  · exact hj'.managedMarked.trans hmark

/-- Redis commands do not raise. -/
private theorem setState_returns {state : RestoreState} {error : Option String} :
    Satisfies (jobHash id).recording (fun out _ => out = .ok ()) s
      (setState cfg id state error) := by
  rw [setState, satisfies_bind]
  refine (@satisfies_perform commands Exn Ledger _ s (.hset id _) _).mpr ⟨trivial, ?_⟩
  intro r s' _
  refine then_ok.mpr (Satisfies.ite (fun _ => ?_) fun _ => satisfies_ret.mpr rfl)
  exact (@satisfies_perform commands Exn Ledger _ s' (.expire id) _).mpr
    ⟨trivial, fun _ _ _ => rfl⟩

/-- The cancel check reads the hash. -/
private theorem works_cancelRequested : Works id s (cancelRequested id) fun _ s' =>
    s'.1.managedMarked = s.1.managedMarked :=
  (works_issue (.hgetall id) (P := fun _ s' => s'.1.managedMarked = s.1.managedMarked) trivial
    fun _ _ hj' => hj'.managedMarked).bind fun _ _ hs' => yields_ret hs'

private theorem works_pollTask {onTick : List String → Prog Unit}
    (htick : ∀ lines, (onTick lines).Only Op.KeepsMark) {timeoutSec : ℤ} {deadline : Option Instant} :
    Works id s (pollTask (.job id) node upid timeoutSec deadline (cancelRequested id) onTick polls)
      fun _ s' => s'.1.managedMarked = s.1.managedMarked ∧
        TaskEndedOk (.job id) node upid s'.2 := by
  generalize hm : s.1.managedMarked = m
  induction polls generalizing s with
  | zero =>
    refine (works_issue .park (P := fun _ _ => True) trivial nofun).bind ?_
    exact fun r _ _ => nomatch r
  | succ polls ih =>
    rw [pollTask]
    refine works_bind (works_issue .utcNow (P := fun _ s' => s'.1.managedMarked = m) trivial
      fun _ _ hj' => hj'.managedMarked.trans hm) fun now j₁ h₁ hm₁ => ?_
    refine Yields.ite (fun _ => yields_raise) fun _ => ?_
    refine works_bind works_cancelRequested fun cancelled j₂ h₂ hm₂ => ?_
    refine Yields.ite (fun _ => ?_) fun _ => ?_
    · exact (works_issue (.taskStop (.job id) node upid) (P := fun _ _ => True) trivial
        fun _ _ _ => trivial).bind fun _ _ _ => yields_raise
    · refine works_bind (works_issue (.taskStatus (.job id) node upid)
        (P := fun r s' => s'.1.managedMarked = m ∧
          (⟨.taskStatus (.job id) node upid, r⟩ : Event commands) ∈ s'.2) trivial
        fun r j' hj' => ⟨hj'.managedMarked.trans (hm₂.trans hm₁),
          List.mem_append_right _ (List.mem_singleton_self _)⟩) fun r j₃ h₃ hr => ?_
      rcases r with e | _ | status
      · exact yields_raise
      · exact ih hr.1
      · refine works_bind (works_issue (.taskLog (.job id) node upid)
          (P := fun _ s' => s'.1.managedMarked = m) trivial
          fun _ _ hj' => hj'.managedMarked.trans hr.1) fun lines j₄ h₄ hm₄ => ?_
        refine works_bind (works_keepsMark (htick _).attempt) fun out j₅ h₅ hm₅ => ?_
        refine Yields.ite (fun hstopped => ?_) fun _ => ih (hm₅.trans hm₄)
        refine Yields.ite (fun _ => yields_raise) fun hexit => ?_
        refine yields_ret ⟨hm₅.trans hm₄, status, ?_, hstopped, ?_⟩
        · exact List.mem_append_left _ (List.mem_append_left _ hr.2)
        · by_contra hnot
          exact hexit (not_or.mp hnot)

private theorem works_waitForTask {onTick : List String → Prog Unit}
    (htick : ∀ lines, (onTick lines).Only Op.KeepsMark) {timeoutSec : ℤ} :
    Works id s (waitForTask (.job id) node upid timeoutSec (cancelRequested id) onTick polls)
      fun _ s' => s'.1.managedMarked = s.1.managedMarked ∧
        TaskEndedOk (.job id) node upid s'.2 := by
  rw [waitForTask]
  refine (works_issue .utcNow (P := fun _ s' => s'.1.managedMarked = s.1.managedMarked) trivial
    fun _ _ hj' => hj'.managedMarked).bind fun now s₁ hm₁ => ?_
  exact (works_pollTask htick).mono fun _ s' hs' => ⟨hs'.1.trans hm₁, hs'.2⟩

/-- A stage that the operator can cut short: it returns whether the job goes on. -/
private def OrCancelled (P : Ledger → Prop) (goesOn : Bool) (s : Ledger) : Prop :=
  (goesOn = true → P s) ∧ (goesOn = false → s.1.state = some .CANCELLED)

private theorem OrCancelled.mono {P P' : Ledger → Prop} {b : Bool} (h : OrCancelled P b s)
    (hmono : P s → P' s) : OrCancelled P' b s :=
  ⟨fun hb => hmono (h.1 hb), h.2⟩

private theorem orCancelled_true {P : Ledger → Prop} (h : P s) : OrCancelled P true s :=
  ⟨fun _ => h, (nomatch ·)⟩

private theorem orCancelled_false {P : Ledger → Prop} (h : s.1.state = some .CANCELLED) :
    OrCancelled P false s :=
  ⟨(nomatch ·), fun _ => h⟩

/-- A cancelled job is marked as such. -/
private theorem works_cancel {P : Ledger → Prop} :
    Works id s (do
      markCancelled cfg id
      return false) (OrCancelled P) :=
  works_setState.bind fun _ _ hs' => yields_ret (orCancelled_false hs'.1)

private theorem works_cancellable {wait : Prog Unit} {P : Ledger → Prop}
    (hwait : Works id s wait fun _ s' => P s') :
    Works id s (cancellable cfg id wait) (OrCancelled P) := by
  rw [cancellable]
  refine hwait.attempt.bind fun out s' hout => ?_
  split
  · exact yields_ret (orCancelled_true (hout () rfl))
  · exact works_cancel
  · exact yields_raise
  · exact yields_raise

private theorem onTick_keepsMark (lines : List String) : (onTick id lines).Only Op.KeepsMark :=
  Only.ite (fun _ => only_ret) fun _ => only_perform.mpr fun _ _ => rfl

/-- The submission of a restore. -/
private theorem works_submitRestore {archive storage : String} {liveRestore unique force : Bool}
    {bwlimit : ℤ} :
    Works id s (submitRestore (.job id) node vmid archive storage liveRestore bwlimit unique force)
      fun upid s' => ∃ params : RestoreParams, params.vmid = vmid ∧ params.archive = archive ∧
        (⟨.qemuRestore (.job id) node params, .ok (some upid)⟩ : Event commands) ∈ s'.2 := by
  simp only [submitRestore]
  generalize hparams : RestoreParams.mk _ _ _ _ _ _ _ = params
  refine (works_issue (.qemuRestore (.job id) node params)
    (P := fun r s' => (⟨.qemuRestore (.job id) node params, r⟩ : Event commands) ∈ s'.2) trivial
    fun _ _ _ => List.mem_append_right _ (List.mem_singleton_self _)).bind fun r s' hr => ?_
  rcases r with e | _ | upid
  · exact yields_raise
  · exact yields_raise
  · refine yields_ret ⟨params, ?_, ?_, hr⟩
    · rw [← hparams]
    · rw [← hparams]

private theorem works_restoreTask :
    Works id s (restoreTask cfg polls (.job id) id data node vmid)
      (OrCancelled fun s' => RestoreEndedOk id data node vmid s'.2) := by
  rw [restoreTask]
  refine works_submitRestore.bind fun upid s₁ hsubmit => ?_
  obtain ⟨params, hvmid, harchive, hmem⟩ := hsubmit
  refine (works_hset (P := fun _ s' => (⟨.qemuRestore (.job id) node params, .ok (some upid)⟩ :
    Event commands) ∈ s'.2) fun _ _ _ => List.mem_append_left _ hmem).bind fun _ s₂ hmem => ?_
  refine works_cancellable ((works_waitForTask onTick_keepsMark).traced.mono ?_)
  rintro _ ⟨j', h'⟩ ⟨⟨-, htask⟩, h, rfl, -⟩
  exact ⟨params, upid, hvmid, harchive, List.mem_append_left _ hmem, htask⟩

/-- A program of which nothing is asked. -/
private theorem works_any {p : Prog α} : Works id s p fun _ _ => True :=
  (satisfies_of_permits fun _ _ => trivial).mono fun _ _ _ _ _ => trivial

/-- The stamp is tried until it is on the guest, and then entered in the hash. -/
private theorem works_stampAttempts {planRunId : Option Uuid} (err : Option Exn) (left : ℕ) :
    Works id s (stampAttempts (.job id) id planRunId node vmid err left) fun _ s' =>
      s'.1.managedMarked = "1" := by
  induction left generalizing err s with
  | zero =>
    rw [stampAttempts]
    exact works_any.bind fun _ _ _ => yields_raise
  | succ left ih =>
    rw [stampAttempts]
    refine works_any.bind fun out s₁ _ => ?_
    cases out with
    | ok _ => exact works_hset fun _ _ _ => rfl
    | error exc => exact ih _

private theorem applyNetworkIsolation_keepsMark {mode labBridge : String} :
    (applyNetworkIsolation (.job id) node vmid mode labBridge).Only Op.KeepsMark := by
  simp only [applyNetworkIsolation]
  refine Only.ite (fun _ => only_ret) fun _ => ?_
  refine Only.bind (Only.bind (only_perform.mpr trivial) fun _ => only_ofExcept) fun _ => ?_
  refine Only.bind only_ofExcept fun _ => Only.ite (fun _ => only_ret) fun _ => ?_
  exact Only.bind (only_perform.mpr trivial) fun _ => only_ofExcept

private theorem works_isolateGuest (hplace : placement data = .ok (node, vmid)) :
    Works id s (isolateGuest (.job id) data node vmid) fun _ s' =>
      s'.1.managedMarked = s.1.managedMarked ∧ (data.Isolates → Isolated id data s'.2) := by
  simp only [isolateGuest]
  refine Yields.ite (fun _ => ?_) fun hnot => yields_ret ⟨rfl, fun hyes => absurd hyes hnot⟩
  refine (works_keepsMark applyNetworkIsolation_keepsMark).traced.attempt.bind ?_
  rintro out ⟨j', h'⟩ hout
  cases out with
  | error exc => exact yields_raise
  | ok _ =>
    obtain ⟨hmark, h, rfl, htrace⟩ := hout () rfl
    exact yields_ret ⟨hmark, fun _ =>
      ⟨node, vmid, s.2, h, [], hplace, (List.append_nil _).symm, htrace⟩⟩

/-! ### The power policy -/

private theorem works_startQemuVm :
    Works id s (startQemuVm (.job id) node vmid) fun start s' =>
      s'.1.managedMarked = s.1.managedMarked ∧ ∃ reply : Option String, start = startUpid reply ∧
        (⟨.qemuStart (.job id) node vmid, .ok reply⟩ : Event commands) ∈ s'.2 := by
  rw [startQemuVm]
  refine ((works_issue (.qemuStart (.job id) node vmid)
    (P := fun r s' => s'.1.managedMarked = s.1.managedMarked ∧
      (⟨.qemuStart (.job id) node vmid, r⟩ : Event commands) ∈ s'.2) trivial
    fun _ _ hj' => ⟨hj'.managedMarked, List.mem_append_right _ (List.mem_singleton_self _)⟩).bind
    (R := fun reply s' => s'.1.managedMarked = s.1.managedMarked ∧
      (⟨.qemuStart (.job id) node vmid, .ok reply⟩ : Event commands) ∈ s'.2) ?_).bind ?_
  · rintro r s' ⟨hmark, hmem⟩
    refine yields_ofExcept fun reply hreply => ?_
    subst hreply
    exact ⟨hmark, hmem⟩
  · rintro reply s' ⟨hmark, hmem⟩
    exact yields_ret ⟨hmark, reply, rfl, hmem⟩

private theorem works_startGuest :
    Works id s (startGuest cfg polls (.job id) id data node vmid) (OrCancelled fun s' =>
      s'.1.managedMarked = s.1.managedMarked ∧
        (data.liveRestore = false → StartEndedOk id node vmid s'.2)) := by
  rw [startGuest]
  refine Yields.ite (fun hlive => ?_) fun _ => ?_
  · exact yields_ret (orCancelled_true ⟨rfl, fun hno => by rw [hlive] at hno; cases hno⟩)
  refine works_startQemuVm.attempt.bind fun out s₁ hout => ?_
  cases out with
  | error exc => exact yields_raise
  | ok start =>
    obtain ⟨hmark₁, reply, rfl, hmem⟩ := hout start rfl
    have hawait : Works id s₁ (awaitStart cfg polls (.job id) id node (startUpid reply))
        (OrCancelled fun s' => s'.1.managedMarked = s.1.managedMarked ∧
          StartEndedOk id node vmid s'.2) := by
      cases hupid : startUpid reply with
      | none =>
        refine yields_ret (orCancelled_true ⟨hmark₁, reply, hmem, fun upid h => ?_⟩)
        rw [hupid] at h
        cases h
      | some upid =>
        refine works_cancellable ((works_waitForTask fun _ => only_ret).traced.mono ?_)
        rintro _ ⟨j', h'⟩ ⟨⟨hmark₂, htask⟩, h, rfl, -⟩
        refine ⟨hmark₂.trans hmark₁, reply, List.mem_append_left _ hmem, fun upid' h' => ?_⟩
        obtain rfl := Option.some.inj (hupid.symm.trans h')
        exact htask
    refine hawait.bind fun goesOn s₂ hs₂ => Yields.ite (fun hon => ?_) fun hoff => ?_
    · obtain ⟨hmark₂, hstart⟩ := hs₂.1 hon
      refine works_bind (works_keepsMark (only_perform.mpr fun _ _ => rfl)) fun _ j₃ h₃ hmark₃ => ?_
      exact yields_ret (orCancelled_true ⟨hmark₃.trans hmark₂, fun _ => hstart.append h₃⟩)
    · rw [Bool.not_eq_true] at hoff
      exact yields_ret (orCancelled_false (hs₂.2 hoff))

private theorem checkGuestHostname_keepsMark :
    (checkGuestHostname (.job id) id node vmid).Only Op.KeepsMark := by
  have hread : (getQemuConfig (.job id) node vmid).Only Op.KeepsMark :=
    Only.bind (only_perform.mpr trivial) fun _ => only_ofExcept
  exact Only.bind hread.attempt fun _ => Only.bind (only_perform.mpr trivial) fun _ =>
    only_perform.mpr fun _ _ => rfl

/-- The wait for the agent ends with an answer. -/
private theorem works_pollAgent {timeoutSec : ℤ} {deadline : Instant} :
    Works id s (pollAgent (.job id) node vmid timeoutSec deadline (cancelRequested id) polls)
      fun _ s' => s'.1.managedMarked = s.1.managedMarked ∧
        (⟨.agentPing (.job id) node vmid, true⟩ : Event commands) ∈ s'.2 := by
  generalize hm : s.1.managedMarked = m
  induction polls generalizing s with
  | zero =>
    refine (works_issue .park (P := fun _ _ => True) trivial nofun).bind ?_
    exact fun r _ _ => nomatch r
  | succ polls ih =>
    rw [pollAgent]
    refine works_bind works_cancelRequested fun cancelled j₁ h₁ hm₁ => ?_
    refine Yields.ite (fun _ => yields_raise) fun _ => ?_
    refine works_bind (works_issue (.agentPing (.job id) node vmid)
      (P := fun r s' => s'.1.managedMarked = m ∧
        (⟨.agentPing (.job id) node vmid, r⟩ : Event commands) ∈ s'.2) trivial
      fun r j' hj' => ⟨hj'.managedMarked.trans (hm₁.trans hm),
        List.mem_append_right _ (List.mem_singleton_self _)⟩) fun answered j₂ h₂ hr => ?_
    refine works_bind (works_issue .utcNow (P := fun _ s' => s'.1.managedMarked = m) trivial
      fun _ _ hj' => hj'.managedMarked.trans hr.1) fun now j₃ h₃ hm₃ => ?_
    refine Yields.ite (fun hanswered => ?_) fun _ => Yields.ite (fun _ => yields_raise) fun _ => ?_
    · subst hanswered
      exact yields_ret ⟨hm₃, List.mem_append_left _ hr.2⟩
    · exact ih hm₃

private theorem works_agentStep {qgaWaitSec : ℤ} :
    Works id s (agentStep cfg polls (.job id) id qgaWaitSec node vmid) (OrCancelled fun s' =>
      s'.1.managedMarked = s.1.managedMarked ∧ (0 < qgaWaitSec →
        (⟨.agentPing (.job id) node vmid, true⟩ : Event commands) ∈ s'.2)) := by
  rw [agentStep]
  refine Yields.ite (fun _ => ?_) fun hno => ?_
  · rw [agentCheck]
    have hwait : Works id s (waitForQemuAgent (.job id) node vmid qgaWaitSec (cancelRequested id)
        polls) fun _ s' => s'.1.managedMarked = s.1.managedMarked ∧
          (⟨.agentPing (.job id) node vmid, true⟩ : Event commands) ∈ s'.2 := by
      rw [waitForQemuAgent]
      refine works_bind (works_issue .utcNow
        (P := fun _ s' => s'.1.managedMarked = s.1.managedMarked) trivial
        fun _ _ hj' => hj'.managedMarked) fun started j₁ h₁ hm₁ => ?_
      refine works_pollAgent.bind fun answered s₂ hs₂ => yields_ret ⟨hs₂.1.trans hm₁, hs₂.2⟩
    refine hwait.attempt.bind fun out s₁ hout => ?_
    split
    · obtain ⟨hm₁, hmem⟩ := hout _ rfl
      refine works_bind (works_keepsMark (only_perform.mpr fun _ _ => rfl)) fun _ j₂ h₂ hm₂ => ?_
      refine works_bind (works_keepsMark checkGuestHostname_keepsMark) fun _ j₃ h₃ hm₃ => ?_
      refine yields_ret (orCancelled_true ⟨hm₃.trans (hm₂.trans hm₁), fun _ => ?_⟩)
      exact List.mem_append_left _ (List.mem_append_left _ hmem)
    · exact works_cancel
    · exact works_any.bind fun _ _ _ => yields_raise
    · exact yields_raise
  · refine (works_keepsMark checkGuestHostname_keepsMark).bind fun _ s₁ hm₁ => ?_
    exact yields_ret (orCancelled_true ⟨hm₁, fun hyes => absurd hyes hno⟩)

/-- The HTTP check of the job, if it has one, was answered below 400. -/
private def Reached (data : Job) (h : List (Event commands)) : Prop :=
  Text.strip data.httpCheckUrl ≠ "" → ∃ code : ℤ, code < 400 ∧
    (⟨.httpGet (Text.strip data.httpCheckUrl), .ok code⟩ : Event commands) ∈ h

private theorem works_httpCheck :
    Works id s (httpCheck id data) fun _ s' =>
      s'.1.managedMarked = s.1.managedMarked ∧ Reached data s'.2 := by
  simp only [httpCheck]
  refine Yields.ite (fun hnone => yields_ret ⟨rfl, fun hurl => absurd hnone hurl⟩) fun _ => ?_
  refine works_bind (works_issue (.httpGet (Text.strip data.httpCheckUrl))
    (P := fun r s' => s'.1.managedMarked = s.1.managedMarked ∧
      (⟨.httpGet (Text.strip data.httpCheckUrl), r⟩ : Event commands) ∈ s'.2) trivial
    fun r j' hj' => ⟨hj'.managedMarked, List.mem_append_right _ (List.mem_singleton_self _)⟩)
    fun r j₁ h₁ hr => ?_
  rcases r with exc | code
  · exact works_any.bind fun _ _ _ => yields_raise
  · by_cases hcode : 400 ≤ code
    · simp only [if_pos hcode]
      exact works_any.bind fun _ _ _ => yields_raise
    · simp only [if_neg hcode]
      have hentered : (hset id fun now j => { stamp now j with httpCheckOk := "1" }).Only
          Op.KeepsMark := only_perform.mpr fun _ _ => rfl
      refine (works_keepsMark hentered).traced.mono ?_
      rintro _ ⟨j', h'⟩ ⟨hm, h, rfl, -⟩
      exact ⟨hm.trans hr.1, fun _ => ⟨code, not_le.mp hcode, List.mem_append_left _ hr.2⟩⟩

/-- The power policy was followed, and the checks of a running guest have succeeded. -/
private structure Powered (id : Uuid) (data : Job) (node : String) (vmid : ℤ)
    (h : List (Event commands)) : Prop where
  started : data.PowersOn → data.liveRestore = false → StartEndedOk id node vmid h
  answered : 0 < data.qgaWaitSec →
    (⟨.agentPing (.job id) node vmid, true⟩ : Event commands) ∈ h
  reached : data.PowersOn → Reached data h

private theorem works_checkGuest :
    Works id s (checkGuest cfg polls (.job id) id data node vmid) (OrCancelled fun s' =>
      s'.1.managedMarked = s.1.managedMarked ∧ (0 < data.qgaWaitSec →
        (⟨.agentPing (.job id) node vmid, true⟩ : Event commands) ∈ s'.2) ∧
          Reached data s'.2) := by
  rw [checkGuest]
  refine works_agentStep.bind fun goesOn s₁ hs₁ => Yields.ite (fun hon => ?_) fun hoff => ?_
  · obtain ⟨hm₁, hping⟩ := hs₁.1 hon
    refine works_httpCheck.traced.bind ?_
    rintro _ ⟨j', h'⟩ ⟨⟨hm₂, hreached⟩, h, rfl, -⟩
    refine yields_ret (orCancelled_true ⟨hm₂.trans hm₁, fun hqga => ?_, hreached⟩)
    exact List.mem_append_left _ (hping (lt_max_of_lt_right hqga))
  · rw [Bool.not_eq_true] at hoff
    exact yields_ret (orCancelled_false (hs₁.2 hoff))

private theorem works_powerGuest :
    Works id s (powerGuest cfg polls (.job id) id data node vmid) (OrCancelled fun s' =>
      s'.1.managedMarked = s.1.managedMarked ∧ Powered id data node vmid s'.2) := by
  rw [powerGuest]
  refine Yields.ite (fun _ => ?_) fun hno => ?_
  · refine works_startGuest.bind fun goesOn s₁ hs₁ => Yields.ite (fun hon => ?_) fun hoff => ?_
    · obtain ⟨hm₁, hstart⟩ := hs₁.1 hon
      refine works_checkGuest.traced.mono ?_
      rintro goesOn' ⟨j', h'⟩ ⟨hs₂, h, rfl, -⟩
      refine hs₂.mono ?_
      rintro ⟨hm₂, hping, hreached⟩
      exact ⟨hm₂.trans hm₁, fun _ hlive => (hstart hlive).append h, hping, fun _ => hreached⟩
    · rw [Bool.not_eq_true] at hoff
      exact yields_ret (orCancelled_false (hs₁.2 hoff))
  · have hstays : ¬ data.PowersOn := by
      intro hon
      refine hno ?_
      rcases hon with hon | hon | hon <;> simp [hon]
    have hstop : (stopQemuVm (.job id) node vmid 60).Only Op.KeepsMark := by
      refine stopQemuVm_only.mono fun o ho => ?_
      cases o <;> first | exact trivial | exact ho.elim
    refine (works_keepsMark hstop).bind fun _ s₁ hm₁ => yields_ret (orCancelled_true ⟨hm₁, ?_⟩)
    exact ⟨fun hon => absurd hon hstays, fun hqga => absurd (.inr (.inr hqga)) hstays,
      fun hon => absurd hon hstays⟩

/-! ### The job -/

/-- The worker has come to the end of the job without an exception. -/
private def Finished (id : Uuid) (data : Job) (s : Ledger) : Prop :=
  s.1.state = some .CANCELLED ∨
    s.1.state = some .COMPLETED ∧ ∃ node vmid, Succeeded id data node vmid s.2 s.1

private theorem works_finishJob (hplace : placement data = .ok (node, vmid))
    (hrestored : RestoreEndedOk id data node vmid s.2) :
    Works id s (finishJob cfg polls (.job id) id data node vmid) fun _ s' =>
      Finished id data s' := by
  rw [finishJob]
  refine works_bind (works_stampAttempts none 3) fun _ j₁ h₁ hmark₁ => ?_
  refine works_bind (works_isolateGuest hplace) fun _ j₂ h₂ hs₂ => ?_
  refine works_bind works_powerGuest fun goesOn j₃ h₃ hs₃ => ?_
  refine Yields.ite (fun hon => ?_) fun hoff => ?_
  · obtain ⟨hmark₃, hpowered⟩ := hs₃.1 hon
    refine works_setState.traced.mono ?_
    rintro _ ⟨j₄, h'⟩ ⟨⟨hstate, hmark₄⟩, h₄, rfl, -⟩
    refine .inr ⟨hstate, node, vmid, hplace, ?_, ?_, fun hnet => ?_, fun hon hlive => ?_, ?_, ?_⟩
    · exact (((hrestored.append h₁).append h₂).append h₃).append h₄
    · exact hmark₄.trans (hmark₃.trans (hs₂.1.trans hmark₁))
    · exact ((hs₂.2 hnet).append h₃).append h₄
    · exact (hpowered.started hon hlive).append h₄
    · exact fun hqga => List.mem_append_left _ (hpowered.answered hqga)
    · intro hon hurl
      obtain ⟨code, hcode, hmem⟩ := hpowered.reached hon hurl
      exact ⟨code, hcode, List.mem_append_left _ hmem⟩
  · rw [Bool.not_eq_true] at hoff
    exact yields_ret (.inl (hs₃.2 hoff))

private theorem works_restoreGuest (hplace : placement data = .ok (node, vmid)) :
    Works id s (restoreGuest cfg polls id data node vmid) fun _ s' => Finished id data s' := by
  rw [restoreGuest]
  refine works_any.bind fun _ s₁ _ => works_restoreTask.bind fun goesOn s₂ hs₂ => ?_
  refine Yields.ite (fun hon => works_finishJob hplace (hs₂.1 hon)) fun hoff => ?_
  rw [Bool.not_eq_true] at hoff
  exact yields_ret (.inl (hs₂.2 hoff))

private theorem works_beginJob :
    Works id s (beginJob cfg polls id data) fun _ s' => Finished id data s' := by
  rw [beginJob]
  refine (yields_ofExcept (P := fun placed _ => placement data = .ok placed)
    fun _ hplaced => hplaced).bind fun placed s₁ hplace => ?_
  refine Yields.ite (fun _ => yields_raise) fun _ => ?_
  exact works_any.bind fun _ s₂ _ => works_any.bind fun _ s₃ _ => works_restoreGuest hplace

/-- What a request to cancel does not change. -/
private theorem Finished.of_mayCancel {j : Job} (hj : data.MayCancel j) (h : Finished id j s) :
    Finished id data s := by
  refine h.imp_right fun ⟨hstate, node, vmid, hdone⟩ => ⟨hstate, node, vmid, ?_⟩
  rcases hj with rfl | rfl
  · exact hdone
  · exact ⟨hdone.placed, hdone.restored, hdone.marked, hdone.isolated, hdone.started,
      hdone.answered, hdone.reached⟩

private theorem works_processJob :
    Works id s (processJob cfg polls id) fun _ s' => Finished id s.1 s' := by
  rw [processJob]
  have hread : Works id s (hgetall id) fun found _ => ∃ j, found = some j ∧ s.1.MayCancel j := by
    refine @yields_perform commands Exn Ledger (jobHash id).recording s (.hgetall id) _ trivial ?_
    rintro r s' ⟨⟨j₁, hj₁, hserved, -⟩, -⟩
    exact ⟨j₁, hserved rfl, hj₁⟩
  refine hread.bind ?_
  rintro _ s₁ ⟨j, rfl, hj⟩
  refine Yields.mono ?_ fun _ _ hdone => Finished.of_mayCancel hj hdone
  refine works_any.bind fun _ s₂ _ => Yields.ite (fun _ => ?_) fun _ => works_beginJob
  exact works_setState.mono fun _ _ hs' => .inl hs'.1

/-- The job has ended. -/
private def Ended (id : Uuid) (data : Job) (s : Ledger) : Prop :=
  s.1.state = some .FAILED ∨ Finished id data s

private theorem runJob_ended :
    Satisfies (jobHash id).recording (fun out s' => out = .ok () ∧ Ended id s.1 s') s
      (runJob cfg polls id) := by
  rw [runJob, satisfies_bind, satisfies_attempt]
  refine Satisfies.mono works_processJob fun out s₁ hout => ?_
  rw [then_ok]
  cases out with
  | ok _ => exact satisfies_ret.mpr ⟨rfl, .inr (hout () rfl)⟩
  | error exc =>
    refine (setState_returns.and works_setState).mono ?_
    rintro out s' ⟨rfl, hs'⟩
    exact ⟨rfl, .inl (hs' () rfl).1⟩

private theorem Ended.append {j j' : Job} {h : List (Event commands)} (hended : Ended id data (j, h))
    (hstate : j'.state = j.state) (hmark : j'.managedMarked = j.managedMarked)
    (h' : List (Event commands)) : Ended id data (j', h ++ h') := by
  rcases hended with hfailed | hcancelled | ⟨hcompleted, node, vmid, hdone⟩
  · exact .inl (hstate.trans hfailed)
  · exact .inr (.inl (hstate.trans hcancelled))
  · refine .inr (.inr ⟨hstate.trans hcompleted, node, vmid, hdone.placed, hdone.restored.append h',
      hmark.trans hdone.marked, fun hnet => (hdone.isolated hnet).append h', fun hon hlive =>
      (hdone.started hon hlive).append h', fun hqga => List.mem_append_left _ (hdone.answered hqga),
      fun hon hurl => ?_⟩)
    obtain ⟨code, hcode, hmem⟩ := hdone.reached hon hurl
    exact ⟨code, hcode, List.mem_append_left _ hmem⟩

/-! ### The slot -/

private theorem releases_append (h h' : List (Event commands)) :
    releases (h ++ h') = releases h + releases h' :=
  List.countP_append

/-- A job gives no slot back. -/
private theorem runJob_holds :
    Satisfies (jobHash id).recording (fun _ s' => releases s'.2 = releases s.2) s
      (runJob cfg polls id) := by
  refine runJob_only.satisfies (I := fun s' : Ledger => releases s'.2 = releases s.2) rfl
    (fun _ _ _ _ => trivial) ?_
  rintro s₁ o r s₂ ho hs₁ ⟨-, heq⟩
  have hnone : o.releases = false := by
    rcases ho with ho | ⟨node, p, rfl⟩ | ⟨node, v, rfl⟩
    · cases o <;> first | rfl | exact ho.elim
    · rfl
    · rfl
  have hzero : releases [(⟨o, r⟩ : Event commands)] = 0 := by
    simp [releases, hnone]
  rw [heq, releases_append, hzero, Nat.add_zero, hs₁]

private theorem releaseSlot_once :
    Satisfies (jobHash id).recording (fun out s' => out = .ok () ∧
      releases s'.2 = releases s.2 + 1 ∧ s'.1.state = s.1.state ∧
        s'.1.managedMarked = s.1.managedMarked) s releaseSlot := by
  rw [releaseSlot, satisfies_bind]
  refine (@satisfies_perform commands Exn Ledger _ s .decrSlots _).mpr ⟨trivial, ?_⟩
  rintro n ⟨j₁, h₁⟩ ⟨hmove, rfl⟩
  have hj₁ : s.1.MayCancel j₁ := mayCancel_of_spares (o := .decrSlots) trivial hmove
  rw [then_ok]
  refine Satisfies.ite (fun _ => ?_) fun _ => ?_
  · refine (@satisfies_perform commands Exn Ledger _ _ (.setSlots 0) _).mpr ⟨trivial, ?_⟩
    rintro u ⟨j₂, h₂⟩ ⟨hmove, rfl⟩
    have hj₂ : j₁.MayCancel j₂ := mayCancel_of_spares (o := .setSlots 0) trivial hmove
    refine ⟨rfl, ?_, hj₂.state.trans hj₁.state, hj₂.managedMarked.trans hj₁.managedMarked⟩
    rw [releases_append, releases_append]
    rfl
  · refine satisfies_ret.mpr ⟨rfl, ?_, hj₁.state, hj₁.managedMarked⟩
    exact releases_append _ _

/-! ### The end -/

/-- **How a job ends.** When the thread of a job has come to its end, whatever it was told on the
way, it has given its slot back once and has left the job in one of the states COMPLETED, FAILED
and CANCELLED, and in COMPLETED only if the job has succeeded. -/
theorem job_ends {h : List (Event commands)} {out : Except Exn Unit} {final : Job}
    (htrace : Traces (runJobInSlot cfg polls id) h (some out))
    (hredis : (jobHash id).Leads data h final) :
    final.IsTerminal ∧ releases h = 1 ∧
      (final.state = some .COMPLETED → ∃ node vmid, Succeeded id data node vmid h final) := by
  have hthread : Satisfies (jobHash id).recording
      (fun _ s' => Ended id data s' ∧ releases s'.2 = 1) (data, []) (runJobInSlot cfg polls id) := by
    rw [runJobInSlot, satisfies_bind, satisfies_attempt]
    refine (runJob_ended.and runJob_holds).mono ?_
    rintro out s₁ ⟨⟨rfl, hended⟩, hnone⟩
    rw [then_ok, satisfies_bind]
    refine releaseSlot_once.traced.mono ?_
    rintro out ⟨j', h'⟩ ⟨⟨rfl, honce, hstate, hmark⟩, h₁, rfl, -⟩
    rw [then_ok, satisfies_ofExcept]
    refine ⟨hended.append hstate hmark h₁, ?_⟩
    rw [honce, hnone]
    rfl
  obtain ⟨hended, honce⟩ := htrace.post (hredis.recording []) hthread
  rw [List.nil_append] at hended honce
  refine ⟨?_, honce, fun hcompleted => ?_⟩
  · rcases hended with hfailed | hcancelled | ⟨hcompleted, -⟩
    · exact ⟨_, hfailed, rfl⟩
    · exact ⟨_, hcancelled, rfl⟩
    · exact ⟨_, hcompleted, rfl⟩
  · rcases hended with hfailed | hcancelled | ⟨-, hdone⟩
    · rw [hfailed] at hcompleted
      cases hcompleted
    · rw [hcancelled] at hcompleted
      cases hcompleted
    · exact hdone

/-- In an undisturbed run the hash is the one that is stored. -/
private theorem follows_stored {p : Prog α} {w w' : World} {out : Except Exn α}
    (hends : Ends environment p w out w') (hstored : w.job id = some data) :
    ∃ h final, Traces p h (some out) ∧ (jobHash id).Leads data h final ∧ w'.job id = some final := by
  refine hends.leads (R := fun w j => w.job id = some j) hstored ?_
  intro w₁ j o c r w₂ hj hw
  have hjobs : w₂.job id = (o.jobsAfter w₁).lookup id := by
    rw [World.job, (after_step hw).jobs]
  have hsame : (o.jobsAfter w₁).lookup id = w₁.jobs.lookup id → w₂.job id = some j := fun heq =>
    hjobs.trans (heq.trans hj)
  cases o with
  | hgetall i =>
    have hpair : (w₁.job i, w₁) = (r, w₂) := Option.some.inj hw
    obtain ⟨rfl, rfl⟩ := Prod.mk.inj hpair
    exact ⟨j, ⟨j, .inl rfl, fun hid => hid ▸ hj, rfl⟩, hj⟩
  | hset i f | hsetLrem i f =>
    by_cases hid : i = id
    · subst hid
      refine ⟨f w₁.clock j, ⟨j, .inl rfl, ?_⟩, ?_⟩
      · dsimp only
        rw [if_pos rfl]
        exact ⟨_, rfl⟩
      · have hinsert := hjobs.trans (AList.lookup_insert w₁.jobs)
        rwa [hj, Option.getD_some] at hinsert
    · refine ⟨j, ⟨j, .inl rfl, ?_⟩, hsame (AList.lookup_insert_ne (Ne.symm hid))⟩
      dsimp only
      rw [if_neg hid]
  | _ => exact ⟨j, ⟨j, .inl rfl, rfl⟩, hsame rfl⟩

/-- A job with everything that can be asked for. -/
private def thoroughJob : Job where
  state := some .PENDING
  backupId := some "pbs|vm/100/2026-05-01T01:00:00Z"
  proxmoxVmid := some 100
  proxmoxNode := some "pve1"
  proxmoxStorage := some "local"
  powerOn := true
  qgaWaitSec := 30
  networkMode := "unlink"
  httpCheckUrl := "http://lab/health"
  archive := "pbs:backup/vm/100/2026-05-01T01:00:00Z"

/-- A world with the job and a cluster without guests. -/
private def thoroughWorld : World where
  jobs := (∅ : AList fun _ : Uuid => Job).insert 7 thoroughJob
  archives := fun _ => [("net0", "virtio=AA,bridge=vmbr0")]

/-- Everything goes right. -/
theorem job_ends_thorough : ∃ h out final,
    Traces (runJobInSlot {} 1 7) h (some out) ∧ (jobHash 7).Leads thoroughJob h final ∧
      final.state = some .COMPLETED ∧ releases h = 1 ∧
        ∃ node vmid, Succeeded 7 thoroughJob node vmid h final := by
  have hrun : ((runJobInSlot {} 1 7).run environment [] thoroughWorld).map
      (fun end_ => (end_.2.job 7).bind (·.state)) = some (some .COMPLETED) := by decide +kernel
  obtain ⟨out, w', hends, hstate⟩ := exists_ends_of_run hrun
  have hstored : thoroughWorld.job 7 = some thoroughJob := AList.lookup_insert _
  obtain ⟨h, final, htrace, hredis, hfinal⟩ := follows_stored hends hstored
  dsimp only at hstate
  rw [hfinal] at hstate
  have hcompleted : final.state = some .COMPLETED := hstate
  obtain ⟨-, honce, hdone⟩ := job_ends htrace hredis
  exact ⟨h, out, final, htrace, hredis, hcompleted, honce, hdone hcompleted⟩

end RestoreEngine
