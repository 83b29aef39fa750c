import RestoreEngine.Effects.Views
import RestoreEngine.Engine.Dispatch

/-!
# What the states of jobs say

The state of a job is written by many: the API makes jobs PENDING and cancels them, the worker that
has taken a job marks it RESTORING and ends it as COMPLETED, FAILED or CANCELLED, and nothing orders
these writes. Yet the states can be trusted so far. A job is RESTORING or FAILED only if a worker
has taken it, and COMPLETED only if a worker has submitted its restore; what waits in the queue is
PENDING, or cancelled (`states_accounted`). And whatever happens meanwhile, a job that a worker has
taken is in a terminal state from the moment on at which the worker is done (`claimed_ends`).

`workProtocol` says what one process may mark a job with. It goes beside `jobProtocol`, because a
new job must not be made of one that has been taken already.
-/

namespace RestoreEngine

open Effects Prog Program

/-! ### What a worker has in hand -/

/-- What a worker has in hand. -/
inductive WorkHold
  | nothing
  /-- A job that it has taken, and has not ended. -/
  | claimed (id : Uuid)
  /-- A job whose restore it has submitted, and which it has not ended. -/
  | submitted (id : Uuid)
  deriving DecidableEq

namespace WorkHold

/-- The job in hand. -/
def job : WorkHold → Option Uuid
  | nothing => none
  | claimed id | submitted id => some id

/-- The job is marked with a terminal state. -/
def endsJob (f : Instant → Job → Job) : Bool := (f 0 {}).state.any RestoreState.IsTerminal

/-- What a worker has in hand after a command. -/
def after (m : WorkHold) : (o : Op) → o.Res → WorkHold
  | .blpop, found => found.elim m claimed
  | .qemuRestore _ _ _, _ => m.job.elim m submitted
  | .hset id f, _ => if m.job = some id ∧ endsJob f then nothing else m
  | _, _ => m

/-- The process may mark the job `id` with the state `s`. -/
def MayMark (m : WorkHold) (id : Uuid) (f : Instant → Job → Job) : Option RestoreState → Prop
  | none | some .CANCELLED => True
  | some .PENDING => ¬ KeepsOrigin f
  | some .RESTORING | some .FAILED => m.job = some id
  | some .COMPLETED => m = submitted id

end WorkHold

/-- **The protocol of states**: only the worker that has taken a job marks it RESTORING or FAILED,
and COMPLETED after it has submitted the restore; a job in hand is ended before the next is
taken. -/
def workProtocol : Protocol commands WorkHold where
  observe := WorkHold.after
  Permits m o :=
    match o with
    | .blpop => m.job = none
    | .qemuRestore px _ _ => ∃ id, m = .claimed id ∧ px = .job id
    | .hset id f => ∃ s, Marks f s ∧ m.MayMark id f s
    | .hsetLrem _ f => Marks f none ∨ Marks f (some .CANCELLED)
    | _ => True

/-- The hash of a job in hand is there. -/
def WorkHold.Genuine (m : WorkHold) (o : Op) (r : o.Res) : Prop :=
  match o, r with
  | .hgetall id, found => m.job = some id → ∃ job, found = some job
  | _, _ => True

theorem Marks.state {f : Instant → Job → Job} {s : Option RestoreState} (h : Marks f s) :
    (f 0 {}).state = s := by
  rw [h 0 {}]
  exact Option.or_none

theorem KeepsState.marks {f : Instant → Job → Job} (h : KeepsState f) : Marks f none := by
  intro now j
  rw [h now j]
  exact Option.none_or.symm

/-! ### The worker -/

section Work

variable {α : Type} {cfg : Config} {mt : Matching} {polls : ℕ} {m : WorkHold} {p : Prog α}
  {id : Uuid} {data : Job} {node : String} {vmid : ℤ}

/-- The machine of the protocol, where the hash of a job in hand is there. -/
private abbrev workMachine : Machine commands WorkHold := workProtocol.guarded WorkHold.Genuine

/-- A stage leaves the hold as it is. -/
private theorem stage_kept (hp : p.Only (Op.OfStage id)) :
    Satisfies workMachine (fun _ m' => m' = m) m p := by
  refine (onProtocol_of_only hp (fun o ho => ?_) fun o r ho => ?_).guarded
  · cases o <;> first | exact trivial | exact ho.elim | exact ⟨none, ho.2.2.marks, trivial⟩
  · cases o with
    | hset i f =>
      have hstate : (f 0 {}).state = none := ho.2.2.marks.state
      refine if_neg fun hends => ?_
      rw [WorkHold.endsJob, hstate] at hends
      exact absurd hends.2 Bool.false_ne_true
    | _ => first | rfl | exact ho.elim

/-- A stage, and what follows it. -/
private theorem stage_then {β γ : Type} {p : Prog β} {f : β → Prog γ}
    {Q : Except Exn γ → WorkHold → Prop} (hp : p.Only (Op.OfStage id))
    (hraise : ∀ e, Q (.error e) m) (hf : ∀ b, Satisfies workMachine Q m (f b)) :
    Satisfies workMachine Q m (p >>= f) := by
  refine (stage_kept hp).bind ?_ ?_
  · rintro b _ rfl
    exact hf b
  · rintro e _ rfl
    exact hraise e

/-- The job in hand is ended. -/
private theorem setState_ends {state : RestoreState} {error : Option String}
    {Q : Except Exn Unit → WorkHold → Prop} (hend : state.IsTerminal) (hm : m.job = some id)
    (hmay : m.MayMark id (stateFields state error) (some state))
    (hQ : Q (.ok ()) .nothing) :
    Satisfies workMachine Q m (setState cfg id state error) := by
  rw [setState, satisfies_bind]
  refine (guarded_issue (.hset id _)).mpr ⟨⟨some state, fun _ _ => rfl, hmay⟩, fun r _ => ?_⟩
  have hnothing : workProtocol.observe m (.hset id (stateFields state error)) r = .nothing :=
    if_pos ⟨hm, hend⟩
  rw [then_ok, hnothing]
  refine Satisfies.ite (fun _ => ?_) fun _ => satisfies_ret.mpr hQ
  exact (guarded_issue (.expire id)).mpr ⟨trivial, fun _ _ => hQ⟩

private theorem setState_restoring (hm : m.job = some id) :
    Satisfies workMachine (fun _ m' => m' = m) m (setState cfg id .RESTORING) := by
  rw [setState, satisfies_bind]
  refine (guarded_issue (.hset id _)).mpr
    ⟨⟨some .RESTORING, fun _ _ => rfl, hm⟩, fun r _ => ?_⟩
  have hsame : workProtocol.observe m (.hset id (stateFields .RESTORING none)) r = m :=
    if_neg fun hends => absurd hends.2 Bool.false_ne_true
  rw [then_ok, hsame]
  refine Satisfies.ite (fun _ => ?_) fun _ => satisfies_ret.mpr rfl
  exact (guarded_issue (.expire id)).mpr ⟨trivial, fun _ _ => rfl⟩

/-- How a stage leaves the hold that may have ended the job: it has, if its result is `false`. -/
private def Leaves (m : WorkHold) : Except Exn Bool → WorkHold → Prop
  | .ok false, m' => m' = .nothing
  | _, m' => m' = m

private theorem leaves_of_only {p : Prog Unit} (hp : p.Only (Op.OfStage id)) :
    Satisfies workMachine (Leaves m) m (p >>= fun _ => ret true) :=
  stage_then hp (fun _ => rfl) fun _ => satisfies_ret.mpr rfl

private theorem leaves_of_cancel (hm : m.job = some id) :
    Satisfies workMachine (Leaves m) m (markCancelled cfg id >>= fun _ => ret false) := by
  rw [markCancelled, satisfies_bind]
  exact setState_ends rfl hm trivial (then_ok.mpr (satisfies_ret.mpr rfl))

/-- Two stages, of which the second is left out if the first has ended the job. -/
private theorem leaves_then {p q : Prog Bool} (hp : Satisfies workMachine (Leaves m) m p)
    (hq : Satisfies workMachine (Leaves m) m q) :
    Satisfies workMachine (Leaves m) m (p >>= fun goesOn => if goesOn then q else ret false) := by
  refine hp.bind (fun goesOn m' hm' => ?_) fun _ _ hm' => hm'
  cases goesOn with
  | false => exact satisfies_ret.mpr hm'
  | true =>
    obtain rfl := show m' = m from hm'
    exact hq

private theorem cancellable_leaves {wait : Prog Unit} (hwait : wait.Only (Op.OfStage id))
    (hm : m.job = some id) :
    Satisfies workMachine (Leaves m) m (cancellable cfg id wait) := by
  refine stage_then hwait.attempt (fun _ => rfl) fun out => ?_
  split
  · exact satisfies_ret.mpr rfl
  · exact leaves_of_cancel hm
  · exact satisfies_raise.mpr rfl
  · exact satisfies_raise.mpr rfl

private theorem startGuest_leaves (hm : m.job = some id) :
    Satisfies workMachine (Leaves m) m (startGuest cfg polls (.job id) id data node vmid) := by
  refine Satisfies.ite (fun _ => satisfies_ret.mpr rfl) fun _ => ?_
  have hstart : (startQemuVm (.job id) node vmid).attempt.Only
      (· = Op.qemuStart (.job id) node vmid) :=
    Only.attempt (Only.bind (Only.bind (only_perform.mpr rfl) fun _ => only_ofExcept)
      fun _ => only_ret)
  refine ((onProtocol_of_only (P := workProtocol) hstart ?_ ?_).guarded).bind ?_
    fun _ _ hm' => hm'
  · rintro o rfl
    trivial
  · rintro o r rfl
    rfl
  · rintro out _ rfl
    cases out with
    | error exc => exact satisfies_raise.mpr rfl
    | ok startUpid =>
      refine leaves_then ?_ ?_
      · cases startUpid with
        | none => exact satisfies_ret.mpr rfl
        | some upid => exact cancellable_leaves (waitForTask_ofStage fun _ => only_ret) hm
      · exact leaves_of_only
          (only_perform.mpr ⟨rfl, fun _ _ => rfl, fun _ _ => rfl⟩)

private theorem agentStep_leaves {qgaWaitSec : ℤ} (hm : m.job = some id) :
    Satisfies workMachine (Leaves m) m (agentStep cfg polls (.job id) id qgaWaitSec node vmid) := by
  refine Satisfies.ite (fun _ => ?_) fun _ => leaves_of_only checkGuestHostname_ofStage
  refine stage_then waitForQemuAgent_ofStage.attempt (fun _ => rfl) fun out => ?_
  have hmark : ∀ {f}, KeepsOrigin f → KeepsState f →
      Only (Op.OfStage id) (hset id f : Prog Unit) := fun horigin hstate =>
    only_perform.mpr ⟨rfl, horigin, hstate⟩
  split
  · exact stage_then (hmark (fun _ _ => rfl) fun _ _ => rfl) (fun _ => rfl)
      fun _ => leaves_of_only checkGuestHostname_ofStage
  · exact leaves_of_cancel hm
  · exact stage_then (hmark (fun _ _ => rfl) fun _ _ => rfl) (fun _ => rfl)
      fun _ => satisfies_raise.mpr rfl
  · exact satisfies_raise.mpr rfl

private theorem powerGuest_leaves (hm : m.job = some id) :
    Satisfies workMachine (Leaves m) m (powerGuest cfg polls (.job id) id data node vmid) := by
  refine Satisfies.ite (fun _ => ?_) fun _ => leaves_of_only stopGuest_ofStage
  refine leaves_then (startGuest_leaves hm) (leaves_then (agentStep_leaves hm) ?_)
  exact leaves_of_only httpCheck_ofStage

/-- How a procedure leaves the job in hand: it has ended the job, or it has raised. -/
private def EndsJob (id : Uuid) : Except Exn Unit → WorkHold → Prop
  | .ok _, m' => m' = .nothing
  | .error _, m' => m'.job = some id

private theorem finishJob_ends :
    Satisfies workMachine (EndsJob id) (.submitted id)
      (finishJob cfg polls (.job id) id data node vmid) := by
  refine stage_then (stampAttempts_ofStage _ _) (fun _ => rfl) fun _ => ?_
  refine stage_then isolateGuest_ofStage (fun _ => rfl) fun _ => ?_
  refine (powerGuest_leaves (m := .submitted id) rfl).bind ?_ ?_
  · rintro goesOn m' hm'
    cases goesOn with
    | false => exact satisfies_ret.mpr hm'
    | true =>
      obtain rfl := show m' = .submitted id from hm'
      rw [if_pos rfl]
      exact setState_ends rfl rfl rfl rfl
  · rintro e _ rfl
    rfl

/-- The restore is submitted, and waited for. -/
private theorem restoreTask_leaves :
    Satisfies workMachine (fun out m' => (out = .ok true ∧ m' = .submitted id) ∨
        (out = .ok false ∧ m' = .nothing) ∨ (∃ e, out = .error e) ∧ m'.job = some id)
      (.claimed id) (restoreTask cfg polls (.job id) id data node vmid) := by
  rw [restoreTask, submitRestore, satisfies_bind, satisfies_bind]
  refine (guarded_issue (.qemuRestore _ node _)).mpr ⟨⟨id, rfl, rfl⟩, fun reply _ => ?_⟩
  have hsubmitted : ∀ p, workProtocol.observe (.claimed id) (.qemuRestore (.job id) node p) reply =
      .submitted id := fun _ => rfl
  rw [then_ok, hsubmitted]
  rcases reply with exc | _ | upid
  · exact satisfies_raise.mpr (then_error.mpr (.inr (.inr ⟨⟨_, rfl⟩, rfl⟩)))
  · exact satisfies_raise.mpr (then_error.mpr (.inr (.inr ⟨⟨_, rfl⟩, rfl⟩)))
  · refine satisfies_ret.mpr ?_
    rw [then_ok]
    refine stage_then (only_perform.mpr ⟨rfl, fun _ _ => rfl, fun _ _ => rfl⟩)
      (fun e => .inr (.inr ⟨⟨e, rfl⟩, rfl⟩)) fun _ => ?_
    refine (cancellable_leaves (waitForTask_ofStage onTick_ofStage) rfl).mono ?_
    intro out m' hleaves
    rcases out with e | _ | _
    · obtain rfl := show m' = .submitted id from hleaves
      exact .inr (.inr ⟨⟨e, rfl⟩, rfl⟩)
    · exact .inr (.inl ⟨rfl, hleaves⟩)
    · exact .inl ⟨rfl, hleaves⟩

private theorem beginJob_ends :
    Satisfies workMachine (EndsJob id) (.claimed id) (beginJob cfg polls id data) := by
  rw [beginJob]
  cases placement data with
  | error exc => exact satisfies_raise.mpr rfl
  | ok placed =>
    obtain ⟨node, vmid⟩ := placed
    refine Satisfies.ite (fun _ => satisfies_raise.mpr rfl) fun _ => ?_
    refine (setState_restoring rfl).bind ?_ ?_
    · rintro _ _ rfl
      refine stage_then sampleStep_ofStage (fun _ => rfl) fun _ => ?_
      refine stage_then (Only.bind (only_perform.mpr rfl) fun _ => only_ofExcept) (fun _ => rfl)
        fun _ => ?_
      refine restoreTask_leaves.bind ?_ ?_
      · rintro goesOn m' (⟨hout, rfl⟩ | ⟨hout, rfl⟩ | ⟨⟨e, hout⟩, -⟩)
        · obtain rfl := Except.ok.inj hout
          exact finishJob_ends
        · obtain rfl := Except.ok.inj hout
          exact satisfies_ret.mpr rfl
        · cases hout
      · rintro e m' (⟨hout, -⟩ | ⟨hout, -⟩ | ⟨-, hm'⟩)
        · cases hout
        · cases hout
        · exact hm'
    · rintro e _ rfl
      rfl

/-- **A job that is taken is ended.** -/
private theorem claimJob_ends :
    Satisfies workMachine (fun _ m' => m' = .nothing) .nothing (claimJob cfg polls) := by
  rw [claimJob, satisfies_bind]
  refine (guarded_issue .blpop).mpr ⟨rfl, fun found _ => ?_⟩
  rw [then_ok]
  cases found with
  | none => exact satisfies_ret.mpr rfl
  | some id =>
    have hclaimed : workProtocol.observe .nothing .blpop (some id) = .claimed id := rfl
    rw [hclaimed]
    refine Satisfies.bind (R := fun out m' => ∃ x, out = .ok x ∧ EndsJob id x m') ?_ ?_ ?_
    · refine satisfies_attempt.mpr (Satisfies.mono (Q := EndsJob id) ?_ fun x _ hx => ⟨x, rfl, hx⟩)
      rw [processJob, satisfies_bind]
      refine (guarded_issue (.hgetall id)).mpr ⟨trivial, fun found hgenuine => ?_⟩
      obtain ⟨data, rfl⟩ := hgenuine rfl
      rw [then_ok]
      refine stage_then cancelRequested_ofStage (fun _ => rfl) fun cancelled => ?_
      refine Satisfies.ite (fun _ => ?_) fun _ => beginJob_ends
      rw [markCancelled]
      exact setState_ends rfl rfl trivial rfl
    · rintro out m' ⟨x, hx, hends⟩
      obtain rfl := Except.ok.inj hx
      cases out with
      | ok _ => exact satisfies_ret.mpr hends
      | error exc =>
        show Satisfies workMachine _ m' (setState cfg id .FAILED (some exc.text))
        exact setState_ends rfl hends hends rfl
    · rintro e m' ⟨x, hx, -⟩
      cases hx

/-! ### The other procedures -/

theorem Op.KeepsBooks.permitted {o : Op} (ho : o.KeepsBooks) :
    workProtocol.Permits m o ∧ ∀ r, workProtocol.observe m o r = m := by
  cases o <;> first | exact ⟨trivial, fun _ => rfl⟩ | exact ho.elim

theorem Op.OfCancel.permitted {o : Op} (ho : o.OfCancel) :
    workProtocol.Permits .nothing o ∧ ∀ r, workProtocol.observe .nothing o r = .nothing := by
  cases o with
  | hset id f =>
    refine ⟨ho.2.2.elim (fun h => ⟨none, h, trivial⟩) fun h => ⟨some .CANCELLED, h, trivial⟩, ?_⟩
    exact fun _ => rfl
  | hsetLrem id f => exact ⟨ho.2.2, fun _ => rfl⟩
  | _ => first | exact ⟨trivial, fun _ => rfl⟩ | exact ho.elim

theorem Op.OfDestroy.permitted {px : Client} {v : ℤ} {o : Op} (ho : o.OfDestroy px v) :
    workProtocol.Permits m o ∧ ∀ r, workProtocol.observe m o r = m := by
  cases o <;> first | exact ⟨trivial, fun _ => rfl⟩ | exact ho.elim

/-- A new job is PENDING, and it is new. -/
theorem Op.OfEnqueue.permitted {req : EnqueueRequest} {o : Op} (ho : o.OfEnqueue req) :
    workProtocol.Permits .nothing o ∧ ∀ r, workProtocol.observe .nothing o r = .nothing := by
  cases o with
  | hset id f =>
    obtain ⟨row, sourceVmid, vmid, node, storage, archive, now, rfl⟩ := ho
    refine ⟨⟨some .PENDING, fun _ _ => rfl, fun hkeeps => ?_⟩, ?_⟩
    · -- the new hash does not depend on the old one, whose `force` may be either
      have hforce := (congrArg (·.2.2.2.2.2.1) (hkeeps 0 { force := true })).symm.trans
        (congrArg (·.2.2.2.2.2.1) (hkeeps 0 { force := false }))
      cases hforce
    · exact fun _ => rfl
  | _ => first | exact ⟨trivial, fun _ => rfl⟩ | exact ho.elim

/-- A procedure that may be permitted from nothing on. -/
private theorem nothing_kept {F : Op → Prop} (hp : p.Only F)
    (hF : ∀ o, F o → workProtocol.Permits .nothing o ∧
      ∀ r, workProtocol.observe .nothing o r = .nothing) :
    Satisfies workMachine (fun _ m' => m' = .nothing) .nothing p :=
  (onProtocol_of_only hp (fun o ho => (hF o ho).1) fun o r ho => (hF o ho).2 r).guarded

/-- **Every process keeps to the protocol**, and has nothing in hand when it ends. -/
theorem Activity.onWorkProtocol (act : Activity) :
    Satisfies (workProtocol.guarded WorkHold.Genuine) (fun _ m' => m' = .nothing) .nothing
      (act.program cfg mt polls) := by
  refine act.composed.satisfies (I := fun m => m = WorkHold.nothing) ?_ ?_ ?_ rfl
  · rintro m o ho rfl
    exact ho.permitted.1
  · rintro m o r m' ho rfl hmoves
    exact hmoves.2.trans (ho.permitted.2 r)
  · rintro β q m hpart rfl
    cases hpart with
    | enqueue req => exact nothing_kept enqueueRestores_only fun _ ho => ho.permitted
    | work => exact claimJob_ends
    | teardown run =>
      refine nothing_kept (F := fun o => workProtocol.Permits .nothing o ∧
        ∀ r, workProtocol.observe .nothing o r = .nothing) ?_ fun _ ho => ho
      exact teardownPlanRun_only (fun _ ho => ho.permitted) ⟨trivial, fun _ => rfl⟩
        fun _ _ ho => ho.permitted
    | cancel id => exact nothing_kept cancelJob_only fun _ ho => ho.permitted
    | stop id => exact nothing_kept stopJob_only fun _ ho => ho.permitted
    | drain fuel => exact nothing_kept drainPendingJobs_only fun _ ho => ho.permitted

end Work

/-! ### The invariant -/

/-- The state that the hash of a job gives. -/
def World.stateOf (w : World) (id : Uuid) : Option RestoreState := (w.job id).bind (·.state)

section Invariant

variable {ι : Type} [DecidableEq ι] {w₀ w w' : World} {h : List (ι × Event commands)}
  {u : ι → JobHold} {v : ι → WorkHold} {i : ι} {o : Op} {a : Answer} {r : o.Res} {id : Uuid}
  {m : WorkHold}

/-- The process `i` has taken the job from the queue, as a worker. -/
def TookBy (h : List (ι × Event commands)) (i : ι) (id : Uuid) : Prop :=
  (i, (⟨.blpop, some id⟩ : Event commands)) ∈ h

/-- What must have happened for a job to be in the state. -/
def Accounted (h : List (ι × Event commands)) (id : Uuid) : RestoreState → Prop
  | .PENDING | .CANCELLED => True
  | .RESTORING | .FAILED => ∃ i, TookBy h i id
  | .COMPLETED => id ∈ (submissions h).map Prod.fst

/-- **Jobs are attended to**: a job that has been taken is in the hand of the worker that took it,
or has ended. -/
structure Attended (w₀ : World) (h : List (ι × Event commands)) (u : ι → JobHold)
    (v : ι → WorkHold) (w : World) : Prop where
  hashed : ∀ id ∈ takenIds h ++ w.queue, ∃ job, w.job id = some job
  written : ∀ i id f, u i = .written id f → ∃ job, w.job id = some job
  holder : ∀ i id, (v i).job = some id → TookBy h i id
  sole : ∀ i j id, TookBy h i id → (v j).job = some id → i = j
  submitted : ∀ i id, v i = .submitted id → id ∈ (submissions h).map Prod.fst
  accounted : ∀ id s, w.stateOf id = some s → w₀.stateOf id = some s ∨ Accounted h id s
  ended : ∀ i id, TookBy h i id → (v i).job = some id ∨ ∃ s, w.stateOf id = some s ∧ s.IsTerminal

/-! #### What a command does to the states -/

omit [DecidableEq ι] in
theorem tookBy_append {e : ι × Event commands} :
    TookBy (h ++ [e]) i id ↔ TookBy h i id ∨ e = (i, ⟨.blpop, some id⟩) := by
  rw [TookBy, TookBy, List.mem_append, List.mem_singleton]
  exact or_congr_right eq_comm

omit [DecidableEq ι] in
theorem TookBy.taken (ht : TookBy h i id) : id ∈ takenIds h := List.mem_filterMap.mpr ⟨_, ht, rfl⟩

omit [DecidableEq ι] in
private theorem Accounted.append {s : RestoreState} (hs : Accounted h id s)
    (e : ι × Event commands) : Accounted (h ++ [e]) id s := by
  cases s with
  | PENDING | CANCELLED => trivial
  | RESTORING | FAILED =>
    obtain ⟨i, ht⟩ := hs
    exact ⟨i, tookBy_append.mpr (.inl ht)⟩
  | COMPLETED =>
    show id ∈ (submissions (h ++ [e])).map Prod.fst
    rw [submissions_append, List.map_append]
    exact List.mem_append_left _ hs

/-- What a write makes of the state. -/
private theorem stateOf_write {f : Instant → Job → Job} {s : Option RestoreState} (hf : Marks f s)
    (hwrite : w'.job id = some (f w.clock ((w.job id).getD {}))) :
    w'.stateOf id = s.or (w.stateOf id) := by
  rw [World.stateOf, hwrite, Option.bind_some, hf, World.stateOf]
  cases w.job id <;> rfl

/-- Hashes stay. -/
private theorem job_kept (henv : environment o a w = some (r, w'))
    (hjob : ∃ job, w.job id = some job) : ∃ job, w'.job id = some job := by
  rcases job_step henv id with hsame | ⟨f, -, hwrite⟩
  · rwa [hsame]
  · exact ⟨_, hwrite⟩

/-- **A step leaves the state of a job alone or marks it**, as the process may. -/
theorem stateOf_step (henv : environment o a w = some (r, w'))
    (hpermits : workProtocol.Permits m o) (id : Uuid) :
    ∃ s, w'.stateOf id = s.or (w.stateOf id) ∧ (s = none ∨ s = some .CANCELLED ∨
      ∃ f, o = .hset id f ∧ Marks f s ∧ m.MayMark id f s) := by
  rcases job_step henv id with hsame | ⟨f, rfl | rfl, hwrite⟩
  · refine ⟨none, ?_, .inl rfl⟩
    rw [World.stateOf, hsame]
    exact Option.none_or.symm
  · obtain ⟨s, hmarks, hmay⟩ := hpermits
    exact ⟨s, stateOf_write hmarks hwrite, .inr (.inr ⟨f, rfl, hmarks, hmay⟩)⟩
  · rcases hpermits with hmarks | hmarks
    · exact ⟨none, stateOf_write hmarks hwrite, .inl rfl⟩
    · exact ⟨some .CANCELLED, stateOf_write hmarks hwrite, .inr (.inl rfl)⟩

/-- A write that ends a job does so. -/
theorem ended_of_write {f : Instant → Job → Job} (henv : environment o a w = some (r, w'))
    (hpermits : workProtocol.Permits m o) (ho : o = .hset id f ∨ o = .hsetLrem id f)
    (hends : WorkHold.endsJob f = true) : ∃ s, w'.stateOf id = some s ∧ s.IsTerminal := by
  have hmarks : ∃ s, Marks f s := by
    rcases ho with rfl | rfl
    · obtain ⟨s, hmarks, -⟩ := hpermits
      exact ⟨s, hmarks⟩
    · exact hpermits.elim (fun h => ⟨none, h⟩) fun h => ⟨_, h⟩
  obtain ⟨s, hmarks⟩ := hmarks
  rw [WorkHold.endsJob, hmarks.state] at hends
  obtain ⟨t, rfl, hterminal⟩ := (Option.any_eq_true _ _).mp hends
  have hjobs : w'.jobs = (w.setJob id f).jobs := by
    rcases ho with rfl | rfl <;> exact (after_step henv).jobs
  have hwrite : w'.job id = some (f w.clock ((w.job id).getD {})) := by
    rw [World.job, hjobs]
    exact World.job_setJob w id f
  exact ⟨t, (stateOf_write hmarks hwrite).trans Option.some_or, hterminal⟩

/-! #### What a command does to the holds -/

/-- Only a claim gives a worker a job. -/
private theorem job_after (ho : o ≠ .blpop) (hm : (m.after o r).job = some id) :
    m.job = some id := by
  cases o with
  | blpop => exact absurd rfl ho
  | qemuRestore px node p => cases m <;> exact hm
  | hset id' f =>
    by_cases hends : m.job = some id' ∧ WorkHold.endsJob f
    · rw [WorkHold.after, if_pos hends] at hm
      cases hm
    · rwa [WorkHold.after, if_neg hends] at hm
  | _ => exact hm

/-- A worker keeps its job until it marks it with a terminal state. -/
theorem job_after_or_ends (hpermits : workProtocol.Permits m o) (hm : m.job = some id) :
    (m.after o r).job = some id ∨ ∃ f, o = .hset id f ∧ WorkHold.endsJob f := by
  cases o with
  | blpop =>
    rw [show m.job = none from hpermits] at hm
    cases hm
  | qemuRestore px node p => cases m <;> exact .inl hm
  | hset id' f =>
    by_cases hends : m.job = some id' ∧ WorkHold.endsJob f
    · obtain rfl : id' = id := Option.some.inj (hends.1.symm.trans hm)
      exact .inr ⟨f, rfl, hends.2⟩
    · rw [WorkHold.after, if_neg hends]
      exact .inl hm
  | _ => exact .inl hm

/-! #### The step, field by field -/

omit [DecidableEq ι] in
/-- What is taken or queued after a step was so before, or is pushed. -/
private theorem mem_taken_or_queued (henv : environment o a w = some (r, w'))
    (hid : id ∈ takenIds (h ++ [(i, ⟨o, r⟩)]) ++ w'.queue) :
    id ∈ takenIds h ++ w.queue ∨ o = .rpush id := by
  have hqueue : w'.queue = o.queueAfter w := (after_step henv).queue
  have htaken := takenIds_append (h := h) (e := (i, ⟨o, r⟩))
  rw [htaken, hqueue, List.append_assoc, List.mem_append] at hid
  rw [List.mem_append]
  rcases hid with hid | hid
  · exact .inl (.inl hid)
  · cases o with
    | blpop | lpop =>
      have hpair : (w.queue.head?, { w with queue := w.queue.tail }) = (r, w') :=
        Option.some.inj henv
      obtain ⟨rfl, -⟩ := Prod.mk.inj hpair
      have hsplit : w.queue.head?.toList ++ w.queue.tail = w.queue := by cases w.queue <;> rfl
      exact .inl (.inr (hsplit ▸ hid))
    | rpush id' =>
      rcases List.mem_append.mp (show id ∈ w.queue ++ [id'] from hid) with hid | hid
      · exact .inl (.inr hid)
      · exact .inr (congrArg Op.rpush (List.mem_singleton.mp hid).symm)
    | hsetLrem id' f => exact .inl (.inr (List.mem_of_mem_filter hid))
    | _ => exact .inl (.inr hid)

omit [DecidableEq ι] in
/-- What a worker takes has not been taken before. -/
private theorem new_of_pop (hd : Dispatched w₀.queue h u w)
    (henv : environment .blpop a w = some (some id, w')) : id ∉ takenIds h := by
  have hpair : (w.queue.head?, { w with queue := w.queue.tail }) = (some id, w') :=
    Option.some.inj henv
  have hhead : w.queue.head? = some id := (Prod.mk.inj hpair).1
  have hdisjoint := List.disjoint_of_nodup_append (hd.inOrder.order.nodup hd.minted.nodup)
  exact fun hid => hdisjoint hid (List.mem_of_head? hhead)

section Step

variable (ha : Attended w₀ h u v w) (hd : Dispatched w₀.queue h u w)
  (hjob : jobProtocol.Permits (u i) o) (hwork : workProtocol.Permits (v i) o)
  (henv : environment o a w = some (r, w'))

omit [DecidableEq ι] in
include ha hjob henv in
private theorem hashed_step :
    ∀ id ∈ takenIds (h ++ [(i, ⟨o, r⟩)]) ++ w'.queue, ∃ job, w'.job id = some job := by
  intro id hid
  refine job_kept henv ?_
  rcases mem_taken_or_queued henv hid with hid | rfl
  · exact ha.hashed id hid
  · obtain ⟨f, hwritten, -⟩ := hjob
    exact ha.written i id f hwritten

include ha henv in
private theorem written_step (j : ι) (id : Uuid) (g : Instant → Job → Job)
    (hj : Function.update u i ((u i).after o r) j = .written id g) :
    ∃ job, w'.job id = some job := by
  by_cases hji : j = i
  · subst hji
    rw [Function.update_self] at hj
    cases o with
    | hset id' f =>
      by_cases hmade : u j = .made id'
      · rw [JobHold.after, if_pos hmade] at hj
        obtain ⟨rfl, -⟩ := JobHold.written.inj hj
        have hjobs : w'.jobs = (w.setJob id' f).jobs := (after_step henv).jobs
        rw [World.job, hjobs]
        exact ⟨_, World.job_setJob w id' f⟩
      · rw [JobHold.after, if_neg hmade] at hj
        exact job_kept henv (ha.written j id g hj)
    | hgetall id' =>
      refine job_kept henv (ha.written j id g ?_)
      by_cases htaken : u j = .taken id'
      · rw [JobHold.after, if_pos htaken] at hj
        cases r with
        | none => exact hj
        | some data => cases hj
      · rwa [JobHold.after, if_neg htaken] at hj
    | blpop => cases r <;> cases hj
    | uuid4 | rpush _ | qemuRestore _ _ _ => cases hj
    | _ => exact job_kept henv (ha.written j id g hj)
  · rw [Function.update_of_ne hji] at hj
    exact job_kept henv (ha.written j id g hj)

include ha hwork in
private theorem holder_step (j : ι) (id : Uuid)
    (hj : (Function.update v i ((v i).after o r) j).job = some id) :
    TookBy (h ++ [(i, ⟨o, r⟩)]) j id := by
  rw [tookBy_append]
  by_cases hji : j = i
  · subst hji
    rw [Function.update_self] at hj
    by_cases ho : o = .blpop
    · subst ho
      cases r with
      | none => exact .inl (ha.holder j id hj)
      | some id' =>
        obtain rfl := Option.some.inj hj
        exact .inr rfl
    · exact .inl (ha.holder j id (job_after ho hj))
  · rw [Function.update_of_ne hji] at hj
    exact .inl (ha.holder j id hj)

include ha hwork hd henv in
private theorem sole_step (i' j : ι) (id : Uuid) (ht : TookBy (h ++ [(i, ⟨o, r⟩)]) i' id)
    (hj : (Function.update v i ((v i).after o r) j).job = some id) : i' = j := by
  by_cases ho : o = .blpop
  · subst ho
    rw [tookBy_append] at ht
    by_cases hji : j = i
    · subst hji
      rw [Function.update_self] at hj
      cases r with
      | none =>
        -- the process has nothing in hand when it asks for a job
        have hnone : (v j).job = none := hwork
        have hsome : (v j).job = some id := hj
        rw [hnone] at hsome
        cases hsome
      | some x =>
        obtain rfl := Option.some.inj hj
        rcases ht with ht | ht
        · exact absurd ht.taken (new_of_pop hd henv)
        · exact (Prod.mk.inj ht).1.symm
    · rw [Function.update_of_ne hji] at hj
      rcases ht with ht | ht
      · exact ha.sole i' j id ht hj
      · obtain ⟨-, hevent⟩ := Prod.mk.inj ht
        obtain rfl : r = some id := eq_of_heq (Event.mk.inj hevent).2
        exact absurd (ha.holder j id hj).taken (new_of_pop hd henv)
  · have hold : TookBy h i' id := by
      refine (tookBy_append.mp ht).resolve_right fun heq => ho ?_
      exact congrArg (fun e : ι × Event commands => e.2.op) heq
    refine ha.sole i' j id hold ?_
    by_cases hji : j = i
    · subst hji
      rw [Function.update_self] at hj
      exact job_after ho hj
    · rwa [Function.update_of_ne hji] at hj

include ha hwork in
private theorem submitted_step (j : ι) (id : Uuid)
    (hj : Function.update v i ((v i).after o r) j = .submitted id) :
    id ∈ (submissions (h ++ [(i, ⟨o, r⟩)])).map Prod.fst := by
  rw [submissions_append, List.map_append, List.mem_append]
  by_cases hji : j = i
  · subst hji
    rw [Function.update_self] at hj
    cases o with
    | qemuRestore px node p =>
      obtain ⟨id', hclaimed, rfl⟩ := hwork
      rw [hclaimed] at hj
      obtain rfl := WorkHold.submitted.inj hj
      exact .inr (List.mem_singleton_self _)
    | hset id' f =>
      refine .inl (ha.submitted j id ?_)
      by_cases hends : (v j).job = some id' ∧ WorkHold.endsJob f
      · rw [WorkHold.after, if_pos hends] at hj
        cases hj
      · rwa [WorkHold.after, if_neg hends] at hj
    | blpop =>
      cases r with
      | none => exact .inl (ha.submitted j id hj)
      | some x => cases hj
    | _ => exact .inl (ha.submitted j id hj)
  · rw [Function.update_of_ne hji] at hj
    exact .inl (ha.submitted j id hj)

omit [DecidableEq ι] in
include ha hwork henv in
private theorem accounted_step (id : Uuid) (s : RestoreState) (hs : w'.stateOf id = some s) :
    w₀.stateOf id = some s ∨ Accounted (h ++ [(i, ⟨o, r⟩)]) id s := by
  have hold : w.stateOf id = some s → w₀.stateOf id = some s ∨
      Accounted (h ++ [(i, ⟨o, r⟩)]) id s := fun hs =>
    (ha.accounted id s hs).imp_right fun hacc => hacc.append _
  obtain ⟨s', hafter, hmark⟩ := stateOf_step henv hwork id
  rw [hafter] at hs
  rcases hmark with rfl | rfl | ⟨f, rfl, -, hmay⟩
  · exact hold (Option.none_or.symm.trans hs)
  · obtain rfl := Option.some.inj hs
    exact .inr trivial
  · cases s' with
    | none => exact hold (Option.none_or.symm.trans hs)
    | some t =>
      obtain rfl := Option.some.inj hs
      refine .inr ?_
      cases t with
      | PENDING | CANCELLED => trivial
      | RESTORING | FAILED => exact Accounted.append (s := .RESTORING) ⟨i, ha.holder i id hmay⟩ _
      | COMPLETED => exact Accounted.append (s := .COMPLETED) (ha.submitted i id hmay) _

include ha hd hjob hwork henv in
/-- A job that has ended is not started anew. -/
private theorem ended_step (i' : ι) (id : Uuid) (ht : TookBy (h ++ [(i, ⟨o, r⟩)]) i' id) :
    (Function.update v i ((v i).after o r) i').job = some id ∨
      ∃ s, w'.stateOf id = some s ∧ s.IsTerminal := by
  -- a job in hand stays in hand, or is marked with a terminal state
  have hheld : (v i').job = some id → (Function.update v i ((v i).after o r) i').job = some id ∨
      ∃ s, w'.stateOf id = some s ∧ s.IsTerminal := by
    intro hi'
    by_cases heq : i' = i
    · subst heq
      rw [Function.update_self]
      refine (job_after_or_ends hwork hi').imp_right ?_
      rintro ⟨f, ho, hends⟩
      exact ended_of_write henv hwork (.inl ho) hends
    · rw [Function.update_of_ne heq]
      exact .inl hi'
  rcases tookBy_append.mp ht with hold | hnew
  · rcases ha.ended i' id hold with hi' | ⟨s, hs, hterminal⟩
    · exact hheld hi'
    · obtain ⟨s', hafter, hmark⟩ := stateOf_step henv hwork id
      rcases hmark with rfl | rfl | ⟨f, rfl, -, hmay⟩
      · exact .inr ⟨s, hafter.trans (Option.none_or.trans hs), hterminal⟩
      · exact .inr ⟨.CANCELLED, hafter, rfl⟩
      · cases s' with
        | none => exact .inr ⟨s, hafter.trans (Option.none_or.trans hs), hterminal⟩
        | some t =>
          cases t with
          | COMPLETED | FAILED | CANCELLED => exact .inr ⟨_, hafter, rfl⟩
          | RESTORING =>
            obtain rfl := ha.sole i' i id hold hmay
            exact hheld hmay
          | PENDING =>
            -- a job is made PENDING under a new id only
            have hown : (u i).own = some id :=
              congrArg JobHold.own (hjob.resolve_right hmay)
            have hqueued : id ∈ queuedIds w₀.queue h :=
              hd.inOrder.order.subset (List.mem_append_left _ hold.taken)
            exact absurd hqueued (hd.minted.own i id hown).2
  · obtain ⟨rfl, hevent⟩ := Prod.mk.inj hnew
    obtain ⟨rfl, hr⟩ := Event.mk.inj hevent
    obtain rfl : r = some id := eq_of_heq hr
    rw [Function.update_self]
    exact .inl rfl

include ha hd hjob hwork henv in
/-- **The step.** -/
theorem Attended.step :
    Attended w₀ (h ++ [(i, ⟨o, r⟩)]) (Function.update u i ((u i).after o r))
      (Function.update v i ((v i).after o r)) w' where
  hashed := hashed_step ha hjob henv
  written := written_step ha henv
  holder := holder_step ha hwork
  sole := sole_step ha hd hwork henv
  submitted := submitted_step ha hwork
  accounted := accounted_step ha hwork henv
  ended := ended_step ha hd hjob hwork henv

include ha henv in
omit [DecidableEq ι] in
/-- The hash of a job in hand is there. -/
theorem Attended.genuine : (v i).Genuine o r := by
  cases o with
  | hgetall id =>
    intro hheld
    have hpair : (w.job id, w) = (r, w') := Option.some.inj henv
    obtain ⟨rfl, -⟩ := Prod.mk.inj hpair
    exact ha.hashed id (List.mem_append_left _ (ha.holder i id hheld).taken)
  | _ => trivial

end Step

end Invariant

/-! ### The runs -/

section Run

variable {ι : Type} [DecidableEq ι] {cfg : Config} {mt : Matching} {polls : ℕ}
  {acts : ι → Activity} {w₀ w : World} {h : List (ι × Event commands)} {p : ι → Prog Unit}
  {i : ι} {id : Uuid}

/-- The ids in the queue are different, have been made before, and have hashes. -/
structure World.QueueReady (w : World) : Prop extends w.QueueFresh where
  hashed : ∀ id ∈ w.queue, ∃ job, w.job id = some job

omit [DecidableEq ι] in
theorem Attended.start (hw : w₀.QueueReady) :
    Attended w₀ [] (fun _ : ι => .nothing) (fun _ => .nothing) w₀ := by
  refine ⟨fun id hid => ?_, fun i id f hi => ?_, fun i id hi => ?_, fun i j id ht => ?_,
    fun i id hi => ?_, fun id s hs => .inl hs, fun i id ht => ?_⟩
  · exact hw.hashed id ((List.nil_append w₀.queue) ▸ hid)
  · cases hi
  · cases hi
  · exact absurd ht List.not_mem_nil
  · cases hi
  · exact absurd ht List.not_mem_nil

/-- The invariants hold in every run, and whoever is done has nothing in hand. -/
private theorem attended_of_run
    (hrun : Interleaved environment (fun _ _ => True)
      (fun i => (acts i).program cfg mt polls) w₀ h p w) (hw : w₀.QueueReady) :
    ∃ u v, Dispatched w₀.queue h u w ∧ Attended w₀ h u v w ∧
      ∀ i, (p i).isDone = true → v i = .nothing := by
  have hinit : Dispatched w₀.queue [] (fun _ : ι => .nothing) w₀ ∧
      Attended w₀ [] (fun _ : ι => .nothing) (fun _ => .nothing) w₀ :=
    ⟨.start hw.toQueueFresh, .start hw⟩
  refine Exists.elim (hrun.invariant_both jobProtocol workProtocol WorkHold.Genuine
    (fun h u v w => Dispatched w₀.queue h u w ∧ Attended w₀ h u v w)
    (fun i => (acts i).onProtocol) (fun i => (acts i).onWorkProtocol) hinit ?_) ?_
  · rintro h u v w i o a r w' ⟨hd, ha⟩ hjob hwork henv -
    exact ⟨ha.genuine henv, hd.step hjob henv, ha.step hd hjob hwork henv⟩
  · rintro u ⟨v, ⟨hd, ha⟩, hdone⟩
    refine ⟨u, v, hd, ha, fun i hi => ?_⟩
    obtain ⟨-, hnothing⟩ := hdone i hi
    exact hnothing

/-- **Every job that is taken ends.** In every run, from the moment on at which the worker that took
a job is done, the job is COMPLETED, FAILED or CANCELLED, whatever the others do meanwhile. -/
theorem claimed_ends
    (hrun : Interleaved environment (fun _ _ => True)
      (fun i => (acts i).program cfg mt polls) w₀ h p w) (hw : w₀.QueueReady)
    (ht : TookBy h i id) (hdone : (p i).isDone = true) :
    ∃ s, w.stateOf id = some s ∧ s.IsTerminal := by
  obtain ⟨u, v, -, ha, hnothing⟩ := attended_of_run hrun hw
  refine (ha.ended i id ht).resolve_left fun hheld => ?_
  rw [hnothing i hdone] at hheld
  cases hheld

/-- **States are accounted for.** In every run, a job whose state has become RESTORING or FAILED was
taken by a worker, and the restore of a job whose state has become COMPLETED was submitted. A job in
the queue has a hash, and if its state has changed, it is PENDING or CANCELLED. -/
theorem states_accounted
    (hrun : Interleaved environment (fun _ _ => True)
      (fun i => (acts i).program cfg mt polls) w₀ h p w) (hw : w₀.QueueReady) :
    (∀ id s, w.stateOf id = some s → w₀.stateOf id ≠ some s → Accounted h id s) ∧
      ∀ id ∈ w.queue, ∃ job, w.job id = some job ∧
        ∀ s, job.state = some s → w₀.stateOf id ≠ some s → s = .PENDING ∨ s = .CANCELLED := by
  obtain ⟨u, v, hd, ha, -⟩ := attended_of_run hrun hw
  have haccounted : ∀ id s, w.stateOf id = some s → w₀.stateOf id ≠ some s → Accounted h id s :=
    fun id s hs hnew => (ha.accounted id s hs).resolve_left hnew
  refine ⟨haccounted, fun id hid => ?_⟩
  obtain ⟨job, hjob⟩ := ha.hashed id (List.mem_append_right _ hid)
  refine ⟨job, hjob, fun s hs hnew => ?_⟩
  -- what is in the queue has not been taken
  have huntaken : id ∉ takenIds h := fun htaken =>
    List.disjoint_of_nodup_append (hd.inOrder.order.nodup hd.minted.nodup) htaken hid
  have hacc := haccounted id s (by rw [World.stateOf, hjob]; exact hs) hnew
  cases s with
  | PENDING => exact .inl rfl
  | CANCELLED => exact .inr rfl
  | RESTORING | FAILED =>
    obtain ⟨i, ht⟩ := hacc
    exact absurd ht.taken huntaken
  | COMPLETED => exact absurd (hd.claimed.taken id hacc) huntaken

end Run

/-! ### A job that is cancelled after it was taken -/

/-- A world with a job in the queue. -/
private def oneQueued : World where
  jobs := (∅ : AList fun _ : Uuid => Job).insert 7
    { state := some .PENDING, proxmoxVmid := some 120, proxmoxNode := some "pve1" }
  queue := [7]
  nextUuid := 8

private theorem oneQueued_ready : oneQueued.QueueReady where
  nodup := by decide
  below := by decide
  hashed := by
    intro id hid
    obtain rfl := List.mem_singleton.mp hid
    exact ⟨_, rfl⟩

/-- A worker, and an operator who stops the job. -/
private def workAndStop : Fin 2 → Activity
  | 0 => .iteration 2
  | 1 => .stopJob 7

private abbrev stopPrograms : Fin 2 → Prog Unit := fun i => (workAndStop i).program {} .unused 0

/-- The event is the claim of the job by the worker. -/
private def isClaim (e : Fin 2 × Event commands) : Bool :=
  match e with
  | (0, ⟨.blpop, some 7⟩) => true
  | _ => false

private theorem tookBy_of_any {h : List (Fin 2 × Event commands)} (hany : h.any isClaim = true) :
    TookBy h 0 7 := by
  obtain ⟨e, he, hclaim⟩ := List.any_eq_true.mp hany
  rw [isClaim.eq_def] at hclaim
  split at hclaim
  · exact he
  · cases hclaim

/-- The operator asks for the job to be stopped when the worker has just taken it, and the worker
ends it. -/
theorem claimed_ends_stopped : ∃ h p w,
    Interleaved environment (fun _ _ => True) stopPrograms oneQueued h p w ∧
      TookBy h 0 7 ∧ (p 0).isDone = true ∧ ∃ s, w.stateOf 7 = some s ∧ s.IsTerminal := by
  have hshown : (interleave environment (fun _ _ => true)
      ((List.replicate 9 0 ++ List.replicate 3 1 ++ List.replicate 4 (0 : Fin 2)).map
        fun i => (i, .ok)) [] stopPrograms oneQueued).any (fun end_ =>
          end_.1.any isClaim && (end_.2.1 0).isDone) = true := by
    decide +kernel
  obtain ⟨h, p, w, hrun, hend⟩ := exists_interleaved (fun _ _ _ => trivial) hshown
  obtain ⟨htaken, hdone⟩ := Bool.and_eq_true_iff.mp hend
  have htook := tookBy_of_any htaken
  exact ⟨h, p, w, hrun, htook, hdone, claimed_ends hrun oneQueued_ready htook hdone⟩

/-! ### Jobs in different states -/

private theorem backlogWorld_ready : backlogWorld.QueueReady where
  toQueueFresh := backlogWorld_fresh
  hashed := by
    intro id hid
    obtain rfl := List.mem_singleton.mp hid
    exact ⟨_, rfl⟩

private abbrev iterations : Fin 2 → Prog Unit := fun _ =>
  (Activity.iteration 2).program {} .unused 3

/-- A worker enqueues the group, takes the job that was in the queue and restores it; meanwhile the
other takes the first job of the group. The second one is still in the queue. -/
theorem states_accounted_backlog : ∃ h p w,
    Interleaved environment (fun _ _ => True) iterations backlogWorld h p w ∧
      [8, 9, 10].map w.stateOf = [some .COMPLETED, some .RESTORING, some .PENDING] ∧
        w.queue = [10] ∧
          (∀ id s, w.stateOf id = some s → backlogWorld.stateOf id ≠ some s → Accounted h id s) ∧
            ∀ id ∈ w.queue, ∃ job, w.job id = some job ∧ ∀ s, job.state = some s →
              backlogWorld.stateOf id ≠ some s → s = .PENDING ∨ s = .CANCELLED := by
  have hshown : (interleave environment (fun _ _ => true)
      ((List.replicate 30 0 ++ List.replicate 16 1 ++ List.replicate 14 (0 : Fin 2)).map
        fun i => (i, .ok)) [] iterations backlogWorld).any (fun end_ =>
          decide ([8, 9, 10].map end_.2.2.stateOf =
            [some .COMPLETED, some .RESTORING, some .PENDING]) &&
              end_.2.2.queue == [10]) = true := by
    decide +kernel
  obtain ⟨h, p, w, hrun, hend⟩ := exists_interleaved (fun _ _ _ => trivial) hshown
  simp only [Bool.and_eq_true, decide_eq_true_eq, beq_iff_eq] at hend
  exact ⟨h, p, w, hrun, hend.1, hend.2, states_accounted hrun backlogWorld_ready⟩

end RestoreEngine
