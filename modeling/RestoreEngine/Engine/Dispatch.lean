import RestoreEngine.Effects.History
import RestoreEngine.Effects.Holdings
import RestoreEngine.Engine.Parts
import RestoreEngine.Model.Changes
import RestoreEngine.Protocols.Rules

/-!
# Every job is handed out once

Whatever the workers, the scheduler and the operators do, and however their commands interleave:
the ids of jobs leave the queue in the order in which they entered it, and none leaves it twice
(`dispatched_once`). So a job is submitted to Proxmox at most once, and what is submitted is what
the hash of the job says, then and ever after (`Claimed`).

The reason is local. A process pushes the id of a job only if it has made the id itself and has
written the hash under it, and it submits a restore only for a job that it has taken from the queue
itself, as it has read it since. `jobProtocol` says this of a single process, and the six procedures
of the engine keep to it.
-/

namespace RestoreEngine

open Effects Prog Program

/-! ### What a process has to do with a job -/

/-- What a process has to do with a job at the moment. -/
inductive JobHold
  | nothing
  /-- It has made an identifier. -/
  | made (id : Uuid)
  /-- It has written the hash of a new job with `f`. -/
  | written (id : Uuid) (f : Instant → Job → Job)
  /-- It has taken the job from the queue. -/
  | taken (id : Uuid)
  /-- It has taken the job from the queue, and has read its hash. -/
  | read (id : Uuid) (data : Job)

/-- The write determines what the job is about. -/
def SetsOrigin (f : Instant → Job → Job) : Prop :=
  ∀ now hash now' hash', (f now hash).origin = (f now' hash').origin

namespace JobHold

instance (m : JobHold) (id : Uuid) : Decidable (m = made id) :=
  match m with
  | made id' => decidable_of_iff (id' = id) (by simp)
  | nothing | written _ _ | taken _ | read _ _ => .isFalse (by simp)

instance (m : JobHold) (id : Uuid) : Decidable (m = taken id) :=
  match m with
  | taken id' => decidable_of_iff (id' = id) (by simp)
  | nothing | made _ | written _ _ | read _ _ => .isFalse (by simp)

/-- The identifier that nobody else knows of. -/
def own : JobHold → Option Uuid
  | made id | written id _ => some id
  | _ => none

/-- The job that has been taken and not submitted since. -/
def claim : JobHold → Option Uuid
  | taken id | read id _ => some id
  | _ => none

/-- What a process has to do with a job after a command. -/
def after (m : JobHold) : (o : Op) → o.Res → JobHold
  | .uuid4, id => made id
  | .hset id f, _ => if m = made id then written id f else m
  | .rpush _, _ => nothing
  | .blpop, claimed => claimed.elim nothing taken
  | .hgetall id, data =>
    if m = taken id then data.elim m (read id) else m
  | .qemuRestore _ _ _, _ => nothing
  | _, _ => m

end JobHold

/-- The restore that is asked for on `node` is the one that the hash of the job describes. -/
structure Job.Describes (data : Job) (node : String) (p : RestoreParams) : Prop where
  node : data.proxmoxNode = some node
  vmid : data.proxmoxVmid = some p.vmid
  archive : data.archive = p.archive
  force : data.force = p.force

/-- **The protocol of jobs**: new jobs are written, in all that they are about, before they are
pushed by the process that has made their ids; restores are submitted for jobs that the process has
taken and read; and nobody changes what a job is about. -/
def jobProtocol : Protocol commands JobHold where
  observe := JobHold.after
  Permits m o :=
    match o with
    | .rpush id => ∃ f, m = .written id f ∧ SetsOrigin f
    | .hset id f => m = .made id ∨ KeepsOrigin f
    | .hsetLrem _ f => KeepsOrigin f
    | .qemuRestore px node p =>
      ∃ id data, m = .read id data ∧ px = .job id ∧ data.Describes node p
    | _ => True

/-! ### The six procedures keep to the protocol -/

section Protocol

variable {α : Type} {cfg : Config} {mt : Matching} {polls : ℕ} {m : JobHold} {p : Prog α}
  {id : Uuid} {data : Job}

/-- Commands that may be issued at any time. -/
def Op.LeavesJobs : Op → Prop
  | hset _ f | hsetLrem _ f => KeepsOrigin f
  | rpush _ | qemuRestore _ _ _ => False
  | _ => True

private theorem leavesJobs_kept (hp : p.Only Op.LeavesJobs) :
    Satisfies jobProtocol.machine (fun _ _ => True) m p := by
  refine hp.satisfies (I := fun _ => True) trivial (fun m o ho _ => ?_)
    fun _ _ _ _ _ _ _ => trivial
  cases o <;> first | exact trivial | exact ho.elim | exact .inr ho | exact ho

theorem Op.KeepsBooks.leavesJobs {o : Op} (ho : o.KeepsBooks) : o.LeavesJobs := by
  cases o <;> first | exact trivial | exact ho.elim

theorem Op.OfDestroy.leavesJobs {px : Client} {vmid : ℤ} {o : Op} (ho : o.OfDestroy px vmid) :
    o.LeavesJobs := by
  cases o <;> first | exact trivial | exact ho.elim

theorem Op.OfWatch.leavesJobs {o : Op} (ho : o.OfWatch id) : o.LeavesJobs := by
  cases o <;> first | exact trivial | exact ho.elim | exact ho.2

theorem Op.OfFinish.leavesJobs {o : Op} (ho : o.OfFinish id) : o.LeavesJobs := by
  rcases ho with ho | ⟨node, v, rfl⟩
  · exact ho.leavesJobs
  · trivial

theorem Op.OfCancel.leavesJobs {o : Op} (ho : o.OfCancel) : o.LeavesJobs := by
  cases o <;> first | exact trivial | exact ho.elim | exact ho.1

/-- What a worker does around the restore does not change what it has to do with the job. -/
private theorem watch_kept (hp : p.Only (Op.OfWatch id)) :
    Satisfies jobProtocol.machine (fun _ m' => m' = .read id data) (.read id data) p := by
  refine onProtocol_of_only hp (fun o ho => ?_) fun o r ho => ?_
  · cases o <;> first | exact trivial | exact ho.elim | exact .inr ho.2
  · cases o <;> first | rfl | exact ho.elim

private theorem writeJobs_onProtocol {req : EnqueueRequest}
    (rows : List (Row × ℤ × String × String)) :
    Satisfies jobProtocol.machine (fun _ _ => True) m (writeJobs req rows) := by
  induction rows generalizing m with
  | nil => exact satisfies_ret.mpr trivial
  | cons e rest ih =>
    obtain ⟨row, vmid, node, storage⟩ := e
    rw [writeJobs, satisfies_bind]
    refine (onProtocol_issue .uuid4).mpr ⟨trivial, fun jobId => ?_⟩
    rw [then_ok, satisfies_bind]
    refine (onProtocol_issue .utcNow).mpr ⟨trivial, fun now => ?_⟩
    have hmade : jobProtocol.observe (jobProtocol.observe m .uuid4 jobId) .utcNow now =
        .made jobId := rfl
    rw [then_ok, hmade]
    refine Satisfies.bind (R := fun _ m' => m' = .made jobId) (satisfies_ofExcept.mpr rfl) ?_
      fun _ _ _ => trivial
    rintro archive _ rfl
    refine Satisfies.bind (R := fun _ m' => m' = .made jobId) (satisfies_ofExcept.mpr rfl) ?_
      fun _ _ _ => trivial
    rintro sourceVmid _ rfl
    rw [satisfies_bind]
    refine (onProtocol_issue (.hset jobId _)).mpr ⟨.inl rfl, fun _ => ?_⟩
    have hwritten : ∀ f u, jobProtocol.observe (.made jobId) (.hset jobId f) u =
        .written jobId f := fun f u => if_pos rfl
    rw [then_ok, hwritten, satisfies_bind]
    -- a new job hash has all that a job is about, whatever was there before
    refine (onProtocol_issue (.rpush jobId)).mpr ⟨⟨_, rfl, fun _ _ _ _ => rfl⟩, fun _ => ?_⟩
    rw [then_ok]
    exact ih.bind (fun _ _ _ => satisfies_ret.mpr trivial) fun _ _ _ => trivial

private theorem enqueueRestores_onProtocol (req : EnqueueRequest) :
    Satisfies jobProtocol.machine (fun _ _ => True) m (enqueueRestores req) := by
  have hseq : ∀ {β γ : Type} {q : Prog β} {f : β → Prog γ} {m : JobHold}, q.Only Op.LeavesJobs →
      (∀ b m', Satisfies jobProtocol.machine (fun _ _ => True) m' (f b)) →
      Satisfies jobProtocol.machine (fun _ _ => True) m (q >>= f) := fun hq hf =>
    (leavesJobs_kept hq).bind (fun b m' _ => hf b m') fun _ _ _ => trivial
  refine hseq only_ofExcept fun _ _ => ?_
  refine hseq (Only.bind (only_perform.mpr trivial) fun _ => only_ofExcept) fun _ _ => ?_
  refine hseq (listInUse_only trivial) fun inUse _ => hseq only_ofExcept fun vmids _ => ?_
  refine hseq (activeRestoreCountsByNode_only trivial fun _ => trivial) fun counts _ => ?_
  refine hseq only_ofExcept fun placed _ => hseq (reclaimStep_only.mono ?_) fun _ _ => ?_
  · rintro o ⟨v, ho⟩
    exact ho.leavesJobs
  · exact (writeJobs_onProtocol _).bind (fun _ _ _ => satisfies_ret.mpr trivial)
      fun _ _ _ => trivial

/-- The restore of a job, as its hash describes it. -/
private theorem restoreTask_onProtocol {node : String} {vmid : ℤ}
    (hplace : placement data = .ok (node, vmid)) :
    Satisfies jobProtocol.machine (fun _ _ => True) (.read id data)
      (restoreTask cfg polls (.job id) id data node vmid) := by
  obtain ⟨hnode, hvmid, -⟩ := placement_ok_iff.mp hplace
  rw [restoreTask, submitRestore, satisfies_bind, satisfies_bind]
  refine (onProtocol_issue (.qemuRestore _ node _)).mpr
    ⟨⟨id, data, rfl, rfl, ⟨hnode, hvmid, rfl, rfl⟩⟩, fun reply => ?_⟩
  rw [then_ok]
  have hrest : ∀ {β : Type} {q : Prog β} {m : JobHold}, q.Only (Op.OfWatch id) →
      Satisfies jobProtocol.machine (fun _ _ => True) m q := fun hq =>
    leavesJobs_kept (hq.mono fun _ ho => ho.leavesJobs)
  rcases reply with exc | _ | upid
  · exact satisfies_raise.mpr (then_error.mpr trivial)
  · exact satisfies_raise.mpr (then_error.mpr trivial)
  · refine satisfies_ret.mpr ?_
    rw [then_ok]
    exact hrest (Only.bind (only_perform.mpr ⟨rfl, fun _ _ => rfl⟩) fun _ => awaitRestore_only)

private theorem beginJob_onProtocol :
    Satisfies jobProtocol.machine (fun _ _ => True) (.read id data)
      (beginJob cfg polls id data) := by
  have hwatch : ∀ {β : Type} {q : Prog β} {f : β → Prog Unit}, q.Only (Op.OfWatch id) →
      (∀ b, Satisfies jobProtocol.machine (fun _ _ => True) (.read id data) (f b)) →
      Satisfies jobProtocol.machine (fun _ _ => True) (.read id data) (q >>= f) := by
    intro β q f hq hf
    refine (watch_kept hq).bind ?_ fun _ _ _ => trivial
    rintro b _ rfl
    exact hf b
  rw [beginJob]
  cases hplace : placement data with
  | error exc => exact satisfies_raise.mpr trivial
  | ok placed =>
    obtain ⟨node, vmid⟩ := placed
    refine Satisfies.ite (fun _ => satisfies_raise.mpr trivial) fun _ => ?_
    refine hwatch setState_only fun _ => hwatch sampleStep_only fun _ => ?_
    refine hwatch (Only.bind (only_perform.mpr rfl) fun _ => only_ofExcept) fun _ => ?_
    refine (restoreTask_onProtocol hplace).bind (fun restored m' _ => ?_) fun _ _ _ => trivial
    exact leavesJobs_kept (Only.ite
      (fun _ => finishJob_only.mono fun _ ho => ho.leavesJobs) fun _ => only_ret)

private theorem claimJob_onProtocol :
    Satisfies jobProtocol.machine (fun _ _ => True) m (claimJob cfg polls) := by
  rw [claimJob, satisfies_bind]
  refine (onProtocol_issue .blpop).mpr ⟨trivial, fun claimed => ?_⟩
  rw [then_ok]
  cases claimed with
  | none => exact satisfies_ret.mpr trivial
  | some id =>
    refine Satisfies.bind (R := fun _ _ => True) ?_ (fun out m' _ => ?_) fun _ _ _ => trivial
    · refine satisfies_attempt.mpr ?_
      rw [processJob, satisfies_bind]
      refine (onProtocol_issue (.hgetall id)).mpr ⟨trivial, fun found => ?_⟩
      rw [then_ok]
      cases found with
      | none => exact satisfies_ret.mpr trivial
      | some data =>
        have hread : jobProtocol.observe (jobProtocol.observe m .blpop (some id)) (.hgetall id)
            (some data) = .read id data := if_pos rfl
        rw [hread]
        refine (watch_kept cancelRequested_only).bind ?_ fun _ _ _ => trivial
        rintro cancelled _ rfl
        refine Satisfies.ite (fun _ => ?_) fun _ => beginJob_onProtocol
        exact leavesJobs_kept (setState_only.mono fun _ ho => ho.leavesJobs)
    · cases out with
      | ok _ => exact satisfies_ret.mpr trivial
      | error exc => exact leavesJobs_kept (setState_only.mono fun _ ho => ho.leavesJobs)

private theorem teardownPlanRun_onProtocol (run : PlanRun) :
    Satisfies jobProtocol.machine (fun _ _ => True) m (teardownPlanRun run) :=
  leavesJobs_kept (teardownPlanRun_only (fun _ ho => ho.leavesJobs) trivial
    fun _ _ ho => ho.leavesJobs)

/-- **Every process keeps to the protocol.** -/
theorem Activity.onProtocol (act : Activity) :
    Satisfies jobProtocol.machine (fun _ _ => True) m (act.program cfg mt polls) := by
  refine act.composed.satisfies (I := fun _ => True) (fun m o ho _ => ?_)
    (fun _ _ _ _ _ _ _ => trivial) (fun β q m hpart _ => ?_) trivial
  · have hfree := ho.leavesJobs
    cases o <;> first | exact trivial | exact ho.elim
  · cases hpart with
    | enqueue req => exact enqueueRestores_onProtocol req
    | work => exact claimJob_onProtocol
    | teardown run => exact teardownPlanRun_onProtocol run
    | cancel id => exact leavesJobs_kept (cancelJob_only.mono fun _ ho => ho.leavesJobs)
    | stop id => exact leavesJobs_kept (stopJob_only.mono fun _ ho => ho.leavesJobs)
    | drain fuel => exact leavesJobs_kept (drainPendingJobs_only.mono fun _ ho => ho.leavesJobs)

end Protocol

/-! ### What has happened to jobs -/

section History

variable {ι : Type}

/-- The id that the event pushes. -/
def pushedBy (e : Event commands) : Option Uuid :=
  match e.op with
  | .rpush id => some id
  | _ => none

/-- The id that the event takes from the queue. -/
def takenBy (e : Event commands) : Option Uuid :=
  match e.op, e.res with
  | .blpop, claimed | .lpop, claimed => claimed
  | _, _ => none

/-- The id that the event removes from the queue, wherever it is. -/
def removedBy (e : Event commands) : Option Uuid :=
  match e.op with
  | .hsetLrem id _ => some id
  | _ => none

/-- A restore that was submitted: the job, the node, and what was asked for. -/
abbrev Submission := Uuid × String × RestoreParams

/-- The restore that the event submits for a job. -/
def submittedBy (e : Event commands) : Option Submission :=
  match e.op with
  | .qemuRestore px node p => px.jobId.map fun id => (id, node, p)
  | _ => none

/-- The ids that were in the queue at first, and those that were pushed, in order. -/
def queuedIds (queue : List Uuid) (h : List (ι × Event commands)) : List Uuid :=
  queue ++ h.filterMap fun e => pushedBy e.2

/-- The ids that were taken from the queue, in order. -/
def takenIds (h : List (ι × Event commands)) : List Uuid := h.filterMap fun e => takenBy e.2

/-- The ids that were removed from the queue. -/
def removedIds (h : List (ι × Event commands)) : List Uuid := h.filterMap fun e => removedBy e.2

/-- The restores that were submitted for jobs, in order. -/
def submissions (h : List (ι × Event commands)) : List Submission :=
  h.filterMap fun e => submittedBy e.2

variable {queue : List Uuid} {h : List (ι × Event commands)} {e : ι × Event commands}

theorem queuedIds_append :
    queuedIds queue (h ++ [e]) = queuedIds queue h ++ (pushedBy e.2).toList := by
  rw [queuedIds, queuedIds, List.filterMap_append, List.append_assoc]
  cases hpush : pushedBy e.2 <;> simp [hpush]

theorem takenIds_append : takenIds (h ++ [e]) = takenIds h ++ (takenBy e.2).toList := by
  rw [takenIds, takenIds, List.filterMap_append]
  cases htake : takenBy e.2 <;> simp [htake]

theorem removedIds_append : removedIds (h ++ [e]) = removedIds h ++ (removedBy e.2).toList := by
  rw [removedIds, removedIds, List.filterMap_append]
  cases hremove : removedBy e.2 <;> simp [hremove]

theorem submissions_append :
    submissions (h ++ [e]) = submissions h ++ (submittedBy e.2).toList := by
  rw [submissions, submissions, List.filterMap_append]
  cases hsubmit : submittedBy e.2 <;> simp [hsubmit]

end History

/-! ### The invariant -/

section Invariant

variable {ι : Type} [DecidableEq ι] {w₀ w w' : World} {h : List (ι × Event commands)}
  {v : ι → JobHold} {i : ι} {o : Op} {a : Answer} {r : o.Res}

/-- **New ids are new**: what has been in the queue is no longer anybody's own. -/
structure Minted (queue : List Uuid) (h : List (ι × Event commands)) (v : ι → JobHold)
    (next : Uuid) : Prop where
  below : ∀ id ∈ queuedIds queue h, id < next
  nodup : (queuedIds queue h).Nodup
  own : HeldAll JobHold.own (fun id => id < next ∧ id ∉ queuedIds queue h) v
  exclusive : Exclusive JobHold.own v

/-- **First in, first out**: what was taken, and then what is queued, is in the order in which it
entered the queue; and what is missing was removed. -/
structure InOrder (queue : List Uuid) (h : List (ι × Event commands)) (left : List Uuid) :
    Prop where
  order : (takenIds h ++ left).Sublist (queuedIds queue h)
  kept : ∀ id ∈ queuedIds queue h, id ∈ takenIds h ∨ id ∈ left ∨ id ∈ removedIds h

/-- The hash of the job is about what `data` is about. -/
def SameOrigin (w : World) (id : Uuid) (data : Job) : Prop :=
  ∃ j, w.job id = some j ∧ j.origin = data.origin

/-- **Claims are kept once**: a job that is held by a worker, or was submitted, has been taken, and
its hash is still about the same. -/
structure Claimed (h : List (ι × Event commands)) (v : ι → JobHold) (w : World) :
    Prop where
  claims : HeldAll JobHold.claim
    (fun id => id ∈ takenIds h ∧ id ∉ (submissions h).map Prod.fst) v
  exclusive : Exclusive JobHold.claim v
  nodup : ((submissions h).map Prod.fst).Nodup
  taken : ∀ id ∈ (submissions h).map Prod.fst, id ∈ takenIds h
  read : ∀ i id data, v i = .read id data → SameOrigin w id data
  described : ∀ s ∈ submissions h, ∃ j, w.job s.1 = some j ∧ j.Describes s.2.1 s.2.2

/-- **The invariant of dispatching.** -/
structure Dispatched (queue : List Uuid) (h : List (ι × Event commands)) (v : ι → JobHold)
    (w : World) : Prop where
  minted : Minted queue h v w.nextUuid
  inOrder : InOrder queue h w.queue
  claimed : Claimed h v w

/-! #### New ids -/

/-- Only `uuid4` gives a process an id of its own. -/
private theorem own_after {m : JobHold} (ho : o ≠ .uuid4) (x : Uuid)
    (hx : (m.after o r).own = some x) : m.own = some x := by
  cases o with
  | uuid4 => exact (ho rfl).elim
  | hset id f =>
    by_cases hm : m = .made id
    · rw [hm] at hx ⊢
      rwa [JobHold.after, if_pos rfl] at hx
    · rwa [JobHold.after, if_neg hm] at hx
  | hgetall id =>
    by_cases hm : m = .taken id
    · rw [hm, JobHold.after, if_pos rfl] at hx
      cases r <;> cases hx
    · rwa [JobHold.after, if_neg hm] at hx
  | blpop => cases r <;> cases hx
  | rpush _ | qemuRestore _ _ _ => cases hx
  | _ => exact hx

private theorem Minted.step (hm : Minted w₀.queue h v w.nextUuid)
    (hpermits : jobProtocol.Permits (v i) o) (henv : environment o a w = some (r, w')) :
    Minted w₀.queue (h ++ [(i, ⟨o, r⟩)]) (Function.update v i ((v i).after o r)) w'.nextUuid := by
  have hnext : w'.nextUuid = o.uuidAfter w := (after_step henv).nextUuid
  by_cases hu : o = .uuid4
  · -- the new id is above all that have been made
    subst hu
    have hpair : (w.nextUuid, { w with nextUuid := w.nextUuid + 1 }) = (r, w') :=
      Option.some.inj henv
    obtain ⟨rfl, -⟩ := Prod.mk.inj hpair
    have hsame : queuedIds w₀.queue (h ++ [(i, ⟨.uuid4, w.nextUuid⟩)]) = queuedIds w₀.queue h :=
      queuedIds_append.trans (List.append_nil _)
    have hlt : ∀ id, id < w.nextUuid → id < w'.nextUuid := fun id hid => by
      rw [hnext]
      exact Nat.lt_succ_of_lt hid
    refine ⟨?_, hsame ▸ hm.nodup, ?_, ?_⟩
    · rw [hsame]
      exact fun id hid => hlt id (hm.below id hid)
    · rw [hsame]
      refine hm.own.update (fun x hx => ?_) fun j x _ _ hx => ⟨hlt x hx.1, hx.2⟩
      obtain rfl := Option.some.inj hx
      refine ⟨?_, fun hold => absurd (hm.below _ hold) (lt_irrefl _)⟩
      rw [hnext]
      exact Nat.lt_succ_self _
    · refine hm.exclusive.acquire fun x hx j _ hj => ?_
      obtain rfl := Option.some.inj hx
      exact absurd (hm.own j _ hj).1 (lt_irrefl _)
  · have howns : ∀ x, ((v i).after o r).own = some x → (v i).own = some x := own_after hu
    have huuid : w'.nextUuid = w.nextUuid := by
      rw [hnext]
      cases o <;> first | rfl | exact absurd rfl hu
    rw [huuid]
    have hexclusive := hm.exclusive.retain howns
    by_cases hpush : ∃ id, o = .rpush id
    · -- the id that enters the queue was this process's own, and is nobody's now
      obtain ⟨id, rfl⟩ := hpush
      have hown : (v i).own = some id := by
        obtain ⟨f, hwritten, -⟩ := hpermits
        exact congrArg JobHold.own hwritten
      have hqueued : queuedIds w₀.queue (h ++ [(i, ⟨.rpush id, r⟩)]) =
          queuedIds w₀.queue h ++ [id] := queuedIds_append
      obtain ⟨hlt, hnew⟩ := hm.own i id hown
      refine ⟨fun x hx => ?_, ?_, ?_, hexclusive⟩
      · rw [hqueued, List.mem_append, List.mem_singleton] at hx
        rcases hx with hx | rfl
        · exact hm.below x hx
        · exact hlt
      · rw [hqueued]
        exact hm.nodup.append (List.nodup_singleton id) (List.disjoint_singleton.mpr hnew)
      · refine hm.own.update (fun x hx => by cases hx) fun j x hji hj hx => ⟨hx.1, ?_⟩
        rw [hqueued, List.mem_append, List.mem_singleton]
        rintro (hold | rfl)
        · exact hx.2 hold
        · exact hji (hm.exclusive j i x hj hown)
    · -- nothing enters the queue
      have hqueued : queuedIds w₀.queue (h ++ [(i, ⟨o, r⟩)]) = queuedIds w₀.queue h := by
        rw [queuedIds_append]
        cases o <;> first | exact List.append_nil _ | exact absurd ⟨_, rfl⟩ hpush
      have hown := hm.own.retain howns fun _ hx => hx
      exact ⟨hqueued ▸ hm.below, hqueued ▸ hm.nodup, hqueued ▸ hown, hexclusive⟩

/-- An id that has been made, and is nobody's own, stays so. -/
theorem unowned_step {id : Uuid} (hlt : id < w.nextUuid) (hfree : ∀ j, (v j).own ≠ some id)
    (henv : environment o a w = some (r, w')) :
    id < w'.nextUuid ∧ ∀ j, (Function.update v i ((v i).after o r) j).own ≠ some id := by
  have hnext : w'.nextUuid = o.uuidAfter w := (after_step henv).nextUuid
  rw [hnext]
  refine ⟨?_, fun j hj => ?_⟩
  · cases o with
    | uuid4 => exact Nat.lt_succ_of_lt hlt
    | _ => exact hlt
  · by_cases hji : j = i
    · subst hji
      rw [Function.update_self] at hj
      by_cases hu : o = .uuid4
      · subst hu
        have hpair : (w.nextUuid, { w with nextUuid := w.nextUuid + 1 }) = (r, w') :=
          Option.some.inj henv
        obtain ⟨rfl, -⟩ := Prod.mk.inj hpair
        obtain rfl := Option.some.inj hj
        exact absurd hlt (lt_irrefl _)
      · exact hfree j (own_after hu id hj)
    · rw [Function.update_of_ne hji] at hj
      exact hfree j hj

/-! #### What a step does to hashes -/

omit [DecidableEq ι] in
/-- **A step writes to one hash at most.** -/
theorem job_step (henv : environment o a w = some (r, w')) (id : Uuid) :
    w'.job id = w.job id ∨ ∃ f, (o = .hset id f ∨ o = .hsetLrem id f) ∧
      w'.job id = some (f w.clock ((w.job id).getD {})) := by
  have hjobs : w'.jobs = o.jobsAfter w := (after_step henv).jobs
  have hwrite : ∀ {id' f}, o.jobsAfter w = (w.setJob id' f).jobs →
      w'.job id = (w.setJob id' f).job id := fun hafter => by
    rw [World.job, hjobs, hafter]
    rfl
  cases o with
  | hset id' f =>
    by_cases hid : id' = id
    · subst hid
      exact .inr ⟨f, .inl rfl, (hwrite rfl).trans (World.job_setJob w id' f)⟩
    · exact .inl ((hwrite rfl).trans (World.job_setJob_ne w f (Ne.symm hid)))
  | hsetLrem id' f =>
    by_cases hid : id' = id
    · subst hid
      exact .inr ⟨f, .inr rfl, (hwrite rfl).trans (World.job_setJob w id' f)⟩
    · exact .inl ((hwrite rfl).trans (World.job_setJob_ne w f (Ne.symm hid)))
  | _ => exact .inl (by rw [World.job, hjobs]; rfl)

/-! #### The order of the queue -/

omit [DecidableEq ι] in
private theorem InOrder.step (hq : InOrder w₀.queue h w.queue)
    (henv : environment o a w = some (r, w')) :
    InOrder w₀.queue (h ++ [(i, ⟨o, r⟩)]) w'.queue := by
  have hqueue : w'.queue = o.queueAfter w := (after_step henv).queue
  -- a pop takes the first id
  have hpop : takenIds (h ++ [(i, ⟨o, r⟩)]) = takenIds h ++ w.queue.head?.toList →
      queuedIds w₀.queue (h ++ [(i, ⟨o, r⟩)]) = queuedIds w₀.queue h →
      removedIds (h ++ [(i, ⟨o, r⟩)]) = removedIds h → o.queueAfter w = w.queue.tail →
      InOrder w₀.queue (h ++ [(i, ⟨o, r⟩)]) w'.queue := by
    intro htaken hqueued hremoved htail
    have hsplit : w.queue.head?.toList ++ w.queue.tail = w.queue := by cases w.queue <;> rfl
    refine ⟨?_, fun id hid => ?_⟩
    · rw [htaken, hqueued, hqueue, htail, List.append_assoc, hsplit]
      exact hq.order
    · rw [hqueued] at hid
      rw [htaken, hremoved, hqueue, htail, List.mem_append]
      rcases hq.kept id hid with htaken | hleft | hremoved
      · exact .inl (.inl htaken)
      · rw [← hsplit, List.mem_append] at hleft
        exact hleft.elim (fun hhead => .inl (.inr hhead)) fun hrest => .inr (.inl hrest)
      · exact .inr (.inr hremoved)
  have hsame : takenIds (h ++ [(i, ⟨o, r⟩)]) = takenIds h →
      queuedIds w₀.queue (h ++ [(i, ⟨o, r⟩)]) = queuedIds w₀.queue h →
      removedIds (h ++ [(i, ⟨o, r⟩)]) = removedIds h → o.queueAfter w = w.queue →
      InOrder w₀.queue (h ++ [(i, ⟨o, r⟩)]) w'.queue := by
    intro htaken hqueued hremoved hleft
    refine ⟨?_, ?_⟩
    · rw [htaken, hqueued, hqueue, hleft]
      exact hq.order
    · rw [htaken, hqueued, hremoved, hqueue, hleft]
      exact hq.kept
  have htaken := takenIds_append (h := h) (e := (i, ⟨o, r⟩))
  have hqueued : queuedIds w₀.queue (h ++ [(i, ⟨o, r⟩)]) =
      queuedIds w₀.queue h ++ (pushedBy ⟨o, r⟩).toList := queuedIds_append
  have hremoved := removedIds_append (h := h) (e := (i, ⟨o, r⟩))
  cases o with
  | blpop | lpop =>
    have hpair : (w.queue.head?, { w with queue := w.queue.tail }) = (r, w') :=
      Option.some.inj henv
    obtain ⟨rfl, -⟩ := Prod.mk.inj hpair
    exact hpop htaken (hqueued.trans (List.append_nil _)) (hremoved.trans (List.append_nil _)) rfl
  | rpush id =>
    replace htaken := htaken.trans (List.append_nil _)
    replace hremoved := hremoved.trans (List.append_nil _)
    have hback : w'.queue = w.queue ++ [id] := hqueue
    refine ⟨?_, fun id' hid => ?_⟩
    · rw [htaken, hqueued, hback, ← List.append_assoc]
      exact hq.order.append (List.Sublist.refl _)
    · rw [hqueued, List.mem_append] at hid
      rw [htaken, hremoved, hback, List.mem_append]
      rcases hid with hid | hid
      · rcases hq.kept id' hid with htaken | hleft | hremoved
        · exact .inl htaken
        · exact .inr (.inl (.inl hleft))
        · exact .inr (.inr hremoved)
      · exact .inr (.inl (.inr hid))
  | hsetLrem id f =>
    replace htaken := htaken.trans (List.append_nil _)
    replace hqueued := hqueued.trans (List.append_nil _)
    refine ⟨?_, fun id' hid => ?_⟩
    · rw [htaken, hqueued, hqueue]
      exact (List.filter_sublist.append_left _).trans hq.order
    · rw [hqueued] at hid
      rw [htaken, hremoved, hqueue, List.mem_append]
      rcases hq.kept id' hid with htaken | hleft | hremoved
      · exact .inl htaken
      · by_cases heq : id' = id
        · exact .inr (.inr (.inr (List.mem_singleton.mpr heq)))
        · exact .inr (.inl (List.mem_filter.mpr ⟨hleft, decide_eq_true heq⟩))
      · exact .inr (.inr (.inl hremoved))
  | _ =>
    exact hsame (htaken.trans (List.append_nil _)) (hqueued.trans (List.append_nil _))
      (hremoved.trans (List.append_nil _)) rfl

/-! #### Claims -/

theorem Job.Describes.of_origin {j j' : Job} {node : String} {p : RestoreParams}
    (hj : j.Describes node p) (horigin : j'.origin = j.origin) : j'.Describes node p := by
  simp only [Job.origin, Prod.mk.injEq] at horigin
  obtain ⟨-, hvmid, hnode, -, -, hforce, harchive⟩ := horigin
  exact ⟨hnode.trans hj.node, hvmid.trans hj.vmid, harchive.trans hj.archive,
    hforce.trans hj.force⟩

/-- What a taken job is about stays the same. -/
private def OriginsKept (ids : List Uuid) (w w' : World) : Prop :=
  ∀ id ∈ ids, ∀ j, w.job id = some j → ∃ j', w'.job id = some j' ∧ j'.origin = j.origin

private theorem SameOrigin.kept {ids : List Uuid} {id : Uuid} {data : Job}
    (hdata : SameOrigin w id data) (hkept : OriginsKept ids w w') (hid : id ∈ ids) :
    SameOrigin w' id data := by
  obtain ⟨j, hj, horigin⟩ := hdata
  obtain ⟨j', hj', horigin'⟩ := hkept id hid j hj
  exact ⟨j', hj', horigin'.trans horigin⟩

/-- The process that moves is not about to submit a job, and the others hold what they held. -/
private theorem Claimed.read_kept {m : JobHold} (hc : Claimed h v w)
    (hkept : OriginsKept (takenIds h) w w') (hread : ∀ id data, m = .read id data →
      id ∈ takenIds h ∧ SameOrigin w id data) (j : ι) (id : Uuid) (data : Job)
    (hj : Function.update v i m j = .read id data) : SameOrigin w' id data := by
  by_cases hji : j = i
  · subst hji
    rw [Function.update_self] at hj
    obtain ⟨hid, hsame⟩ := hread id data hj
    exact hsame.kept hkept hid
  · rw [Function.update_of_ne hji] at hj
    exact (hc.read j id data hj).kept hkept (hc.claims j id (hj ▸ rfl)).1

omit [DecidableEq ι] in
private theorem Claimed.described_kept (hc : Claimed h v w)
    (hkept : OriginsKept (takenIds h) w w') :
    ∀ s ∈ submissions h, ∃ j, w'.job s.1 = some j ∧ j.Describes s.2.1 s.2.2 := by
  intro s hs
  obtain ⟨j, hj, hdescribed⟩ := hc.described s hs
  obtain ⟨j', hj', horigin⟩ := hkept s.1 (hc.taken s.1 (List.mem_map_of_mem hs)) j hj
  exact ⟨j', hj', hdescribed.of_origin horigin⟩

/-- A step without a submission, and without a new claim. -/
private theorem Claimed.same {h' : List (ι × Event commands)} {m : JobHold}
    (hc : Claimed h v w) (htaken : ∀ id ∈ takenIds h, id ∈ takenIds h')
    (hsub : submissions h' = submissions h)
    (hclaim : ∀ x, m.claim = some x → (v i).claim = some x)
    (hread : ∀ id data, m = .read id data → SameOrigin w id data)
    (hkept : OriginsKept (takenIds h) w w') : Claimed h' (Function.update v i m) w' := by
  have hclaims := hc.claims.retain (i := i) hclaim
    fun x hx => (⟨htaken x hx.1, hx.2⟩ : x ∈ takenIds h' ∧ x ∉ (submissions h).map Prod.fst)
  refine ⟨hsub ▸ hclaims, hc.exclusive.retain hclaim, hsub ▸ hc.nodup, fun id hid => ?_,
    hc.read_kept hkept fun id data hm => ?_, hsub ▸ hc.described_kept hkept⟩
  · rw [hsub] at hid
    exact htaken id (hc.taken id hid)
  · exact ⟨(hc.claims i id (hclaim id (hm ▸ rfl))).1, hread id data hm⟩

/-- A write to a hash keeps what the taken jobs are about. -/
private theorem originsKept_setJob {ids : List Uuid} {id : Uuid} {f : Instant → Job → Job}
    (hjobs : ∀ id', w'.job id' = (w.setJob id f).job id') (hf : id ∉ ids ∨ KeepsOrigin f) :
    OriginsKept ids w w' := by
  intro id' hid' j hj
  by_cases heq : id' = id
  · subst heq
    have hkeeps : KeepsOrigin f := hf.resolve_left fun hnot => hnot hid'
    refine ⟨_, (hjobs id').trans (World.job_setJob w id' f), ?_⟩
    rw [hj]
    exact hkeeps _ _
  · exact ⟨j, (hjobs id').trans ((World.job_setJob_ne w f heq).trans hj), rfl⟩

private theorem Claimed.step (hc : Claimed h v w) (hm : Minted w₀.queue h v w.nextUuid)
    (hq : InOrder w₀.queue h w.queue) (hpermits : jobProtocol.Permits (v i) o)
    (henv : environment o a w = some (r, w')) :
    Claimed (h ++ [(i, ⟨o, r⟩)]) (Function.update v i ((v i).after o r)) w' := by
  have hjobs : w'.jobs = o.jobsAfter w := (after_step henv).jobs
  have hqueued : ∀ id ∈ takenIds h, id ∈ queuedIds w₀.queue h := fun id hid =>
    hq.order.subset (List.mem_append_left _ hid)
  have htaken := takenIds_append (h := h) (e := (i, ⟨o, r⟩))
  have hsub := submissions_append (h := h) (e := (i, ⟨o, r⟩))
  have hmore : ∀ id ∈ takenIds h, id ∈ takenIds (h ++ [(i, ⟨o, r⟩)]) := fun id hid => by
    rw [htaken]
    exact List.mem_append_left _ hid
  have hstill : o.jobsAfter w = w.jobs → OriginsKept (takenIds h) w w' := fun hsame id _ j hj =>
    ⟨j, by rwa [World.job, hjobs, hsame], rfl⟩
  cases o with
  | hset id f =>
    have hown : v i = .made id → id ∉ takenIds h := fun hmade hid =>
      (hm.own i id (congrArg JobHold.own hmade)).2 (hqueued id hid)
    have hafter : ∀ {P : JobHold → Prop}, P (.written id f) → P (v i) →
        P ((v i).after (.hset id f) r) := by
      intro P hwritten hsame
      by_cases hmade : v i = .made id
      · rwa [JobHold.after, if_pos hmade]
      · rwa [JobHold.after, if_neg hmade]
    have hjob : ∀ id', w'.job id' = (w.setJob id f).job id' := fun id' => by
      rw [World.job, hjobs]
      rfl
    refine hc.same hmore (hsub.trans (List.append_nil _)) ?_ ?_
      (originsKept_setJob hjob (hpermits.imp_left hown))
    · exact hafter (P := fun m => ∀ x, m.claim = some x → (v i).claim = some x)
        (fun x hx => by cases hx) fun x hx => hx
    · exact hafter (P := fun m => ∀ id data, m = .read id data → SameOrigin w id data)
        (fun x data hx => by cases hx) fun x data hx => hc.read i x data hx
  | hsetLrem id f =>
    have hjob : ∀ id', w'.job id' = (w.setJob id f).job id' := fun id' => by
      rw [World.job, hjobs]
      rfl
    exact hc.same hmore (hsub.trans (List.append_nil _)) (fun _ hx => hx)
      (fun id data hx => hc.read i id data hx) (originsKept_setJob hjob (.inr hpermits))
  | hgetall id =>
    have hpair : (w.job id, w) = (r, w') := Option.some.inj henv
    obtain ⟨rfl, -⟩ := Prod.mk.inj hpair
    refine hc.same hmore (hsub.trans (List.append_nil _)) ?_ ?_ (hstill rfl)
    · intro x hx
      by_cases hheld : v i = .taken id
      · rw [JobHold.after, if_pos hheld] at hx
        cases hjob : w.job id with
        | none => rwa [hjob] at hx
        | some data =>
          rw [hjob] at hx
          rw [hheld]
          exact hx
      · rwa [JobHold.after, if_neg hheld] at hx
    · intro x data hx
      by_cases hheld : v i = .taken id
      · rw [JobHold.after, if_pos hheld] at hx
        cases hjob : w.job id with
        | none =>
          rw [hjob] at hx
          exact hc.read i x data hx
        | some found =>
          rw [hjob] at hx
          obtain ⟨rfl, rfl⟩ := JobHold.read.inj hx
          exact ⟨_, hjob, rfl⟩
      · rw [JobHold.after, if_neg hheld] at hx
        exact hc.read i x data hx
  | blpop =>
    have hpair : (w.queue.head?, { w with queue := w.queue.tail }) = (r, w') :=
      Option.some.inj henv
    obtain ⟨rfl, -⟩ := Prod.mk.inj hpair
    have hsame : submissions (h ++ [(i, ⟨.blpop, w.queue.head?⟩)]) = submissions h :=
      hsub.trans (List.append_nil _)
    cases hhead : w.queue.head? with
    | none =>
      rw [hhead] at hmore hsame
      exact hc.same hmore hsame (fun x hx => by cases hx) (fun x data hx => by cases hx)
        (hstill rfl)
    | some id =>
      rw [hhead] at hmore hsame htaken
      -- the first id of the queue has not been taken yet
      have hnew : id ∉ takenIds h := by
        have hleft : id ∈ w.queue := List.mem_of_head? hhead
        have hdisjoint := List.disjoint_of_nodup_append (hq.order.nodup hm.nodup)
        exact fun hid => hdisjoint hid hleft
      have hkept : OriginsKept (takenIds h) w w' := hstill rfl
      refine ⟨?_, ?_, hsame ▸ hc.nodup, fun x hx => ?_,
        hc.read_kept hkept (fun x data hx => by cases hx), hsame ▸ hc.described_kept hkept⟩
      · rw [hsame]
        refine hc.claims.update (fun x hx => ?_) fun j x _ _ hx => ⟨hmore x hx.1, hx.2⟩
        obtain rfl := Option.some.inj hx
        refine ⟨?_, fun hmem => hnew (hc.taken _ hmem)⟩
        rw [htaken]
        exact List.mem_append_right _ (List.mem_singleton_self _)
      · refine hc.exclusive.acquire fun x hx j _ hj => ?_
        obtain rfl := Option.some.inj hx
        exact hnew (hc.claims j _ hj).1
      · rw [hsame] at hx
        exact hmore x (hc.taken x hx)
  | qemuRestore px node p =>
    obtain ⟨id, data, hread, rfl, hdata⟩ := hpermits
    have hclaim : (v i).claim = some id := hread ▸ rfl
    obtain ⟨hid, hnew⟩ := hc.claims i id hclaim
    have hsame : takenIds (h ++ [(i, ⟨.qemuRestore (.job id) node p, r⟩)]) = takenIds h :=
      htaken.trans (List.append_nil _)
    have hone : submissions (h ++ [(i, ⟨.qemuRestore (.job id) node p, r⟩)]) =
        submissions h ++ [(id, node, p)] := hsub
    have hkept : OriginsKept (takenIds h) w w' := hstill rfl
    have hids : (submissions h ++ [(id, node, p)]).map Prod.fst =
        (submissions h).map Prod.fst ++ [id] := List.map_append
    refine ⟨?_, ?_, ?_, ?_, hc.read_kept hkept (fun x data hx => by cases hx), ?_⟩
    · rw [hsame, hone, hids]
      refine hc.claims.update (fun x hx => by cases hx) fun j x hji hj hx => ⟨hx.1, ?_⟩
      rw [List.mem_append, List.mem_singleton]
      rintro (hold | rfl)
      · exact hx.2 hold
      · exact hji (hc.exclusive j i x hj hclaim)
    · exact hc.exclusive.retain fun x hx => by cases hx
    · rw [hone, hids]
      exact hc.nodup.append (List.nodup_singleton id) (List.disjoint_singleton.mpr hnew)
    · rw [hone, hids, hsame]
      intro x hx
      rcases List.mem_append.mp hx with hx | hx
      · exact hc.taken x hx
      · exact List.mem_singleton.mp hx ▸ hid
    · rw [hone]
      intro s hs
      rcases List.mem_append.mp hs with hs | hs
      · exact hc.described_kept hkept s hs
      · obtain rfl := List.mem_singleton.mp hs
        obtain ⟨j, hj, horigin⟩ := (hc.read i id data hread).kept hkept hid
        exact ⟨j, hj, hdata.of_origin horigin⟩
  | uuid4 | rpush _ =>
    exact hc.same hmore (hsub.trans (List.append_nil _)) (fun x hx => by cases hx)
      (fun id data hx => by cases hx) (hstill rfl)
  | _ =>
    exact hc.same hmore (hsub.trans (List.append_nil _)) (fun _ hx => hx)
      (fun id data hx => hc.read i id data hx) (hstill rfl)

/-! #### All of it -/

/-- The ids in the queue are different, and have been made before. -/
structure World.QueueFresh (w : World) : Prop where
  nodup : w.queue.Nodup
  below : ∀ id ∈ w.queue, id < w.nextUuid

omit [DecidableEq ι] in
theorem Dispatched.start (hw : w₀.QueueFresh) :
    Dispatched w₀.queue [] (fun _ : ι => .nothing) w₀ := by
  have hqueued : queuedIds w₀.queue ([] : List (ι × Event commands)) = w₀.queue :=
    List.append_nil _
  have hnothing : ∀ {hold : JobHold → Option Uuid} {P : Uuid → Prop}, hold .nothing = none →
      HeldAll hold P fun _ : ι => .nothing := by
    intro hold P hnone i x hx
    rw [hnone] at hx
    cases hx
  refine ⟨⟨?_, ?_, hnothing rfl, fun i j x hx => ?_⟩, ⟨?_, fun id hid => .inr (.inl ?_)⟩,
    ⟨hnothing rfl, fun i j x hx => ?_, List.nodup_nil, List.forall_mem_nil _,
      fun i id data hread => ?_, List.forall_mem_nil _⟩⟩
  · rw [hqueued]
    exact hw.below
  · rw [hqueued]
    exact hw.nodup
  · cases hx
  · rw [hqueued]
    exact List.Sublist.refl _
  · rwa [hqueued] at hid
  · cases hx
  · cases hread

/-- **The step.** -/
theorem Dispatched.step (hd : Dispatched w₀.queue h v w) (hpermits : jobProtocol.Permits (v i) o)
    (henv : environment o a w = some (r, w')) :
    Dispatched w₀.queue (h ++ [(i, ⟨o, r⟩)]) (Function.update v i ((v i).after o r)) w' where
  minted := hd.minted.step hpermits henv
  inOrder := hd.inOrder.step henv
  claimed := hd.claimed.step hd.minted hd.inOrder hpermits henv

end Invariant

/-! ### The runs -/

section Run

variable {ι : Type} [DecidableEq ι] {cfg : Config} {mt : Matching} {polls : ℕ}
  {acts : ι → Activity} {w₀ w : World} {h : List (ι × Event commands)} {p : ι → Prog Unit}

/-- The invariant holds in every run. -/
theorem dispatched_of_run
    (hrun : Interleaved environment (fun _ _ => True)
      (fun i => (acts i).program cfg mt polls) w₀ h p w) (hw : w₀.QueueFresh) :
    ∃ v, Dispatched w₀.queue h v w :=
  hrun.invariant (fun _ => jobProtocol) (fun _ _ _ => True) (Dispatched w₀.queue)
    (fun i => ((acts i).onProtocol (m := .nothing)).guarded) (.start hw)
    fun _ _ _ _ _ _ _ _ hd hpermits henv _ => ⟨trivial, hd.step hpermits henv⟩

/-- **Every job is handed out once, in order.** In every run, the ids taken from the queue so far,
followed by those that are in it, are in the order in which they entered it, and none occurs twice;
and every other id that has entered it was removed by a cancel. -/
theorem dispatched_once
    (hrun : Interleaved environment (fun _ _ => True)
      (fun i => (acts i).program cfg mt polls) w₀ h p w) (hw : w₀.QueueFresh) :
    (takenIds h ++ w.queue).Nodup ∧
      (takenIds h ++ w.queue).Sublist (queuedIds w₀.queue h) ∧
        ∀ id ∈ queuedIds w₀.queue h, id ∈ takenIds h ++ w.queue ∨ id ∈ removedIds h := by
  obtain ⟨v, hd⟩ := dispatched_of_run hrun hw
  refine ⟨hd.inOrder.order.nodup hd.minted.nodup, hd.inOrder.order, fun id hid => ?_⟩
  rw [List.mem_append, or_assoc]
  exact hd.inOrder.kept id hid

end Run

/-! ### A worker and an operator -/

/-- A world with two jobs in the queue. -/
private def twoQueued : World where
  jobs := ((∅ : AList fun _ : Uuid => Job).insert 7
    { state := some .PENDING, backupId := some "pbs|vm/100", proxmoxVmid := some 120
      proxmoxNode := some "pve1", proxmoxStorage := some "local"
      archive := "pbs:backup/vm/100" }).insert 8 { state := some .PENDING }
  queue := [7, 8]
  nextUuid := 9

private theorem twoQueued_fresh : twoQueued.QueueFresh where
  nodup := by decide
  below := by decide

/-- A worker, and an operator who stops the second job. -/
private def workerAndStop : Fin 2 → Activity
  | 0 => .iteration 2
  | 1 => .stopJob 8

private abbrev workPrograms : Fin 2 → Prog Unit := fun i =>
  (workerAndStop i).program {} .unused 0

/-- The worker takes the first job, and the operator stops the second. -/
private theorem exists_workRun : ∃ h p w,
    Interleaved environment (fun _ _ => True) workPrograms twoQueued h p w ∧
      takenIds h = [7] ∧ removedIds h = [8] := by
  have hshown : (interleave environment (fun _ _ => true)
      ((List.replicate 15 0 ++ List.replicate 4 (1 : Fin 2)).map fun i => (i, .ok)) []
        workPrograms twoQueued).any (fun end_ => takenIds end_.1 == [7] &&
          removedIds end_.1 == [8]) = true := by
    decide +kernel
  obtain ⟨h, p, w, hrun, hend⟩ := exists_interleaved (fun _ _ _ => trivial) hshown
  simp only [Bool.and_eq_true, beq_iff_eq] at hend
  exact ⟨h, p, w, hrun, hend⟩

/-- The one job is taken by the worker, and the other removed by the operator. -/
theorem dispatched_once_stopped : ∃ h p w,
    Interleaved environment (fun _ _ => True) workPrograms twoQueued h p w ∧
      takenIds h = [7] ∧ removedIds h = [8] ∧ (takenIds h ++ w.queue).Nodup ∧
        (takenIds h ++ w.queue).Sublist (queuedIds twoQueued.queue h) ∧
          ∀ id ∈ queuedIds twoQueued.queue h, id ∈ takenIds h ++ w.queue ∨ id ∈ removedIds h := by
  obtain ⟨h, p, w, hrun, htaken, hremoved⟩ := exists_workRun
  exact ⟨h, p, w, hrun, htaken, hremoved, dispatched_once hrun twoQueued_fresh⟩

/-! ### A run whose second group is still to be enqueued -/

/-- The run, with the rows of its second group. -/
def halfwayRun (rows : List Row) : PlanRun :=
  { id := 1
    planId := 0
    status := .RUNNING
    locationId := 0
    node := "pve"
    nodes := ["pve"]
    storage := "local"
    vmidStart := 100
    groupIds := [2, 3]
    jobIdsByGroup := [[7], []]
    currentGroupIndex := 1
    pendingGroupRows := some [[], rows] }

/-- A world that stores the run, with two rows, and has another job in the queue. -/
def backlogWorld : World where
  jobs := ((∅ : AList fun _ : Uuid => Job).insert 7
    { state := some .COMPLETED, planRunId := some 1, planGroupIndex := some 0 }).insert 8
    { state := some .PENDING, backupId := some "pbs|vm/120", proxmoxVmid := some 120
      proxmoxNode := some "pve", proxmoxStorage := some "local"
      archive := "pbs:backup/vm/120/t" }
  queue := [8]
  runs := AList.insert 1 (halfwayRun
    [{ backupId := "b", vmid := some 100, pveStorage := "pbs", voltail := "vm/100/t" },
     { backupId := "c", vmid := some 101, pveStorage := "pbs", voltail := "vm/101/t" }]) ∅
  active := [1]
  nextUuid := 9

theorem backlogWorld_fresh : backlogWorld.QueueFresh where
  nodup := by decide
  below := by decide

end RestoreEngine
