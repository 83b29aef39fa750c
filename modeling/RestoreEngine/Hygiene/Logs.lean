import RestoreEngine.Effects.Pool
import RestoreEngine.Hygiene.Purge

/-!
# Whether finished jobs and their logs go away

A worker that finishes a job arms the expiry of its hash and of its log, and writes a last line to
the log afterwards. If the log had no line before, that line makes a log list that never expires;
once the hash has expired, no purge finds it (`first_line_outlives_job`).

The other ways to finish a job arm nothing and leave the hash to the purge. So as long as nobody
makes a log list for a job whose hash has an expiry, or is not there, a finished job goes away with
its log if and only if the purge has room to look at it (`cleaned_iff`).
-/

namespace RestoreEngine.Hygiene

open Effects Program

variable {ι : Type} [DecidableEq ι] {cfg : Config} {s s' : Store} {id : Uuid} {i : ι}
  {v : ι → Stage} {m : Stage} {α β : Type}

/-- What an actor is in the middle of: it has armed the expiry of a hash and not yet that of the
log, or it has deleted a hash and not yet the log. -/
inductive Stage
  | idle
  | arming (id : Uuid)
  | dropping (id : Uuid)
  deriving DecidableEq

/-- How an actor proceeds. -/
def Stage.observe (m : Stage) : (o : Op) → o.Res → Stage
  | .expire id _, _ => arming id
  | .delete id, _ => dropping id
  | .expireLog _ _, _ => idle
  | .deleteLog _, _ => idle
  | _, _ => m

/-- A mapping that finishes a job stamps it. -/
def Stamps (mapping : Instant → Job → Job) : Prop :=
  ∀ now j, (j.IsTerminal → j.updatedAt.isSome) →
    (mapping now j).IsTerminal → (mapping now j).updatedAt.isSome

/-- A command that neither arms nor deletes anything. -/
def Op.Plain : Op → Prop
  | .hset _ mapping | .hsetLrem _ mapping => Stamps mapping
  | .expire _ _ | .expireLog _ _ | .delete _ | .deleteLog _ => False
  | _ => True

/-- What an actor issues. -/
def Stage.Permits : Stage → Op → Prop
  | idle, o => o.Plain ∨ (∃ id ttl, o = .expire id ttl) ∨ ∃ id, o = .delete id
  | arming id, o => ∃ ttl, o = .expireLog id ttl
  | dropping id, o => o = .deleteLog id

/-- The protocol of those who write job hashes and logs. -/
def hygiene : Protocol commands Stage where
  observe := Stage.observe
  Permits := Stage.Permits

/-- The actors, and no job yet. -/
def actorPool (cfg : Config) (actors : ι → Actor) : Pool commands Exn Store Stage ι where
  world := { jobs := ∅, logs := ∅, queue := [], clock := 0, nextUuid := 0 }
  proc i := (actors i).program cfg
  view _ := .idle

/-! ### What is claimed -/

/-- Somebody is in the middle of arming or deleting the log of the job. -/
def Busy (v : ι → Stage) (id : Uuid) : Prop := ∃ i, v i = .arming id ∨ v i = .dropping id

namespace Store

/-- The hash has an expiry, and so has the log if there is one. -/
def Expires (s : Store) (id : Uuid) : Prop :=
  (∃ t, s.job id = some t ∧ t.expiry.isSome) ∧ ∀ l, s.log id = some l → l.expiry.isSome

/-- The TTL is over for a job that was last written at `at_`, once the span has passed. -/
def Outlived (cfg : Config) (s : Store) (at_ : Instant) (span : ℕ) : Prop :=
  at_ ≤ (s.wait span).cutoff cfg

end Store

/-- **A finished job goes away**: its hash and its log have an expiry, or repeated purges remove
them when the TTL is over. A log whose hash is not there has an expiry. -/
structure Cleaned (cfg : Config) (s : Store) (id : Uuid) : Prop where
  finished : ∀ t, s.job id = some t → t.value.IsTerminal → s.Expires id ∨
    ∃ at_, t.value.updatedAt = some at_ ∧
      ∀ span, s.Outlived cfg at_ span → RemovedByPurges cfg (s.wait span) id
  log : s.job id = none → ∀ l, s.log id = some l → l.expiry.isSome

/-- For a finished job without expiry, the purge has room when the TTL is over: fewer hashes than it
may look at are such that it keeps them. -/
def HasRoom (cfg : Config) (s : Store) (id : Uuid) : Prop :=
  ∀ t at_, s.job id = some t → t.value.IsTerminal → t.expiry = none →
    t.value.updatedAt = some at_ →
      ∀ span, s.Outlived cfg at_ span → ((s.wait span).kept cfg).length < maxScan

/-- Nobody makes a log list for a job whose hash has an expiry, or is not there. -/
def logKept (s : Store) : Op → Bool
  | .rpushLog id => (s.log id).isSome || (s.job id).any (·.expiry.isNone)
  | _ => true

/-! ### The actors keep to the protocol -/

private theorem satisfies_step {o : Op} {Q : Except Exn o.Res → Stage → Prop} :
    (issue o).Satisfies hygiene.machine Q m ↔ m.Permits o ∧ ∀ r, Q (.ok r) (m.observe o r) := by
  refine satisfies_perform.trans (and_congr_right fun _ => ⟨fun h r => h r _ rfl, ?_⟩)
  rintro h r _ rfl
  exact h r

/-- Whoever runs the program is idle again at its end. -/
def Tidy (p : Prog α) : Prop := p.Satisfies hygiene.machine (fun _ m => m = .idle) .idle

namespace Tidy

theorem ret (a : α) : Tidy (.ret a : Prog α) := satisfies_ret.mpr rfl

theorem raise (e : Exn) : Tidy (.raise e : Prog α) := satisfies_raise.mpr rfl

theorem bind {p : Prog α} {f : α → Prog β} (hp : Tidy p) (hf : ∀ a, Tidy (f a)) :
    Tidy (p >>= f) := by
  refine Satisfies.bind hp ?_ fun _ _ hm => hm
  rintro a m rfl
  exact hf a

theorem ite {c : Prop} [Decidable c] {p q : Prog α} (hp : Tidy p) (hq : Tidy q) :
    Tidy (if c then p else q) := Satisfies.ite (fun _ => hp) fun _ => hq

/-- A command that neither arms nor deletes anything. -/
theorem issue {o : Op} (ho : o.Plain) : Tidy (issue o) := by
  refine satisfies_step.mpr ⟨.inl ho, fun r => ?_⟩
  cases o with
  | expire id ttl => exact ho.elim
  | delete id => exact ho.elim
  | _ => rfl

/-- Arming the expiry of a hash and of its log. -/
theorem arm {id : Uuid} {ttl : ℤ} : Tidy (do
    Hygiene.issue (.expire id ttl)
    Hygiene.issue (.expireLog id ttl)) := by
  refine satisfies_bind.mpr ((satisfies_step (o := .expire id ttl)).mpr ?_)
  refine ⟨.inr (.inl ⟨id, ttl, rfl⟩), fun _ => then_ok.mpr ?_⟩
  exact (satisfies_step (o := .expireLog id ttl)).mpr ⟨⟨ttl, rfl⟩, fun _ => rfl⟩

/-- Deleting a hash and its log. -/
theorem drop {id : Uuid} {p : Prog α} (hp : Tidy p) : Tidy (do
    Hygiene.issue (.delete id)
    Hygiene.issue (.deleteLog id)
    p) := by
  refine satisfies_bind.mpr ((satisfies_step (o := .delete id)).mpr ?_)
  refine ⟨.inr (.inr ⟨id, rfl⟩), fun _ => then_ok.mpr (satisfies_bind.mpr ?_)⟩
  exact (satisfies_step (o := .deleteLog id)).mpr ⟨rfl, fun _ => then_ok.mpr hp⟩

end Tidy

/-- Fields that leave the state alone. -/
private theorem stamps_of_state {mapping : Instant → Job → Job}
    (hstate : ∀ now j, (mapping now j).state = j.state)
    (hupdated : ∀ now j, (mapping now j).updatedAt = j.updatedAt) : Stamps mapping := by
  intro now j hj hterminal
  rw [Job.IsTerminal, hstate] at hterminal
  rw [hupdated]
  exact hj hterminal

/-- Fields among which the time of the write is. -/
private theorem stamps_of_updatedAt {mapping : Instant → Job → Job}
    (hupdated : ∀ now j, (mapping now j).updatedAt = some now) : Stamps mapping := by
  intro now j _ _
  rw [hupdated]
  rfl

private theorem setState_tidy {state : RestoreState} {error : Option String} :
    Tidy (setState cfg id state error) :=
  (Tidy.issue (o := .hset _ _) (stamps_of_updatedAt fun _ _ => rfl)).bind fun _ =>
    .ite (.ret _) .arm

private theorem markCancelled_tidy : Tidy (markCancelled cfg id) :=
  setState_tidy.bind fun _ => Tidy.issue (o := .rpushLog _) trivial

private theorem performCalls_tidy (calls : List Call) : Tidy (performCalls cfg id calls) := by
  induction calls with
  | nil => exact .ret _
  | cons call rest ih =>
    cases call with
    | fields =>
      exact (Tidy.issue (o := .hset _ _) (stamps_of_updatedAt fun _ _ => rfl)).bind fun _ => ih
    | log => exact (Tidy.issue (o := .rpushLog _) trivial).bind fun _ => ih
    | state state error => exact setState_tidy.bind fun _ => ih
    | cancelled => exact markCancelled_tidy.bind fun _ => ih

private theorem runJob_tidy {calls : List Call} : Tidy (runJob cfg id calls) := by
  refine (Tidy.issue (o := .hgetall _) trivial).bind fun found => ?_
  cases found with
  | none => exact .ret _
  | some _ =>
    refine (Tidy.issue (o := .hgetall _) trivial).bind fun data => ?_
    exact .ite markCancelled_tidy (performCalls_tidy calls)

private theorem writeJobs_tidy (jobs : List Job) : Tidy (writeJobs jobs) := by
  induction jobs with
  | nil => exact .ret _
  | cons data rest ih =>
    refine (Tidy.issue (o := .uuid4) trivial).bind fun id => ?_
    refine (Tidy.issue (o := .hset _ _) (stamps_of_updatedAt fun _ _ => rfl)).bind fun _ => ?_
    exact (Tidy.issue (o := .rpush _) trivial).bind fun _ => ih

/-- A command of the engine that does not finish a job without stamping it. -/
def StampsJobs : RestoreEngine.Op → Prop
  | .hset _ mapping | .hsetLrem _ mapping => Stamps mapping
  | _ => True

private theorem overHashes_tidy (o : RestoreEngine.Op) (ho : StampsJobs o) :
    Tidy (overHashes o) := by
  cases o with
  | hgetall id => exact .issue (o := .hgetall id) trivial
  | hset id mapping => exact .issue (o := .hset id mapping) ho
  | hsetLrem id mapping => exact .issue (o := .hsetLrem id mapping) ho
  | lpop => exact .issue (o := .lpop) trivial
  | scanJobs => exact .issue (o := .scan) trivial
  | setPaused paused => exact .ret _
  | _ => exact (Tidy.issue (o := .park) trivial).bind fun never => never.elim

/-- A procedure of the engine that stamps the jobs it finishes is tidy. -/
private theorem onHashes_tidy {p : RestoreEngine.Prog α} (hp : p.Only StampsJobs) :
    Tidy (onHashes p) := by
  have hidle : ∀ o, StampsJobs o → ∀ m, m = .idle →
      Satisfies hygiene.machine (fun _ m' => m' = .idle) m (overHashes o) := by
    rintro o ho m rfl
    exact overHashes_tidy o ho
  exact Tidy.bind (hp.interpret rfl hidle) fun _ => .ret _

private theorem stopJob_stamps : (stopJob id).Only StampsJobs := by
  refine Only.bind (only_perform.mpr trivial) fun found => ?_
  cases found with
  | none => exact only_raise
  | some data =>
    refine Only.ite (fun _ => only_ret) fun _ => ?_
    refine Only.bind (only_perform.mpr ?_) fun _ => ?_
    · exact stamps_of_state (fun _ _ => rfl) fun _ _ => rfl
    refine Only.bind (only_perform.mpr trivial) fun now => Only.ite (fun _ => ?_) fun _ => ?_
    · refine Only.bind (only_perform.mpr ?_) fun _ => only_perform.mpr trivial
      exact stamps_of_updatedAt fun _ _ => rfl
    · exact only_perform.mpr trivial

private theorem cancelByStop_stamps : (cancelByStop id).Only StampsJobs :=
  only_perform.mpr (stamps_of_updatedAt fun _ _ => rfl)

private theorem emptyQueue_stamps (fuel : ℕ) : (emptyQueue fuel).Only StampsJobs := by
  induction fuel with
  | zero => exact Only.bind (only_perform.mpr trivial) fun never => never.elim
  | succ fuel ih =>
    rw [emptyQueue]
    refine Only.bind (only_perform.mpr trivial) fun popped => ?_
    cases popped with
    | none => exact only_ret
    | some id =>
      refine Only.bind (only_perform.mpr trivial) fun data => Only.ite (fun _ => ?_) fun _ => ih
      exact Only.bind cancelByStop_stamps fun _ => Only.bind ih fun _ => only_ret

private theorem sweepPending_stamps (ids cancelled : List Uuid) :
    (sweepPending cancelled ids).Only StampsJobs := by
  rw [sweepPending]
  induction ids generalizing cancelled with
  | nil => exact only_ret
  | cons id rest ih =>
    rw [sweepKeys]
    refine Only.bind (only_perform.mpr trivial) fun data => Only.ite (fun _ => ?_) fun _ => ih _
    exact Only.bind cancelByStop_stamps fun _ => ih _

private theorem drainPendingJobs_stamps {fuel : ℕ} : (drainPendingJobs fuel).Only StampsJobs := by
  refine Only.bind (only_perform.mpr trivial) fun _ => ?_
  refine Only.bind (emptyQueue_stamps fuel) fun cancelled => ?_
  exact Only.bind (only_perform.mpr trivial) fun ids => sweepPending_stamps ids cancelled

private theorem cancelJobs_stamps (ids : List Uuid) : (cancelJobs ids).Only StampsJobs := by
  have hone : ∀ id, (cancelJob id).Only StampsJobs := by
    intro id
    refine Only.bind (only_perform.mpr trivial) fun data => ?_
    split
    · exact Only.bind (only_perform.mpr (stamps_of_updatedAt fun _ _ => rfl)) fun _ => only_ret
    · exact Only.bind (only_perform.mpr (stamps_of_updatedAt fun _ _ => rfl)) fun _ => only_ret
    · exact only_ret
  induction ids with
  | nil => exact only_ret
  | cons id rest ih =>
    exact Only.bind (hone id) fun one => Only.bind ih fun others => only_ret

private theorem purgeKeys_tidy {c : Instant} (order : List Uuid) (left : ℕ) :
    Tidy (purgeKeys c left order) := by
  induction order generalizing left with
  | nil =>
    rw [purgeKeys]
    exact .ret _
  | cons id rest ih =>
    cases left with
    | zero => exact .ret _
    | succ left =>
      refine (Tidy.issue (o := .hgetall _) trivial).bind fun data => ?_
      exact .ite (.drop ((ih left).bind fun n => .ret _)) (ih left)

private theorem purgeExpiredScan_tidy : Tidy (purgeExpiredScan cfg) := by
  refine .ite (.ret _) ?_
  refine (Tidy.issue (o := .utcNow) trivial).bind fun now => ?_
  exact (Tidy.issue (o := .scan) trivial).bind fun order => purgeKeys_tidy order _

private theorem passTime_tidy (spans : List ℕ) : Tidy (passTime spans) := by
  induction spans with
  | nil => exact .ret _
  | cons span rest ih => exact (Tidy.issue (o := .wait _) trivial).bind fun _ => ih

private theorem program_tidy (actor : Actor) : Tidy (actor.program cfg) := by
  cases actor with
  | enqueue jobs => exact writeJobs_tidy jobs
  | worker id calls => exact runJob_tidy
  | stop id => exact onHashes_tidy stopJob_stamps
  | drain fuel => exact onHashes_tidy drainPendingJobs_stamps
  | cancel ids => exact onHashes_tidy (cancelJobs_stamps ids)
  | purge => exact purgeExpiredScan_tidy.bind fun _ => .ret _
  | time spans => exact passTime_tidy spans

/-! ### The invariant -/

/-- Finished jobs are stamped, and a log without expiry is that of a hash without expiry, unless
somebody is about to change that. -/
structure Kept (s : Store) (v : ι → Stage) : Prop where
  stamped : ∀ id t, s.job id = some t → t.value.IsTerminal → t.value.updatedAt.isSome
  logs : ∀ id l, s.log id = some l → l.expiry = none →
    Busy v id ∨ ∃ t, s.job id = some t ∧ t.expiry = none

namespace Store

private theorem job_insert {t : Timed Job} {id' : Uuid} :
    Store.job { s with jobs := s.jobs.insert id t } id' =
      if id' = id then (some t).filter (·.lasts s.clock) else s.job id' := by
  rw [job, job]
  by_cases hid : id' = id
  · subst hid
    rw [if_pos rfl, AList.lookup_insert]
  · rw [if_neg hid, AList.lookup_insert_ne hid]

private theorem log_insert {l : Timed ℕ} {id' : Uuid} :
    Store.log { s with logs := s.logs.insert id l } id' =
      if id' = id then (some l).filter (·.lasts s.clock) else s.log id' := by
  rw [log, log]
  by_cases hid : id' = id
  · subst hid
    rw [if_pos rfl, AList.lookup_insert]
  · rw [if_neg hid, AList.lookup_insert_ne hid]

/-- The hash after HSET. -/
private theorem job_hset {mapping : Instant → Job → Job} {id' : Uuid} :
    (s.hset id mapping).job id' = if id' = id then
        some ⟨mapping s.clock (((s.job id).map (·.value)).getD {}), (s.job id).bind (·.expiry)⟩
      else s.job id' := by
  rw [hset, job_insert]
  by_cases hid : id' = id
  · rw [if_pos hid, if_pos hid, Option.filter_some, if_pos]
    cases hjob : s.job id with
    | none => rfl
    | some t =>
      rw [job, Option.filter_eq_some_iff] at hjob
      exact hjob.2
  · rw [if_neg hid, if_neg hid]

/-- The log list after RPUSH. -/
private theorem log_rpushLog {id' : Uuid} :
    (s.rpushLog id).log id' = if id' = id then
        some ⟨((s.log id).map (·.value)).getD 0 + 1, (s.log id).bind (·.expiry)⟩
      else s.log id' := by
  rw [rpushLog, log_insert]
  by_cases hid : id' = id
  · rw [if_pos hid, if_pos hid, Option.filter_some, if_pos]
    cases hlog : s.log id with
    | none => rfl
    | some l =>
      rw [log, Option.filter_eq_some_iff] at hlog
      exact hlog.2
  · rw [if_neg hid, if_neg hid]

/-- A hash after EXPIRE. -/
private theorem job_of_expire {ttl : ℤ} {id' : Uuid} {t : Timed Job}
    (h : (s.expire id ttl).job id' = some t) :
    ∃ t₀, s.job id' = some t₀ ∧ t.value = t₀.value := by
  rw [expire] at h
  split at h
  · next t₀ ht₀ =>
    rw [job_insert] at h
    by_cases hid : id' = id
    · rw [if_pos hid] at h
      obtain ⟨ht, -⟩ := Option.filter_eq_some_iff.mp h
      obtain rfl := Option.some.inj ht
      exact ⟨t₀, hid ▸ ht₀, rfl⟩
    · rw [if_neg hid] at h
      exact ⟨t, h, rfl⟩
  · exact ⟨t, h, rfl⟩

private theorem job_expire_of_ne {ttl : ℤ} {id' : Uuid} (hid : id' ≠ id) :
    (s.expire id ttl).job id' = s.job id' := by
  rw [expire]
  split
  · rw [job_insert, if_neg hid]
  · rfl

/-- A log list after EXPIRE. -/
private theorem log_of_expireLog {ttl : ℤ} {id' : Uuid} {l : Timed ℕ}
    (h : (s.expireLog id ttl).log id' = some l) (hexpiry : l.expiry = none) :
    id' ≠ id ∧ s.log id' = some l := by
  rw [expireLog] at h
  split at h
  · rw [log_insert] at h
    by_cases hid : id' = id
    · rw [if_pos hid] at h
      obtain ⟨hl, -⟩ := Option.filter_eq_some_iff.mp h
      obtain rfl := Option.some.inj hl
      cases hexpiry
    · rw [if_neg hid] at h
      exact ⟨hid, h⟩
  · next hnone =>
    refine ⟨?_, h⟩
    rintro rfl
    rw [h] at hnone
    cases hnone

private theorem expire_log {ttl : ℤ} : (s.expire id ttl).log = s.log := by
  funext id'
  rw [expire]
  split <;> rfl

private theorem expireLog_job {ttl : ℤ} : (s.expireLog id ttl).job = s.job := by
  funext id'
  rw [expireLog]
  split <;> rfl

private theorem job_erase {id' : Uuid} :
    Store.job { s with jobs := s.jobs.erase id } id' = if id' = id then none else s.job id' := by
  rw [job, job]
  by_cases hid : id' = id
  · subst hid
    rw [if_pos rfl, AList.lookup_erase]
    rfl
  · rw [if_neg hid, AList.lookup_erase_ne hid]

private theorem log_erase {id' : Uuid} :
    Store.log { s with logs := s.logs.erase id } id' = if id' = id then none else s.log id' := by
  rw [log, log]
  by_cases hid : id' = id
  · subst hid
    rw [if_pos rfl, AList.lookup_erase]
    rfl
  · rw [if_neg hid, AList.lookup_erase_ne hid]

end Store

/-- Who goes on from being idle leaves the others as busy as they were. -/
private theorem Busy.of_idle (h : Busy v id) (hi : v i = .idle) :
    Busy (Function.update v i m) id := by
  obtain ⟨j, hj⟩ := h
  have hij : j ≠ i := by
    rintro rfl
    rw [hi] at hj
    rcases hj with hj | hj <;> cases hj
  refine ⟨j, ?_⟩
  rwa [Function.update_of_ne hij]

/-- Who is through with one job leaves the others as busy as they were. -/
private theorem Busy.of_ne {id' : Uuid} (h : Busy v id') (hne : id' ≠ id)
    (hi : v i = .arming id ∨ v i = .dropping id) : Busy (Function.update v i m) id' := by
  obtain ⟨j, hj⟩ := h
  have hij : j ≠ i := by
    rintro rfl
    rcases hi with hi | hi <;> rw [hi] at hj <;> rcases hj with hj | hj
    · exact hne (Stage.arming.inj hj).symm
    · cases hj
    · cases hj
    · exact hne (Stage.dropping.inj hj).symm
  refine ⟨j, ?_⟩
  rwa [Function.update_of_ne hij]

namespace Kept

omit [DecidableEq ι] in
/-- A command that touches neither hashes nor logs. -/
private theorem congr (h : Kept s v) (hjob : s'.job = s.job) (hlog : s'.log = s.log) :
    Kept s' v := by
  constructor
  · rw [hjob]
    exact h.stamped
  · rw [hjob, hlog]
    exact h.logs

omit [DecidableEq ι] in
private theorem hset {mapping : Instant → Job → Job} (h : Kept s v) (hstamps : Stamps mapping) :
    Kept (s.hset id mapping) v := by
  constructor
  · intro id' t ht hterminal
    rw [Store.job_hset] at ht
    split at ht
    · obtain rfl := Option.some.inj ht
      refine hstamps _ _ (fun hterminal => ?_) hterminal
      cases hjob : s.job id with
      | none =>
        rw [hjob] at hterminal
        obtain ⟨state, hstate, -⟩ := hterminal
        cases hstate
      | some t =>
        rw [hjob] at hterminal
        exact h.stamped id t hjob hterminal
    · exact h.stamped id' t ht hterminal
  · intro id' l hl hexpiry
    refine (h.logs id' l hl hexpiry).imp_right ?_
    rintro ⟨t, ht, hnone⟩
    rw [Store.job_hset]
    split
    · next hid =>
      subst hid
      refine ⟨_, rfl, ?_⟩
      rw [ht]
      exact hnone
    · exact ⟨t, ht, hnone⟩

private theorem expire {ttl : ℤ} (h : Kept s v) (hi : v i = .idle) :
    Kept (s.expire id ttl) (Function.update v i (.arming id)) := by
  constructor
  · intro id' t ht hterminal
    obtain ⟨t₀, ht₀, hvalue⟩ := Store.job_of_expire ht
    rw [hvalue] at hterminal ⊢
    exact h.stamped id' t₀ ht₀ hterminal
  · intro id' l hl hexpiry
    rw [Store.expire_log] at hl
    by_cases hid : id' = id
    · refine .inl ⟨i, .inl ?_⟩
      rw [Function.update_self, hid]
    · rw [Store.job_expire_of_ne hid]
      exact (h.logs id' l hl hexpiry).imp_left fun hbusy => hbusy.of_idle hi

private theorem expireLog {ttl : ℤ} (h : Kept s v) (hi : v i = .arming id) :
    Kept (s.expireLog id ttl) (Function.update v i .idle) := by
  constructor
  · rw [Store.expireLog_job]
    exact h.stamped
  · intro id' l hl hexpiry
    obtain ⟨hid, hl⟩ := Store.log_of_expireLog hl hexpiry
    rw [Store.expireLog_job]
    exact (h.logs id' l hl hexpiry).imp_left fun hbusy => hbusy.of_ne hid (.inl hi)

omit [DecidableEq ι] in
private theorem rpushLog (h : Kept s v) (hkept : logKept s (.rpushLog id) = true) :
    Kept (s.rpushLog id) v := by
  have hjob : (s.rpushLog id).job = s.job := rfl
  constructor
  · rw [hjob]
    exact h.stamped
  · intro id' l hl hexpiry
    rw [hjob]
    rw [Store.log_rpushLog] at hl
    split at hl
    · next hid =>
      subst hid
      obtain rfl := Option.some.inj hl
      cases hlog : s.log id' with
      | none =>
        -- the list is new
        rw [logKept, hlog, Option.isSome_none, Bool.false_or] at hkept
        obtain ⟨t, ht, hnone⟩ := (Option.any_eq_true _ _).mp hkept
        exact .inr ⟨t, ht, Option.isNone_iff_eq_none.mp hnone⟩
      | some l =>
        rw [hlog] at hexpiry
        exact h.logs id' l hlog hexpiry
    · exact h.logs id' l hl hexpiry

private theorem delete (h : Kept s v) (hi : v i = .idle) :
    Kept { s with jobs := s.jobs.erase id } (Function.update v i (.dropping id)) := by
  constructor
  · intro id' t ht hterminal
    rw [Store.job_erase] at ht
    split at ht
    · cases ht
    · exact h.stamped id' t ht hterminal
  · intro id' l hl hexpiry
    by_cases hid : id' = id
    · refine .inl ⟨i, .inr ?_⟩
      rw [Function.update_self, hid]
    · rw [Store.job_erase, if_neg hid]
      exact (h.logs id' l hl hexpiry).imp_left fun hbusy => hbusy.of_idle hi

private theorem deleteLog (h : Kept s v) (hi : v i = .dropping id) :
    Kept { s with logs := s.logs.erase id } (Function.update v i .idle) := by
  constructor
  · exact h.stamped
  · intro id' l hl hexpiry
    rw [Store.log_erase] at hl
    split at hl
    · cases hl
    · next hid =>
      exact (h.logs id' l hl hexpiry).imp_left fun hbusy => hbusy.of_ne hid (.inr hi)

omit [DecidableEq ι] in
private theorem wait {span : ℕ} (h : Kept s v) : Kept (s.wait span) v := by
  constructor
  · exact fun id t ht => h.stamped id t (Store.job_of_wait ht)
  · intro id l hl hexpiry
    refine (h.logs id l (Store.log_of_wait hl) hexpiry).imp_right ?_
    rintro ⟨t, ht, hnone⟩
    exact ⟨t, Store.job_wait ht hnone, hnone⟩

/-- Whatever an actor issues next. -/
private theorem step {o : Op} {order : List Uuid} {r : o.Res} (h : Kept s v)
    (hpermits : (v i).Permits o) (hs : environment o order s = some (r, s'))
    (hkept : logKept s o = true) : Kept s' (Function.update v i ((v i).observe o r)) := by
  have hsame : ∀ s', Kept s' v → Kept s' (Function.update v i (v i)) := by
    intro s' h'
    rwa [Function.update_eq_self]
  cases hi : v i with
  | idle =>
    rw [hi] at hpermits
    rcases hpermits with hplain | ⟨id, ttl, rfl⟩ | ⟨id, rfl⟩
    · -- a plain command leaves the actor idle
      rw [← hi]
      cases o with
      | hset id mapping =>
        obtain rfl := (Prod.mk.inj (Option.some.inj hs)).2
        exact hsame _ (h.hset hplain)
      | hsetLrem id mapping =>
        obtain rfl := (Prod.mk.inj (Option.some.inj hs)).2
        exact hsame _ ((h.hset hplain).congr rfl rfl)
      | rpushLog id =>
        obtain rfl := (Prod.mk.inj (Option.some.inj hs)).2
        exact hsame _ (h.rpushLog hkept)
      | wait span =>
        obtain rfl := (Prod.mk.inj (Option.some.inj hs)).2
        exact hsame _ h.wait
      | expire id ttl => exact hplain.elim
      | expireLog id ttl => exact hplain.elim
      | delete id => exact hplain.elim
      | deleteLog id => exact hplain.elim
      | scan =>
        rw [environment] at hs
        split at hs
        · obtain rfl := (Prod.mk.inj (Option.some.inj hs)).2
          exact hsame _ h
        · cases hs
      | hgetall id | rpush id | lpop | uuid4 | utcNow =>
        obtain rfl := (Prod.mk.inj (Option.some.inj hs)).2
        exact hsame _ (h.congr rfl rfl)
      | park => cases hs
    · obtain rfl := (Prod.mk.inj (Option.some.inj hs)).2
      exact h.expire hi
    · obtain rfl := (Prod.mk.inj (Option.some.inj hs)).2
      exact h.delete hi
  | arming id =>
    rw [hi] at hpermits
    obtain ⟨ttl, rfl⟩ := hpermits
    obtain rfl := (Prod.mk.inj (Option.some.inj hs)).2
    exact h.expireLog hi
  | dropping id =>
    rw [hi] at hpermits
    obtain rfl : o = .deleteLog id := hpermits
    obtain rfl := (Prod.mk.inj (Option.some.inj hs)).2
    exact h.deleteLog hi

end Kept

/-! ### Jobs that go away -/

omit [DecidableEq ι] in
private theorem kept_actorPool (actors : ι → Actor) :
    Kept (actorPool cfg actors).world (actorPool cfg actors).view := by
  constructor
  · intro id t ht
    cases ht
  · intro id l hl
    cases hl

private theorem kept_of_reachable {actors : ι → Actor} {c : Pool commands Exn Store Stage ι}
    (hrun : Reachable environment hygiene (fun s _ _ o _ => logKept s o = true)
      (actorPool cfg actors) c) : Kept c.world c.view := by
  have htidy : ∀ i, ((actorPool cfg actors).proc i).Satisfies hygiene.machine
      (fun _ m => m = .idle) ((actorPool cfg actors).view i) :=
    fun i => program_tidy (actors i)
  refine hrun.invariant Kept htidy (kept_actorPool actors) ?_
  intro s v i o order r s' h hpermits hs hcond
  exact h.step hpermits hs hcond

/-- What a purge takes to be old. -/
private theorem isOld_iff {data : Job} {at_ c : Instant} (hterminal : data.IsTerminal)
    (hat : data.updatedAt = some at_) : IsOld c data = true ↔ at_ ≤ c := by
  obtain ⟨state, hstate, hfinal⟩ := hterminal
  rw [IsOld, hstate, hat, Option.any_some, hfinal, Option.some_or, Option.any_some, Bool.true_and,
    decide_eq_true_eq]

/-- **When finished jobs go away.** As long as nobody makes a log list for a job whose hash has an
expiry or is not there, a finished job and its log go away if and only if the purge has room. -/
theorem cleaned_iff (httl : 0 < cfg.jobTtlSec) (actors : ι → Actor)
    {c : Pool commands Exn Store Stage ι}
    (hrun : Reachable environment hygiene (fun s _ _ o _ => logKept s o = true)
      (actorPool cfg actors) c) (hidle : ¬Busy c.view id) :
    Cleaned cfg c.world id ↔ HasRoom cfg c.world id := by
  have hkept := kept_of_reachable hrun
  have hlog : ∀ l, c.world.log id = some l → l.expiry = none →
      ∃ t, c.world.job id = some t ∧ t.expiry = none := fun l hl hexpiry =>
    (hkept.logs id l hl hexpiry).resolve_left hidle
  -- a finished job without expiry is there until a purge removes it
  have hlingers : ∀ t at_, c.world.job id = some t → t.value.IsTerminal → t.expiry = none →
      t.value.updatedAt = some at_ → ∀ span, c.world.Outlived cfg at_ span →
        Lingers cfg (c.world.wait span) id t := fun t at_ ht hterminal hexpiry hat span hspan =>
    ⟨Store.job_wait ht hexpiry, hexpiry, (isOld_iff hterminal hat).mpr hspan⟩
  constructor
  · intro hcleaned t at_ ht hterminal hexpiry hat span hspan
    have hl := hlingers t at_ ht hterminal hexpiry hat span hspan
    rcases hcleaned.finished t ht hterminal with ⟨⟨t', ht', hsome⟩, -⟩ | ⟨at', hat', hremoved⟩
    · rw [ht] at ht'
      obtain rfl := Option.some.inj ht'
      rw [hexpiry] at hsome
      cases hsome
    · rw [hat] at hat'
      obtain rfl := Option.some.inj hat'
      exact (hl.removedByPurges_iff httl).mp (hremoved span hspan)
  · intro hroom
    constructor
    · intro t ht hterminal
      cases hexpiry : t.expiry with
      | some e =>
        refine .inl ⟨⟨t, ht, by rw [hexpiry]; rfl⟩, fun l hl => ?_⟩
        by_contra hnone
        rw [Option.not_isSome_iff_eq_none] at hnone
        obtain ⟨t', ht', hnone'⟩ := hlog l hl hnone
        rw [ht] at ht'
        obtain rfl := Option.some.inj ht'
        rw [hexpiry] at hnone'
        cases hnone'
      | none =>
        obtain ⟨at_, hat⟩ := Option.isSome_iff_exists.mp (hkept.stamped id t ht hterminal)
        refine .inr ⟨at_, hat, fun span hspan => ?_⟩
        have hl := hlingers t at_ ht hterminal hexpiry hat span hspan
        exact (hl.removedByPurges_iff httl).mpr (hroom t at_ ht hterminal hexpiry hat span hspan)
    · intro habsent l hl
      by_contra hnone
      rw [Option.not_isSome_iff_eq_none] at hnone
      obtain ⟨t, ht, -⟩ := hlog l hl hnone
      rw [habsent] at ht
      cases ht

/-- A job that a worker has completed goes away. -/
theorem cleaned_completed : ∃ (actors : Bool → Actor) (c : Pool commands Exn Store Stage Bool),
    Reachable environment hygiene (fun s _ _ o _ => logKept s o = true) (actorPool {} actors) c ∧
      (∃ t, c.world.job 0 = some t ∧ t.value.state = some .COMPLETED) ∧
        Cleaned {} c.world 0 := by
  let actors : Bool → Actor := fun i =>
    if i then .enqueue [{}]
    else .worker 0 [.state .RESTORING none, .log, .state .COMPLETED none, .log]
  let sched : List (Bool × List Uuid) := List.replicate 3 (true, []) ++ List.replicate 8 (false, [])
  have hexec : ((actorPool {} actors).execWhen environment hygiene
      (fun s _ _ o _ => logKept s o = true) sched).any (fun c => (c.world.job 0).any (fun t =>
        t.value.state = some .COMPLETED && t.expiry.isSome) &&
          c.view true = .idle && c.view false = .idle) = true := by
    decide +kernel
  obtain ⟨c, hrun, hend⟩ := Pool.exists_reachable_when hexec
  simp only [Bool.and_eq_true, decide_eq_true_eq] at hend
  obtain ⟨⟨hjob, htrue⟩, hfalse⟩ := hend
  obtain ⟨t, ht, hfinished⟩ := (Option.any_eq_true _ _).mp hjob
  simp only [Bool.and_eq_true, decide_eq_true_eq] at hfinished
  have hidle : ¬Busy c.view 0 := by
    rintro ⟨i, hi⟩
    cases i with
    | true => rw [htrue] at hi; rcases hi with hi | hi <;> cases hi
    | false => rw [hfalse] at hi; rcases hi with hi | hi <;> cases hi
  refine ⟨actors, c, hrun, ⟨t, ht, hfinished.1⟩, ?_⟩
  refine (cleaned_iff (by decide) actors hrun hidle).mpr ?_
  intro t' at_ ht' _ hexpiry
  rw [ht] at ht'
  obtain rfl := Option.some.inj ht'
  rw [hexpiry] at hfinished
  cases hfinished.2

/-- A worker that finds its job cancelled writes the first line of the log after it has armed the
expiry. The log outlives the job. -/
theorem first_line_outlives_job : ¬∀ (actors : Fin 4 → Actor)
    (c : Pool commands Exn Store Stage (Fin 4)),
    Reachable environment hygiene (fun _ _ _ _ _ => True) (actorPool {} actors) c →
      ∀ id, ¬Busy c.view id → Cleaned {} c.world id := by
  intro hcleaned
  let actors : Fin 4 → Actor := fun i =>
    match i with
    | 0 => .enqueue [{}]
    | 1 => .stop 0
    | 2 => .worker 0 []
    | 3 => .time [14 * 86400 * 1000000]
  -- the operator stops the job when the worker has it in hand; then the TTL passes
  let sched : List (Fin 4 × List Uuid) := List.replicate 3 (0, []) ++ List.replicate 5 (1, []) ++
    List.replicate 6 (2, []) ++ [(3, [])]
  have hexec : ((actorPool {} actors).exec environment hygiene sched).any
      (fun c => (c.world.job 0).isNone && (c.world.log 0).any (·.expiry.isNone) &&
        (List.finRange 4).all fun i => c.view i = .idle) = true := by
    decide +kernel
  obtain ⟨c, hrun, hend⟩ := Pool.exists_reachable (fun _ _ _ _ _ => trivial) hexec
  simp only [Bool.and_eq_true, List.all_eq_true, List.mem_finRange, forall_const,
    decide_eq_true_eq, Option.isNone_iff_eq_none] at hend
  obtain ⟨⟨hjob, hlog⟩, hviews⟩ := hend
  obtain ⟨l, hl, hnone⟩ := (Option.any_eq_true _ _).mp hlog
  have hidle : ¬Busy c.view 0 := by
    rintro ⟨i, hi⟩
    rw [hviews i] at hi
    rcases hi with hi | hi <;> cases hi
  have hsome := (hcleaned actors c hrun 0 hidle).log hjob l hl
  rw [Option.isNone_iff_eq_none.mp hnone] at hsome
  cases hsome

end RestoreEngine.Hygiene
