import RestoreEngine.Model.Queue
import RestoreEngine.Model.Rules

/-!
# Stopping the queue

An undisturbed `drain_pending_jobs` pauses the queue, empties it, and cancels the jobs that wait:
first those in the queue, then those that a scan of the hashes shows, each once, in whatever order
and however often the scan lists them (`drainScanned_exact`). In the queue a hash without a state
counts as PENDING, and in the scan it does not.
-/

namespace RestoreEngine

open Effects Prog Program

variable {w w₁ w' : World} {named : Uuid → Option Uuid} {fuel : ℕ}

/-- The job is PENDING. -/
def World.Pending (w : World) (id : Uuid) : Prop :=
  ∃ job, w.job id = some job ∧ job.state = some .PENDING

/-- **The job waits**: it is PENDING, or it is in the queue and has no state. -/
def World.Waits (w : World) (id : Uuid) : Prop :=
  ∃ job, w.job id = some job ∧ (job.state = some .PENDING ∨ job.state = none ∧ id ∈ w.queue)

/-- The hash of a job that the stop cancels. -/
def stoppedFields (now : Instant) (job : Job) : Job :=
  stateFields .CANCELLED (some "Cancelled by queue stop (pending drain)") now job

/-- Between the worlds, the jobs with these ids were cancelled by the stop, and no others were
changed. -/
structure Stopped (w : World) (ids : List Uuid) (w' : World) : Prop where
  clock : w'.clock = w.clock
  paused : w'.paused = w.paused
  cancelled : ∀ id ∈ ids, w'.job id = some (stoppedFields w.clock ((w.job id).getD {}))
  others : ∀ id, id ∉ ids → w'.job id = w.job id

namespace Stopped

theorem none (w : World) : Stopped w [] w := ⟨rfl, rfl, nofun, fun _ _ => rfl⟩

theorem one (w : World) (id : Uuid) : Stopped w [id] (w.setJob id stoppedFields) := by
  refine ⟨rfl, rfl, fun id' hid => ?_, fun id' hid => ?_⟩
  · obtain rfl := List.mem_singleton.mp hid
    exact w.job_setJob id' stoppedFields
  · exact w.job_setJob_ne stoppedFields fun heq => hid (List.mem_singleton.mpr heq)

theorem append {ids ids' : List Uuid} (h : Stopped w ids w₁) (h' : Stopped w₁ ids' w')
    (hdisjoint : ∀ id ∈ ids', id ∉ ids) : Stopped w (ids ++ ids') w' := by
  refine ⟨h'.clock.trans h.clock, h'.paused.trans h.paused, fun id hid => ?_, fun id hid => ?_⟩
  · by_cases hlast : id ∈ ids'
    · rw [h'.cancelled id hlast, h.clock, h.others id (hdisjoint id hlast)]
    · have hfirst := (List.mem_append.mp hid).resolve_right hlast
      rw [h'.others id hlast, h.cancelled id hfirst]
  · rw [List.mem_append, not_or] at hid
    rw [h'.others id hid.2, h.others id hid.1]

/-- The queue does not matter. -/
theorem of_queue {ids queue : List Uuid} (h : Stopped { w with queue } ids w') :
    Stopped w ids w' :=
  ⟨h.clock, h.paused, h.cancelled, h.others⟩

/-- What was cancelled is CANCELLED. -/
theorem state {ids : List Uuid} {id : Uuid} (h : Stopped w ids w') (hid : id ∈ ids) :
    (w'.job id).bind (·.state) = some .CANCELLED := by
  rw [h.cancelled id hid]
  rfl

end Stopped

/-! ### The two passes -/

/-- The state that the emptying of the queue reads. -/
private abbrev World.queuedState (w : World) (id : Uuid) : RestoreState :=
  ((w.job id).bind (·.state)).getD .PENDING

/-- **Emptying the queue** cancels the jobs in it that count as PENDING. -/
private theorem emptyQueue_spec (hfuel : w.queue.length < fuel) :
    Satisfies environment.machine
      (fun out w' => ∃ ids, out = .ok ids ∧ Stopped w ids w' ∧ w'.queue = [] ∧ ids.Nodup ∧
        ∀ id, id ∈ ids ↔ id ∈ w.queue ∧ w.queuedState id = .PENDING) w (emptyQueue fuel) := by
  induction fuel generalizing w with
  | zero => omega
  | succ fuel ih =>
    rw [emptyQueue, satisfies_bind, satisfies_lpop, then_ok]
    cases hqueue : w.queue with
    | nil =>
      refine satisfies_ret.mpr ⟨[], rfl, ?_, rfl, List.nodup_nil, by simp⟩
      exact ⟨rfl, rfl, nofun, fun _ _ => rfl⟩
    | cons id rest =>
      rw [hqueue, List.length_cons] at hfuel
      dsimp only [List.head?_cons, List.tail_cons]
      rw [satisfies_bind, satisfies_hgetall, then_ok]
      refine Satisfies.ite (fun hpending => ?_) fun hnot => ?_
      · rw [cancelByStop, satisfies_bind, satisfies_hset, then_ok, satisfies_bind]
        have hone : Stopped w [id] ({ w with queue := rest }.setJob id stoppedFields) :=
          (Stopped.one { w with queue := rest } id).of_queue
        have hrest : ({ w with queue := rest }.setJob id stoppedFields).queue = rest := rfl
        change Satisfies _ _ ({ w with queue := rest }.setJob id stoppedFields) _
        generalize { w with queue := rest }.setJob id stoppedFields = w₁ at hone hrest
        refine (ih (by rw [hrest]; omega)).mono ?_
        rintro out w' ⟨ids, rfl, hstopped, hempty, hnodup, hmem⟩
        have hfresh : id ∉ ids := by
          intro hid
          have hstate := ((hmem id).mp hid).2
          rw [World.queuedState, hone.state List.mem_cons_self] at hstate
          cases hstate
        refine then_ok.mpr (satisfies_ret.mpr ⟨id :: ids, rfl, ?_, hempty,
          List.nodup_cons.mpr ⟨hfresh, hnodup⟩, fun id' => ?_⟩)
        · refine hone.append hstopped fun id' hid' heq => ?_
          exact hfresh (List.mem_singleton.mp heq ▸ hid')
        · by_cases heq : id' = id
          · subst heq
            exact iff_of_true List.mem_cons_self ⟨List.mem_cons_self, hpending⟩
          · have hread : w₁.queuedState id' = w.queuedState id' := by
              rw [World.queuedState, hone.others id' (by simpa using heq)]
            rw [List.mem_cons, List.mem_cons, hmem id', hread, hrest]
            simp only [heq, false_or]
      · have hkept : Stopped w [] { w with queue := rest } := (Stopped.none _).of_queue
        refine (ih (show rest.length < fuel by omega)).mono ?_
        rintro out w' ⟨ids, rfl, hstopped, hempty, hnodup, hmem⟩
        refine ⟨ids, rfl, hkept.append hstopped fun _ _ => List.not_mem_nil, hempty, hnodup,
          fun id' => ?_⟩
        rw [hmem id', List.mem_cons]
        constructor
        · rintro ⟨hrest, hstate⟩
          exact ⟨.inr hrest, hstate⟩
        · rintro ⟨rfl | hrest, hstate⟩
          · exact absurd hstate hnot
          · exact ⟨hrest, hstate⟩

/-- **The sweep** cancels the jobs among the keys that are PENDING, and adds them to the list. -/
private theorem sweepKeys_spec (keys cancelled : List Uuid)
    (hnamed : ∀ id, (w.job id).isSome → (named id).getD id = id)
    (hdone : ∀ id ∈ cancelled, ¬ w.Pending id) :
    Satisfies environment.machine
      (fun out w' => ∃ ids, out = .ok (cancelled ++ ids) ∧ Stopped w ids w' ∧
        w'.queue = w.queue ∧ ids.Nodup ∧ ∀ id, id ∈ ids ↔ id ∈ keys ∧ w.Pending id) w
      (sweepKeys named cancelled keys) := by
  induction keys generalizing w cancelled with
  | nil =>
    refine satisfies_ret.mpr ⟨[], congrArg Except.ok (List.append_nil _).symm, Stopped.none w, rfl,
      List.nodup_nil, by simp⟩
  | cons id rest ih =>
    rw [sweepKeys, satisfies_bind, satisfies_hgetall, then_ok]
    refine Satisfies.ite (fun hpending => ?_) fun hnot => ?_
    · obtain ⟨job, hjob, hstate⟩ := Option.bind_eq_some_iff.mp hpending
      have hid : w.Pending id := ⟨job, hjob, hstate⟩
      have hkey : (named id).getD id = id := hnamed id (by rw [hjob]; rfl)
      have hnew : id ∉ cancelled := fun hmem => hdone id hmem hid
      rw [cancelByStop, satisfies_bind, satisfies_hset, then_ok, hkey]
      dsimp only
      rw [if_neg hnew]
      have hone : Stopped w [id] (w.setJob id stoppedFields) := Stopped.one w id
      have hqueue : (w.setJob id stoppedFields).queue = w.queue := rfl
      change Satisfies _ _ (w.setJob id stoppedFields) _
      generalize w.setJob id stoppedFields = w₁ at hone hqueue
      have hpendingNow : ∀ id', w₁.Pending id' ↔ id' ≠ id ∧ w.Pending id' := by
        intro id'
        by_cases heq : id' = id
        · subst heq
          refine iff_of_false ?_ fun h => h.1 rfl
          rintro ⟨job', hjob', hstate'⟩
          have hcancelled := hone.state List.mem_cons_self
          rw [hjob', Option.bind_some, hstate'] at hcancelled
          cases hcancelled
        · rw [World.Pending, World.Pending, hone.others id' (by simpa using heq)]
          exact ⟨fun h => ⟨heq, h⟩, And.right⟩
      have hnamed₁ : ∀ id', (w₁.job id').isSome → (named id').getD id' = id' := by
        intro id' hsome
        by_cases heq : id' = id
        · exact heq ▸ hkey
        · rw [hone.others id' (by simpa using heq)] at hsome
          exact hnamed id' hsome
      have hdone₁ : ∀ id' ∈ cancelled ++ [id], ¬ w₁.Pending id' := by
        intro id' hid' hwaits
        obtain ⟨hne, hwaits⟩ := (hpendingNow id').mp hwaits
        rcases List.mem_append.mp hid' with hid' | hid'
        · exact hdone id' hid' hwaits
        · exact hne (List.mem_singleton.mp hid')
      refine (ih (cancelled ++ [id]) hnamed₁ hdone₁).mono ?_
      rintro out w' ⟨ids, rfl, hstopped, hsame, hnodup, hmem⟩
      have hfresh : id ∉ ids := fun hin => ((hpendingNow id).mp ((hmem id).mp hin).2).1 rfl
      refine ⟨id :: ids, congrArg Except.ok (by simp), ?_, hsame.trans hqueue,
        List.nodup_cons.mpr ⟨hfresh, hnodup⟩, fun id' => ?_⟩
      · refine hone.append hstopped fun id' hid' heq => ?_
        exact hfresh (List.mem_singleton.mp heq ▸ hid')
      · rw [List.mem_cons, List.mem_cons, hmem id', hpendingNow id']
        by_cases heq : id' = id
        · subst heq
          exact iff_of_true (.inl rfl) ⟨.inl rfl, hid⟩
        · simp [heq]
    · refine (ih cancelled hnamed hdone).mono ?_
      rintro out w' ⟨ids, rfl, hstopped, hsame, hnodup, hmem⟩
      refine ⟨ids, rfl, hstopped, hsame, hnodup, fun id' => ?_⟩
      rw [hmem id', List.mem_cons]
      constructor
      · rintro ⟨hrest, hwaits⟩
        exact ⟨.inr hrest, hwaits⟩
      · rintro ⟨rfl | hrest, hwaits⟩
        · obtain ⟨job, hjob, hstate⟩ := hwaits
          exact absurd (Option.bind_eq_some_iff.mpr ⟨job, hjob, hstate⟩) hnot
        · exact ⟨hrest, hwaits⟩

/-! ### The stop -/

/-- **An exact stop**: the queue is paused and empty, the jobs in `S` and no others were cancelled,
and each of them is reported once. -/
structure ExactStop (w : World) (S : Uuid → Prop) (result : DrainResult) (w' : World) : Prop where
  paused : w'.paused = true
  emptied : w'.queue = []
  cancelled : ∀ id, S id →
    ∃ job, w.job id = some job ∧ w'.job id = some (stoppedFields w.clock job)
  others : ∀ id, ¬ S id → w'.job id = w.job id
  reported : ∀ id, id ∈ result.cancelledJobIds ↔ S id
  once : result.cancelledJobIds.Nodup
  count : result.cancelled = result.cancelledJobIds.length

/-- The fuel of the loop is enough for the queue. -/
private theorem emptyQueue_ends (hfuel : w.queue.length < fuel) :
    ∃ out w', Ends environment (emptyQueue fuel) w out w' := by
  induction fuel generalizing w with
  | zero => omega
  | succ fuel ih =>
    rw [emptyQueue]
    have hpop : Ends environment (issue .lpop) w (.ok w.queue.head?)
        { w with queue := w.queue.tail } := ends_issue (a := .ok) rfl
    cases hqueue : w.queue with
    | nil =>
      rw [hqueue] at hpop
      exact ⟨_, _, hpop.bind (.ret [] _)⟩
    | cons id rest =>
      rw [hqueue] at hpop
      rw [hqueue, List.length_cons] at hfuel
      have hget (w₁ : World) : Ends environment (hgetall id) w₁ (.ok (w₁.job id)) w₁ :=
        ends_issue (a := .ok) rfl
      have hcancel (w₁ : World) :
          Ends environment (cancelByStop id) w₁ (.ok ()) (w₁.setJob id stoppedFields) :=
        ends_issue (a := .ok) rfl
      by_cases hpending : w.queuedState id = .PENDING
      · obtain ⟨out, w', hends⟩ :=
          ih (w := { w with queue := rest }.setJob id stoppedFields) (show rest.length < fuel by omega)
        have hspec := hends.post (emptyQueue_spec (show rest.length < fuel by omega))
        obtain ⟨ids, rfl, -⟩ := hspec
        refine ⟨.ok (id :: ids), w', hpop.bind ((hget _).bind ?_)⟩
        show Ends environment (if w.queuedState id = .PENDING then _ else _) _ _ _
        rw [if_pos hpending]
        exact (hcancel _).bind (hends.bind (.ret _ _))
      · obtain ⟨out, w', hends⟩ :=
          ih (w := { w with queue := rest }) (show rest.length < fuel by omega)
        refine ⟨out, w', hpop.bind ((hget _).bind ?_)⟩
        show Ends environment (if w.queuedState id = .PENDING then _ else _) _ _ _
        rwa [if_neg hpending]

private theorem drainScanned_spec {keys : List Uuid} (hhashes : ∀ id ∈ w.queue, (w.job id).isSome)
    (hnamed : ∀ id, (w.job id).isSome → named id = none ∨ named id = some id)
    (hkeys : ∀ id, id ∈ keys ↔ (w.job id).isSome) (hfuel : w.queue.length < fuel) :
    Satisfies environment.machine
      (fun out w' => ∃ result, out = .ok result ∧ ExactStop w w.Waits result w') w
      (drainScanned named keys fuel) := by
  rw [drainScanned, satisfies_bind, setQueuePaused, satisfies_setPaused, then_ok, satisfies_bind]
  refine (emptyQueue_spec (w := { w with paused := true }) hfuel).mono ?_
  rintro out w₁ ⟨ids, rfl, hqueued, hempty, hnodup, hmem⟩
  rw [then_ok, satisfies_bind]
  have hcancelled : ∀ id ∈ ids, ¬ w₁.Pending id := by
    rintro id hid ⟨job, hjob, hstate⟩
    have hread := hqueued.state hid
    rw [hjob, Option.bind_some, hstate] at hread
    cases hread
  have hsame : ∀ id, id ∉ ids → w₁.job id = w.job id := fun id hid => hqueued.others id hid
  have hmem' : ∀ id, id ∈ ids ↔ id ∈ w.queue ∧ w.queuedState id = .PENDING := hmem
  have hkept : ∀ id, (w₁.job id).isSome → (w.job id).isSome := by
    intro id hsome
    by_cases hid : id ∈ ids
    · exact hhashes id ((hmem' id).mp hid).1
    · rwa [hsame id hid] at hsome
  have hkeyed : ∀ id, (w₁.job id).isSome → (named id).getD id = id := by
    intro id hsome
    rcases hnamed id (hkept id hsome) with hnone | hself
    · rw [hnone, Option.getD_none]
    · rw [hself, Option.getD_some]
  refine (sweepKeys_spec keys ids hkeyed hcancelled).mono ?_
  rintro out w' ⟨found, rfl, hswept, hqueue, hfound, hmemFound⟩
  have hdisjoint : ∀ id ∈ found, id ∉ ids := fun id hid hin =>
    hcancelled id hin ((hmemFound id).mp hid).2
  have hall := hqueued.append hswept hdisjoint
  have hwaits : ∀ id, id ∈ ids ++ found ↔ w.Waits id := by
    intro id
    rw [List.mem_append]
    constructor
    · rintro (hid | hid)
      · obtain ⟨hin, hstate⟩ := (hmem' id).mp hid
        obtain ⟨job, hjob⟩ := Option.isSome_iff_exists.mp (hhashes id hin)
        rw [World.queuedState, hjob, Option.bind_some] at hstate
        refine ⟨job, hjob, ?_⟩
        cases hjobState : job.state with
        | none => exact .inr ⟨rfl, hin⟩
        | some state =>
          rw [hjobState, Option.getD_some] at hstate
          exact .inl (congrArg some hstate)
      · obtain ⟨job, hjob, hstate⟩ := ((hmemFound id).mp hid).2
        exact ⟨job, (hsame id (hdisjoint id hid)).symm.trans hjob, .inl hstate⟩
    · rintro ⟨job, hjob, hstate⟩
      by_cases hin : id ∈ w.queue
      · refine .inl ((hmem' id).mpr ⟨hin, ?_⟩)
        rw [World.queuedState, hjob, Option.bind_some]
        rcases hstate with hstate | ⟨hstate, -⟩ <;> rw [hstate] <;> rfl
      · have hnot : id ∉ ids := fun hid => hin ((hmem' id).mp hid).1
        have hpending := hstate.resolve_right fun h => hin h.2
        refine .inr ((hmemFound id).mpr ⟨(hkeys id).mpr (by rw [hjob]; rfl), job, ?_, hpending⟩)
        rw [hsame id hnot, hjob]
  refine then_ok.mpr (satisfies_ret.mpr ⟨_, rfl, hall.paused, hqueue.trans hempty, ?_, ?_, hwaits,
    ?_, rfl⟩)
  · intro id hid
    have hstopped := hall.cancelled id ((hwaits id).mpr hid)
    obtain ⟨job, hjob, -⟩ := hid
    refine ⟨job, hjob, ?_⟩
    rw [show ({ w with paused := true } : World).job id = some job from hjob] at hstopped
    exact hstopped
  · intro id hid
    exact hall.others id (mt (hwaits id).mp hid)
  · exact hnodup.append hfound fun id hin hid => hdisjoint id hid hin

/-- **The stop of the queue is exact**: it cancels the jobs that wait. -/
theorem drainScanned_exact {keys : List Uuid} (hhashes : ∀ id ∈ w.queue, (w.job id).isSome)
    (hnamed : ∀ id, (w.job id).isSome → named id = none ∨ named id = some id)
    (hkeys : ∀ id, id ∈ keys ↔ (w.job id).isSome) (hfuel : w.queue.length < fuel) :
    (∃ out w', Ends environment (drainScanned named keys fuel) w out w') ∧
      ∀ out w', Ends environment (drainScanned named keys fuel) w out w' →
        ∃ result, out = .ok result ∧ ExactStop w w.Waits result w' := by
  refine ⟨?_, fun out w' hends => hends.post (drainScanned_spec hhashes hnamed hkeys hfuel)⟩
  obtain ⟨out, w₁, hempty⟩ := emptyQueue_ends (w := { w with paused := true }) hfuel
  obtain ⟨ids, rfl, -⟩ := hempty.post (emptyQueue_spec hfuel)
  have hsweep : ∀ (keys cancelled : List Uuid),
      (sweepKeys named cancelled keys).Only (· ≠ Op.park) := by
    intro keys
    induction keys with
    | nil => exact fun _ => only_ret
    | cons id rest ih =>
      intro cancelled
      rw [sweepKeys]
      refine Only.bind (only_perform.mpr nofun) fun data => Only.ite (fun _ => ?_) fun _ => ih _
      exact Only.bind (only_perform.mpr nofun) fun _ => ih _
  obtain ⟨out, w', hrest⟩ := exists_run (Only.bind (hsweep keys ids) fun cancelledIds =>
    (only_ret : (Program.ret (DrainResult.mk cancelledIds.length cancelledIds) :
      Prog DrainResult).Only (· ≠ Op.park))) w₁
  have hpaused : Ends environment (setQueuePaused true) w (.ok ()) { w with paused := true } :=
    ends_issue (a := .ok) rfl
  exact ⟨out, w', hpaused.bind (hempty.bind hrest)⟩

/-! ### Two stores -/

/-- A stop cancels the jobs that are PENDING, and no others. -/
def StopsPending (w : World) (named : Uuid → Option Uuid) (keys : List Uuid) : Prop :=
  ∀ out w', Ends environment (drainScanned named keys (w.queue.length + 1)) w out w' →
    ∃ result, out = .ok result ∧ ExactStop w w.Pending result w'

/-- A job without a state in the queue. -/
def statelessWorld : World := { jobs := (∅ : AList _).insert 1 {}, queue := [1] }

/-- Two PENDING jobs that are not in the queue. -/
def orphanedWorld : World :=
  { jobs := ((∅ : AList _).insert 1 { state := some .PENDING }).insert 2 { state := some .PENDING } }

/-- The stop cancels a job that has no state, and it reports two jobs with one `job_id` as one. -/
theorem stop_not_exact :
    (statelessWorld.job 1).isSome ∧ ¬ StopsPending statelessWorld some [1] ∧
      orphanedWorld.queue = [] ∧ ¬ StopsPending orphanedWorld (fun _ => some 1) [1, 2] := by
  refine ⟨rfl, fun hstops => ?_, rfl, fun hstops => ?_⟩
  · have hrun : ((drainScanned some [1] 2).run environment [] statelessWorld).map
        (fun r => (r.2.job 1).bind (·.state)) = some (some .CANCELLED) := by decide +kernel
    obtain ⟨out, w', hends, hstate⟩ := exists_ends_of_run hrun
    obtain ⟨result, -, hexact⟩ := hstops out w' hends
    have hnot : ¬ statelessWorld.Pending 1 := by
      rintro ⟨job, hjob, hpending⟩
      have hjobEq : some ({} : Job) = some job := hjob
      obtain rfl := Option.some.inj hjobEq
      cases hpending
    rw [hexact.others 1 hnot] at hstate
    cases hstate
  · have hrun : ((drainScanned (fun _ => some 1) [1, 2] 1).run environment [] orphanedWorld).map
        (fun r => r.1.toOption.map (·.cancelledJobIds)) = some (some [1]) := by decide +kernel
    obtain ⟨out, w', hends, hreported⟩ := exists_ends_of_run hrun
    obtain ⟨result, rfl, hexact⟩ := hstops out w' hends
    have hpending : orphanedWorld.Pending 2 := ⟨{ state := some .PENDING }, rfl, rfl⟩
    have hmem := (hexact.reported 2).mpr hpending
    have hids : result.cancelledJobIds = [1] := Option.some.inj hreported
    rw [hids] at hmem
    exact absurd hmem (by decide)

/-- A job in the queue twice, a PENDING one outside it, and one that is being restored: a scan
that repeats its keys. -/
theorem drainScanned_exact_mixed : ∃ w : World,
    w.queue = [1, 1] ∧
      ∀ out w', Ends environment (drainScanned some [2, 1, 3, 2] 3) w out w' →
        ∃ result, out = .ok result ∧ ExactStop w w.Waits result w' := by
  let w : World :=
    { jobs := ((((∅ : AList _).insert 1 { state := some .PENDING }).insert 2
        { state := some .PENDING }).insert 3 { state := some .RESTORING }), queue := [1, 1] }
  have hkeys : ∀ id, id ∈ [2, 1, 3, 2] ↔ (w.job id).isSome := by
    intro id
    rw [World.job, AList.lookup_isSome, AList.mem_insert, AList.mem_insert, AList.mem_insert]
    have hnone : id ∉ (∅ : AList fun _ : Uuid => Job) := AList.notMem_empty id
    simp only [List.mem_cons, List.not_mem_nil, hnone]
    tauto
  refine ⟨w, rfl, (drainScanned_exact ?_ ?_ hkeys ?_).2⟩
  · decide
  · exact fun id _ => .inr rfl
  · decide

end RestoreEngine
