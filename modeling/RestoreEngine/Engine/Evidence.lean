import RestoreEngine.Effects.Views
import RestoreEngine.Engine.Dispatch

/-!
# On what evidence guests are destroyed

Two procedures destroy guests: the enqueueing of a restore that may overwrite, and the teardown of a
run. Neither takes the guest for its own because of its VMID. A process destroys a guest only if the
cluster has just told it that there is a virtual machine at this VMID, on this node, and if moreover
the configuration that it has just read is that of this guest and carries the ownership marker; or
if it tears a run down, and a restore to this VMID has been submitted before (`destroys_founded`).

What a process has been told is its `Evidence`. Whether a restore has been submitted is something
that a teardown reads in the hash of a job; and the hash is right because the fields that tell of a
restore are only written by the worker that has submitted it (`evidenceProtocol`).
-/

namespace RestoreEngine

open Effects Prog Program

/-! ### Evidence -/

/-- The client, the node and the VMID of a request on a guest. -/
abbrev GuestRef := Client × String × ℤ

/-- The VMID to which the hash of a job tells that a restore was started. -/
def Job.provenance (data : Job) : Option ℤ := if startedRestore data then data.proxmoxVmid else none

/-- The configuration that the event reads, if it is there, and the guest whose it is. -/
def configRead (e : Event commands) : Option (GuestRef × Option GuestConfig) :=
  match e.op, e.res with
  | .qemuConfig px node v, reply => some ((px, node, v), reply.toOption)
  | _, _ => none

/-- The listing of the cluster that the event reads; one that is not there is empty. -/
def listingRead (e : Event commands) : Option (Client × List Resource) :=
  match e.op, e.res with
  | .clusterResources px, reply => some (px, (reply.toOption.bind id).getD [])
  | _, _ => none

/-- The VMID for which the event finds that a job vouches. -/
def provenanceRead (e : Event commands) : Option ℤ :=
  match e.op, e.res with
  | .hgetall _, found => found.bind Job.provenance
  | _, _ => none

/-- The job for which the event submits a restore. -/
def jobSubmitted (e : Event commands) : Option Uuid :=
  match e.op with
  | .qemuRestore px _ _ => px.jobId
  | _ => none

/-- What a process has been told of guests, and for which jobs it has submitted restores. -/
structure Evidence where
  config : Option (GuestRef × Option GuestConfig) := none
  listing : Option (Client × List Resource) := none
  vouched : Set ℤ := ∅
  submitted : Set Uuid := ∅

namespace Evidence

/-- The evidence after a command. -/
def after (m : Evidence) (o : Op) (r : o.Res) : Evidence where
  config := (configRead ⟨o, r⟩).or m.config
  listing := (listingRead ⟨o, r⟩).or m.listing
  vouched := m.vouched ∪ {v | provenanceRead ⟨o, r⟩ = some v}
  submitted := m.submitted ∪ {id | jobSubmitted ⟨o, r⟩ = some id}

/-- The listing shows a virtual machine at the VMID, on this node. -/
def ShowsQemu (listing : Option (Client × List Resource)) : GuestRef → Prop
  | (px, node, v) => ∃ rows guest, listing = some (px, rows) ∧ findIn rows v = some guest ∧
      guest.type = "qemu" ∧ (guest.node = "" ∨ guest.node = node)

/-- The configuration is that of the guest, and carries the ownership marker. -/
def ShowsMarker (config : Option (GuestRef × Option GuestConfig)) (ref : GuestRef) : Prop :=
  ∃ cfg, config = some (ref, some cfg) ∧ carriesMarker cfg = true

/-- The guest may be destroyed. -/
def Suffices (m : Evidence) (ref : GuestRef) : Prop :=
  ShowsQemu m.listing ref ∧
    (ShowsMarker m.config ref ∨ (∃ R, ref.1 = .teardown R) ∧ ref.2.2 ∈ m.vouched)

/-- The evidence that is kept has grown. -/
structure Grows (m m' : Evidence) : Prop where
  vouched : m.vouched ⊆ m'.vouched
  submitted : m.submitted ⊆ m'.submitted

theorem Grows.refl (m : Evidence) : m.Grows m := ⟨subset_rfl, subset_rfl⟩

theorem Grows.trans {m m' m'' : Evidence} (h : m.Grows m') (h' : m'.Grows m'') : m.Grows m'' :=
  ⟨h.vouched.trans h'.vouched, h.submitted.trans h'.submitted⟩

theorem grows_after (m : Evidence) (o : Op) (r : o.Res) : m.Grows (m.after o r) :=
  ⟨Set.subset_union_left, Set.subset_union_left⟩

end Evidence

/-- **The protocol of evidence**: guests are destroyed on sufficient evidence; and only who has
submitted the restore of a job makes its hash tell of it. -/
def evidenceProtocol : Protocol commands Evidence where
  observe := Evidence.after
  Permits m o :=
    match o with
    | .hset id f => id ∈ m.submitted ∨ KeepsStarted f
    | .hsetLrem _ f => KeepsStarted f
    | .qemuDelete px node v _ => m.Suffices (px, node, v)
    | _ => True

/-! ### Every process keeps to the protocol -/

section Walk

variable {α β : Type} {cfg : Config} {mt : Matching} {polls : ℕ} {m m' : Evidence} {px : Client}
  {node : String} {v : ℤ} {id : Uuid} {data : Job}

/-- The machine of the protocol. -/
private abbrev evidenceMachine : Machine commands Evidence := evidenceProtocol.machine

/-- The program keeps to the protocol. -/
private abbrev KeepsEvidence (m : Evidence) (p : Prog α) : Prop :=
  Satisfies evidenceMachine (fun _ _ => True) m p

private theorem evidence_grows {p : Prog α} {Q : Except Exn α → Evidence → Prop}
    (hp : Satisfies evidenceMachine Q m p) :
    Satisfies evidenceMachine (fun out m' => Q out m' ∧ m.Grows m') m p := by
  refine hp.grows Evidence.Grows.refl (fun h h' => h.trans h') ?_
  rintro m o r _ rfl
  exact m.grows_after o r

/-- A part of a program, and what follows it. -/
private theorem evidence_then {p : Prog α} {f : α → Prog β} (hp : KeepsEvidence m p)
    (hf : ∀ a m', m.Grows m' → KeepsEvidence m' (f a)) : KeepsEvidence m (p >>= f) :=
  (evidence_grows hp).bind (fun a m' h => hf a m' h.2) fun _ _ _ => trivial

/-- Commands that need no evidence. -/
def Op.NeedsNoEvidence : Op → Prop
  | hset _ f | hsetLrem _ f => KeepsStarted f
  | qemuDelete _ _ _ _ => False
  | _ => True

private theorem freely {p : Prog α} (hp : p.Only Op.NeedsNoEvidence) : KeepsEvidence m p := by
  refine hp.satisfies (I := fun _ => True) trivial (fun m o ho _ => ?_) fun _ _ _ _ _ _ _ => trivial
  cases o <;> first | exact trivial | exact ho.elim | exact .inr ho | exact ho

theorem Op.KeepsBooks.needsNoEvidence {o : Op} (ho : o.KeepsBooks) : o.NeedsNoEvidence := by
  cases o <;> first | exact trivial | exact ho.elim

theorem Op.OfCancel.needsNoEvidence {o : Op} (ho : o.OfCancel) : o.NeedsNoEvidence := by
  cases o <;> first | exact trivial | exact ho.elim | exact ho.2.1

/-! #### The destruction of a guest -/

/-- The commands by which a guest that has been found is destroyed. -/
private def Op.OfRemoval (ref : GuestRef) : Op → Prop
  | qemuStop px node v | qemuStatus px node v | qemuDelete px node v _ => (px, node, v) = ref
  | _ => False

private theorem stopQemuVm_removal {timeout : ℕ} :
    (stopQemuVm px node v timeout).Only (Op.OfRemoval (px, Text.strip node, v)) := by
  have hpolls : ∀ n, (pollStopped px (Text.strip node) v n).Only
      (Op.OfRemoval (px, Text.strip node, v)) := by
    intro n
    induction n with
    | zero => exact only_ret
    | succ n ih =>
      refine Only.bind (only_perform.mpr rfl) fun reply => ?_
      split
      · exact only_ret
      · exact Only.ite (fun _ => only_ret) fun _ => ih
  exact Only.bind (only_perform.mpr rfl) fun _ => hpolls _

private theorem deleteAttempts_removal {name : String} (hname : Text.strip name = name)
    (unreferenced : Bool) (lastExc : Option Exn) (left : ℕ) :
    (deleteAttempts px name v unreferenced lastExc left).Only (Op.OfRemoval (px, name, v)) := by
  induction left generalizing unreferenced lastExc with
  | zero => cases lastExc <;> first | exact only_ret | exact only_raise
  | succ left ih =>
    refine Only.bind (only_perform.mpr rfl) fun reply => ?_
    split
    · exact only_ret
    · refine Only.bind (only_perform.mpr rfl) fun reply => ?_
      split
      · exact only_ret
      · exact ih _ _
    · refine Only.ite (fun _ => Only.bind ?_ fun _ => ih _ _) fun _ => only_raise
      have hstop : (stopQemuVm px name v 60).Only (Op.OfRemoval (px, Text.strip name, v)) :=
        stopQemuVm_removal
      rwa [hname] at hstop

private theorem destroyQemuVm_removal :
    (destroyQemuVm px node v).Only (Op.OfRemoval (px, Text.strip node, v)) := by
  have hstop : (stopQemuVm px (Text.strip node) v 90).Only
      (Op.OfRemoval (px, Text.strip (Text.strip node), v)) := stopQemuVm_removal
  rw [Text.strip_strip] at hstop
  refine Only.ite (fun _ => only_raise) fun _ => Only.bind hstop fun _ => ?_
  exact deleteAttempts_removal (Text.strip_strip node) _ _ _

/-- A guest is destroyed on sufficient evidence. -/
private theorem destroyQemuVm_keeps (hm : m.Suffices (px, Text.strip node, v)) :
    KeepsEvidence m (destroyQemuVm px node v) := by
  refine Satisfies.mono (onProtocol_of_only destroyQemuVm_removal (fun o ho => ?_) fun o r ho => ?_)
    fun _ _ _ => trivial
  · cases o with
    | qemuDelete px' node' v' unreferenced =>
      have href : (px', node', v') = (px, Text.strip node, v) := ho
      show m.Suffices (px', node', v')
      rwa [href]
    | _ => first | exact trivial | exact ho.elim
  · cases o <;> first | exact ho.elim | skip
    all_goals simp [evidenceProtocol, Evidence.after, configRead, listingRead, provenanceRead,
      jobSubmitted]

/-- A listing, once it has been read. -/
private theorem findGuestResource_listing :
    Satisfies evidenceMachine (fun out m' => ∀ guest, out = .ok guest →
      m'.vouched = m.vouched ∧ ∃ rows, m'.listing = some (px, rows) ∧ findIn rows v = guest) m
      (findGuestResource px v) := by
  rw [findGuestResource, clusterVmResources, satisfies_bind, satisfies_bind]
  refine (onProtocol_issue (.clusterResources px)).mpr ⟨trivial, fun reply => then_ok.mpr ?_⟩
  have hvouched :
      (evidenceProtocol.observe m (.clusterResources px) reply).vouched = m.vouched := by
    simp [evidenceProtocol, Evidence.after, provenanceRead]
  rcases reply with exc | _ | rows
  all_goals
    refine satisfies_ret.mpr (then_ok.mpr (satisfies_ret.mpr fun guest hguest => ?_))
    obtain rfl := Except.ok.inj hguest
    exact ⟨hvouched, _, rfl, rfl⟩

/-- A marker, once it has been seen. -/
private theorem qemuIsManagedByTool_marker :
    Satisfies evidenceMachine (fun out m' => m'.vouched = m.vouched ∧ m'.listing = m.listing ∧
      (out = .ok true → Evidence.ShowsMarker m'.config (px, node, v))) m
      (qemuIsManagedByTool px node v) := by
  rw [qemuIsManagedByTool, satisfies_bind, satisfies_attempt, getQemuConfig, satisfies_bind]
  refine (onProtocol_issue (.qemuConfig px node v)).mpr ⟨trivial, fun reply => then_ok.mpr ?_⟩
  have hvouched : (evidenceProtocol.observe m (.qemuConfig px node v) reply).vouched =
      m.vouched := by
    simp [evidenceProtocol, Evidence.after, provenanceRead]
  refine satisfies_ofExcept.mpr (then_ok.mpr ?_)
  cases reply with
  | error exc => exact satisfies_ret.mpr ⟨hvouched, rfl, fun h => by cases h⟩
  | ok found =>
    refine satisfies_ret.mpr ⟨hvouched, rfl, fun hmarked => ⟨found, rfl, ?_⟩⟩
    exact Except.ok.inj hmarked

/-- **The guarded destruction** collects the evidence that it needs, unless provenance stands in for
the marker. -/
private theorem destroyOwnedQemuVm_keeps {prov : Bool}
    (hprov : prov = true → (∃ R, px = .teardown R) ∧ v ∈ m.vouched) :
    KeepsEvidence m (destroyOwnedQemuVm px node v prov) := by
  rw [destroyOwnedQemuVm]
  refine findGuestResource_listing.bind (fun found m₁ hfound => ?_) fun _ _ _ => trivial
  obtain ⟨hvouched, rows, hlisting, hrows⟩ := hfound found rfl
  cases found with
  | none => exact satisfies_ret.mpr trivial
  | some guest =>
    refine Satisfies.ite (fun _ => satisfies_raise.mpr trivial) fun _ =>
      Satisfies.ite (fun _ => satisfies_raise.mpr trivial) fun hqemu => ?_
    refine qemuIsManagedByTool_marker.bind (fun managed m₂ hmarker => ?_) fun _ _ _ => trivial
    obtain ⟨hvouched₂, hlisting₂, hmarked⟩ := hmarker
    -- the node is the one that the listing names, if it names one
    have hshows : Evidence.ShowsQemu m₂.listing
        (px, Text.strip (if guest.node = "" then Text.strip node else guest.node), v) := by
      refine ⟨rows, guest, hlisting₂.trans hlisting, hrows, not_not.mp hqemu, ?_⟩
      by_cases hnode : guest.node = ""
      · exact .inl hnode
      · rw [if_neg hnode]
        obtain ⟨row, -, rfl⟩ := Option.map_eq_some_iff.mp hrows
        exact .inr (Text.strip_strip _).symm
    have hdestroy : m₂.Suffices (px, Text.strip (if guest.node = "" then Text.strip node
        else guest.node), v) → ∀ done : String, KeepsEvidence m₂ (do
          destroyQemuVm px (Text.strip (if guest.node = "" then Text.strip node else guest.node)) v
          return done) := by
      intro hsuffices done
      refine evidence_then (destroyQemuVm_keeps ?_) fun _ _ _ => satisfies_ret.mpr trivial
      rwa [Text.strip_strip]
    refine Satisfies.ite (fun hmanaged => ?_) fun _ => Satisfies.ite (fun hrun => ?_) fun _ => ?_
    · exact hdestroy ⟨hshows, .inl (hmarked (congrArg Except.ok hmanaged))⟩ _
    · obtain ⟨hteardown, hv⟩ := hprov hrun
      exact hdestroy ⟨hshows, .inr ⟨hteardown, hvouched₂ ▸ hvouched ▸ hv⟩⟩ _
    · exact satisfies_raise.mpr trivial

/-! #### The procedures that destroy guests -/

private theorem findQemuNode_free : (findQemuNode px v).Only Op.NeedsNoEvidence := by
  refine Only.bind (Only.bind (Only.bind (only_perform.mpr trivial) fun reply => ?_) ?_) ?_
  · rcases reply with exc | _ | rows <;> exact only_ret
  · exact fun _ => only_ret
  · intro found
    cases found <;> exact only_ret

private theorem reclaimVmid_keeps (candidates : List String) :
    KeepsEvidence m (reclaimVmid px candidates v) := by
  refine findGuestResource_listing.bind (fun guest m₁ _ => ?_) fun _ _ _ => trivial
  refine Satisfies.ite (fun _ => satisfies_raise.mpr trivial) fun _ => ?_
  refine evidence_then (freely (Only.ite (fun _ => only_ret) fun _ => findQemuNode_free))
    fun found m₂ _ => ?_
  refine Satisfies.ite (fun _ => satisfies_raise.mpr trivial) fun _ => ?_
  refine qemuIsManagedByTool_marker.bind (fun managed m₃ _ => ?_) fun _ _ _ => trivial
  refine Satisfies.ite (fun _ => ?_) fun _ => satisfies_raise.mpr trivial
  have hdestroy : KeepsEvidence m₃ (destroyOwnedQemuVm px
      (if found ≠ "" then found else candidates.headD "") v).attempt :=
    satisfies_attempt.mpr (destroyOwnedQemuVm_keeps fun h => absurd h Bool.false_ne_true)
  refine evidence_then hdestroy fun out m₄ _ => ?_
  split
  · exact satisfies_ret.mpr trivial
  · exact satisfies_raise.mpr trivial

private theorem reclaimStep_keeps {req : EnqueueRequest} {inUse : Finset ℤ} {vmids : List ℤ} :
    KeepsEvidence m (reclaimStep req px inUse vmids) := by
  refine Satisfies.ite (fun _ => ?_) fun _ => satisfies_ret.mpr trivial
  induction vmids generalizing m with
  | nil => exact satisfies_ret.mpr trivial
  | cons vmid rest ih =>
    exact Satisfies.ite (fun _ => evidence_then (reclaimVmid_keeps _) fun _ _ _ => ih) fun _ => ih

private theorem writeJobs_free {req : EnqueueRequest} (rows : List (Row × ℤ × String × String)) :
    (writeJobs req rows).Only Op.NeedsNoEvidence := by
  induction rows with
  | nil => exact only_ret
  | cons e rest ih =>
    refine Only.bind (only_perform.mpr trivial) fun jobId => ?_
    refine Only.bind (only_perform.mpr trivial) fun now => Only.bind only_ofExcept fun archive => ?_
    refine Only.bind only_ofExcept fun source => ?_
    refine Only.bind (only_perform.mpr fun _ _ => rfl) fun _ => ?_
    exact Only.bind (only_perform.mpr trivial) fun _ => Only.bind ih fun _ => only_ret

private theorem enqueueRestores_onEvidence (req : EnqueueRequest) :
    KeepsEvidence m (enqueueRestores req) := by
  have hconnect : (connect (.enqueue req.planRunId)).Only Op.NeedsNoEvidence :=
    Only.bind (only_perform.mpr trivial) fun _ => only_ofExcept
  refine evidence_then (freely only_ofExcept) fun _ m₁ _ => ?_
  refine evidence_then (freely hconnect) fun _ m₂ _ => ?_
  refine evidence_then (freely (listInUse_only trivial)) fun inUse m₃ _ => ?_
  refine evidence_then (freely only_ofExcept) fun vmids m₄ _ => ?_
  refine evidence_then (freely (activeRestoreCountsByNode_only trivial fun _ => trivial))
    fun counts m₅ _ => ?_
  refine evidence_then (freely only_ofExcept) fun placed m₆ _ => ?_
  refine evidence_then reclaimStep_keeps fun _ m₇ _ => ?_
  exact freely (Only.bind (writeJobs_free _) fun _ => only_ret)

/-- The VMIDs that provenance names are vouched for. -/
private theorem provenanceVmids_vouched (ids : List Uuid) :
    Satisfies evidenceMachine (fun out m' => ∀ vs, out = .ok vs → ∀ v ∈ vs, v ∈ m'.vouched) m
      (provenanceVmids ids) := by
  induction ids generalizing m with
  | nil =>
    refine satisfies_ret.mpr fun vs hvs => ?_
    obtain rfl := Except.ok.inj hvs
    exact List.forall_mem_nil _
  | cons id rest ih =>
    rw [provenanceVmids, satisfies_bind]
    refine (onProtocol_issue (.hgetall id)).mpr ⟨trivial, fun found => then_ok.mpr ?_⟩
    refine (evidence_grows ih).bind (fun vs m' hrest => ?_) fun _ _ _ _ h => by cases h
    obtain ⟨hvs, hgrows⟩ := hrest
    refine satisfies_ret.mpr fun all hall => ?_
    obtain rfl := Except.ok.inj hall
    intro v hv
    refine (List.mem_append.mp hv).elim (fun hnew => hgrows.vouched (.inr ?_)) (hvs vs rfl v)
    -- the hash that has just been read vouches for its VMID
    obtain ⟨data, hdata, hvmid⟩ := Option.bind_eq_some_iff.mp (Option.mem_toList.mp hnew)
    obtain ⟨rfl, hstarted⟩ := Option.filter_eq_some_iff.mp hdata
    show Option.bind (some data) Job.provenance = some v
    rw [Option.bind_some, Job.provenance, if_pos hstarted]
    exact hvmid

private theorem teardownTargets_keeps {R : Uuid} {provenance : List ℤ} (targets : List Target)
    (hprov : ∀ v ∈ provenance, v ∈ m.vouched) :
    KeepsEvidence m (teardownTargets (.teardown R) provenance targets) := by
  induction targets generalizing m with
  | nil => exact satisfies_ret.mpr trivial
  | cons t rest ih =>
    have htarget : KeepsEvidence m (teardownTarget (.teardown R) provenance t) := by
      refine evidence_then (freely (Only.ite (fun _ => findQemuNode_free) fun _ => only_ret))
        fun node m₁ h₁ => Satisfies.ite (fun _ => satisfies_ret.mpr trivial) fun _ => ?_
      rw [map_eq_bind]
      refine evidence_then (satisfies_attempt.mpr (destroyOwnedQemuVm_keeps fun hmem => ?_))
        fun _ _ _ => satisfies_ret.mpr trivial
      exact ⟨⟨R, rfl⟩, h₁.vouched (hprov _ (of_decide_eq_true hmem))⟩
    refine evidence_then htarget fun entry m₁ h₁ => ?_
    exact evidence_then (ih fun v hv => h₁.vouched (hprov v hv))
      fun _ _ _ => satisfies_ret.mpr trivial

private theorem teardownPlanRun_keeps (run : PlanRun) : KeepsEvidence m (teardownPlanRun run) := by
  refine Satisfies.ite (fun _ => satisfies_ret.mpr trivial) fun _ =>
    Satisfies.ite (fun _ => satisfies_raise.mpr trivial) fun _ => ?_
  have hcollect : ∀ ids byVmid, (collectFromJobs byVmid ids).Only Op.NeedsNoEvidence := by
    intro ids
    induction ids with
    | nil => exact fun _ => only_ret
    | cons id rest ih => exact fun _ => Only.bind (only_perform.mpr trivial) fun _ => ih _
  refine evidence_then (freely (hcollect _ _)) fun targets m₁ _ => ?_
  refine evidence_then (freely (Only.ite (fun _ => only_ret) fun _ => ?_)) fun _ m₂ _ => ?_
  · exact Only.bind (only_perform.mpr trivial) fun _ => only_ofExcept
  refine (provenanceVmids_vouched _).bind (fun provenance m₃ hprov => ?_) fun _ _ _ => trivial
  refine evidence_then (teardownTargets_keeps targets (hprov provenance rfl)) fun results m₄ _ => ?_
  refine freely (Only.bind (only_perform.mpr trivial) fun now => ?_)
  exact Only.bind (only_perform.mpr trivial) fun _ => only_ret

/-! #### The worker -/

/-- Who has submitted the restore of a job attends to it freely. -/
private theorem attends {p : Prog α} (hp : p.Only (Op.OfFinish id)) (hm : id ∈ m.submitted) :
    KeepsEvidence m p := by
  refine Satisfies.mono (hp.satisfies (I := fun m => id ∈ m.submitted) hm (fun m o ho hm => ?_) ?_)
    fun _ _ _ => trivial
  · rcases ho with ho | ⟨node, v, rfl⟩
    · cases o <;> first | exact trivial | exact ho.elim | skip
      obtain ⟨rfl, -⟩ := ho
      exact .inl hm
    · trivial
  · rintro m o r _ - hm rfl
    exact (m.grows_after o r).submitted hm

private theorem setState_free {state : RestoreState} {error : Option String} :
    (setState cfg id state error).Only Op.NeedsNoEvidence :=
  Only.bind (only_perform.mpr fun _ _ => rfl) fun _ =>
    Only.ite (fun _ => only_perform.mpr trivial) fun _ => only_ret

private theorem sampleStep_free {backupId : String} :
    (sampleStep id backupId).Only Op.NeedsNoEvidence :=
  Only.bind (only_perform.mpr trivial) fun _ => Only.ite
    (fun _ => only_perform.mpr fun _ _ => rfl) fun _ => only_ret

private theorem restoreTask_keeps :
    Satisfies evidenceMachine (fun out m' => out = .ok true → id ∈ m'.submitted) m
      (restoreTask cfg polls (.job id) id data node v) := by
  rw [restoreTask, submitRestore, satisfies_bind, satisfies_bind]
  refine (onProtocol_issue (.qemuRestore _ node _)).mpr ⟨trivial, fun reply => then_ok.mpr ?_⟩
  have hsubmitted : ∀ p reply, id ∈
      (evidenceProtocol.observe m (.qemuRestore (.job id) node p) reply).submitted :=
    fun _ _ => .inr rfl
  rcases reply with exc | _ | upid
  · exact satisfies_raise.mpr (then_error.mpr fun h => by cases h)
  · exact satisfies_raise.mpr (then_error.mpr fun h => by cases h)
  · refine satisfies_ret.mpr (then_ok.mpr ?_)
    refine (evidence_grows (attends ?_ (hsubmitted _ _))).mono fun _ m' h _ =>
      h.2.submitted (hsubmitted _ _)
    exact Only.bind (only_perform.mpr (.inl ⟨rfl, fun _ _ => rfl⟩)) fun _ =>
      awaitRestore_only.mono fun _ ho => .inl ho

private theorem beginJob_keeps : KeepsEvidence m (beginJob cfg polls id data) := by
  rw [beginJob]
  cases placement data with
  | error exc => exact satisfies_raise.mpr trivial
  | ok placed =>
    refine Satisfies.ite (fun _ => satisfies_raise.mpr trivial) fun _ => ?_
    refine evidence_then (freely setState_free) fun _ m₁ _ => ?_
    refine evidence_then (freely sampleStep_free) fun _ m₂ _ => ?_
    refine evidence_then (freely (Only.bind (only_perform.mpr trivial) fun _ => only_ofExcept))
      fun _ m₃ _ => ?_
    refine restoreTask_keeps.bind (fun goesOn m₄ h₄ => ?_) fun _ _ _ => trivial
    refine Satisfies.ite (fun hgoes => ?_) fun _ => satisfies_ret.mpr trivial
    exact attends finishJob_only (h₄ (congrArg Except.ok hgoes))

private theorem claimJob_keeps : KeepsEvidence m (claimJob cfg polls) := by
  refine evidence_then (freely (only_perform.mpr trivial)) fun found m₁ _ => ?_
  cases found with
  | none => exact satisfies_ret.mpr trivial
  | some id =>
    refine evidence_then (satisfies_attempt.mpr ?_) fun out m₂ _ => ?_
    · refine evidence_then (freely (only_perform.mpr trivial)) fun found m₂ _ => ?_
      cases found with
      | none => exact satisfies_ret.mpr trivial
      | some data =>
        refine evidence_then (freely (Only.bind (only_perform.mpr trivial) fun _ => only_ret))
          fun cancelled m₃ _ => ?_
        exact Satisfies.ite (fun _ => freely setState_free) fun _ => beginJob_keeps
    · split
      · exact satisfies_ret.mpr trivial
      · exact freely setState_free

/-- **Every process keeps to the protocol of evidence.** -/
theorem Activity.onEvidence (act : Activity) :
    Satisfies evidenceProtocol.machine (fun _ _ => True) m (act.program cfg mt polls) := by
  refine act.composed.satisfies (I := fun _ => True) (fun m o ho _ => ?_)
    (fun _ _ _ _ _ _ _ => trivial) (fun β q m hpart _ => ?_) trivial
  · cases o <;> first | exact trivial | exact ho.elim
  · cases hpart with
    | enqueue req => exact enqueueRestores_onEvidence req
    | work => exact claimJob_keeps
    | teardown run => exact teardownPlanRun_keeps run
    | cancel id => exact freely (cancelJob_only.mono fun _ ho => ho.needsNoEvidence)
    | stop id => exact freely (stopJob_only.mono fun _ ho => ho.needsNoEvidence)
    | drain fuel => exact freely (drainPendingJobs_only.mono fun _ ho => ho.needsNoEvidence)

end Walk

/-! ### The invariant -/

section Invariant

variable {ι : Type} {w₀ w w' : World} {h : List (ι × Event commands)} {e : ι × Event commands}
  {u : ι → JobHold} {c : ι → Evidence} {i : ι} {o : Op} {a : Answer} {r : o.Res} {v : ℤ}

/-- A restore to the VMID has been submitted for a job, or one had been started before, of which the
hash of its job tells. -/
def RestoredTo (w₀ : World) (h : List (ι × Event commands)) (v : ℤ) : Prop :=
  (∃ s ∈ submissions h, s.2.2.vmid = v) ∨
    ∃ id job, w₀.job id = some job ∧ job.provenance = some v

theorem RestoredTo.append (hv : RestoredTo w₀ h v) (e : ι × Event commands) :
    RestoredTo w₀ (h ++ [e]) v := by
  refine hv.imp_left ?_
  rintro ⟨s, hs, hvmid⟩
  refine ⟨s, ?_, hvmid⟩
  rw [submissions_append]
  exact List.mem_append_left _ hs

variable [DecidableEq ι]

/-- If the event destroys a guest, there is a reason for it in what has happened before. -/
def Founded (w₀ : World) (before : List (ι × Event commands)) (e : ι × Event commands) : Prop :=
  ∀ px node v unreferenced, e.2.op = .qemuDelete px node v unreferenced →
    Evidence.ShowsQemu (lastRead e.1 listingRead before) (px, node, v) ∧
      (Evidence.ShowsMarker (lastRead e.1 configRead before) (px, node, v) ∨
        (∃ R, px = .teardown R) ∧ RestoredTo w₀ before v)

/-- **What is told of restores is true**, and every guest was destroyed for a reason. -/
private structure Vouching (w₀ : World) (h : List (ι × Event commands)) (u : ι → JobHold)
    (c : ι → Evidence) (w : World) : Prop where
  started : ∀ id job, w.job id = some job → startedRestore job = true →
    id < w.nextUuid ∧ ∀ i, (u i).own ≠ some id
  hashes : ∀ id job v, w.job id = some job → job.provenance = some v → RestoredTo w₀ h v
  submitted : ∀ i id, id ∈ (c i).submitted → id ∈ (submissions h).map Prod.fst
  vouched : ∀ i v, v ∈ (c i).vouched → RestoredTo w₀ h v
  config : ∀ i, (c i).config = lastRead i configRead h
  listing : ∀ i, (c i).listing = lastRead i listingRead h
  founded : Throughout (Founded w₀) h

theorem provenance_eq_some {data : Job} :
    data.provenance = some v ↔ startedRestore data = true ∧ data.proxmoxVmid = some v := by
  rw [Job.provenance]
  split_ifs with hstarted
  · exact ⟨fun hv => ⟨hstarted, hv⟩, fun hv => hv.2⟩
  · exact ⟨fun hv => (by cases hv), fun hv => absurd hv.1 hstarted⟩

section Step

variable (hd : Dispatched w₀.queue h u w) (hv : Vouching w₀ h u c w)
  (hjob : jobProtocol.Permits (u i) o) (hevidence : evidenceProtocol.Permits (c i) o)
  (henv : environment o a w = some (r, w'))

include hv hevidence in
/-- A write makes a hash tell of a restore only if the restore of the job has been submitted. -/
private theorem write_cases {id : Uuid} {f : Instant → Job → Job}
    (ho : o = .hset id f ∨ o = .hsetLrem id f) :
    id ∈ (submissions h).map Prod.fst ∨ KeepsStarted f := by
  rcases ho with rfl | rfl
  · exact hevidence.imp_left (hv.submitted i id)
  · exact .inr hevidence

omit [DecidableEq ι] in
/-- The hash that is there before a write that tells of no new restore. -/
private theorem started_before {id : Uuid} {f : Instant → Job → Job} (hf : KeepsStarted f)
    (hstarted : startedRestore (f w.clock ((w.job id).getD {})) = true) :
    ∃ job, w.job id = some job ∧ startedRestore job = true := by
  rw [hf] at hstarted
  cases hfound : w.job id with
  | none =>
    rw [hfound] at hstarted
    exact absurd hstarted Bool.false_ne_true
  | some job =>
    rw [hfound] at hstarted
    exact ⟨job, rfl, hstarted⟩

include hd hv hevidence henv in
private theorem Vouching.started_step (id : Uuid) (job : Job) (hfound : w'.job id = some job)
    (hstarted : startedRestore job = true) :
    id < w'.nextUuid ∧ ∀ j, (Function.update u i ((u i).after o r) j).own ≠ some id := by
  have hold : id < w.nextUuid ∧ ∀ j, (u j).own ≠ some id := by
    rcases job_step henv id with hsame | ⟨f, ho, hwrite⟩
    · exact hv.started id job (hsame ▸ hfound) hstarted
    · obtain rfl := Option.some.inj (hwrite.symm.trans hfound)
      rcases write_cases hv hevidence ho with hsub | hkeeps
      · -- what has been submitted has been in the queue
        have hqueued : id ∈ queuedIds w₀.queue h :=
          hd.inOrder.order.subset (List.mem_append_left _ (hd.claimed.taken id hsub))
        exact ⟨hd.minted.below id hqueued, fun j hj => (hd.minted.own j id hj).2 hqueued⟩
      · obtain ⟨job, hjob, hstarted⟩ := started_before hkeeps hstarted
        exact hv.started id job hjob hstarted
  exact unowned_step hold.1 hold.2 henv

include hd hv hjob hevidence henv in
private theorem Vouching.hashes_step (id : Uuid) (job : Job) (x : ℤ)
    (hfound : w'.job id = some job) (hx : job.provenance = some x) :
    RestoredTo w₀ (h ++ [(i, ⟨o, r⟩)]) x := by
  obtain ⟨hstarted, hvmid⟩ := provenance_eq_some.mp hx
  rcases job_step henv id with hsame | ⟨f, ho, hwrite⟩
  · exact (hv.hashes id job x (hsame ▸ hfound) hx).append _
  · obtain rfl := Option.some.inj (hwrite.symm.trans hfound)
    rcases write_cases hv hevidence ho with hsub | hkeeps
    · -- the hash describes the restore that was submitted
      obtain ⟨s, hs, rfl⟩ := List.mem_map.mp hsub
      have hs' : s ∈ submissions (h ++ [(i, ⟨o, r⟩)]) := by
        rw [submissions_append]
        exact List.mem_append_left _ hs
      obtain ⟨job, hjob', hdescribes⟩ := (hd.step hjob henv).claimed.described s hs'
      obtain rfl := Option.some.inj (hjob'.symm.trans hwrite)
      exact .inl ⟨s, hs', Option.some.inj (hdescribes.vmid.symm.trans hvmid)⟩
    · obtain ⟨job, hbefore, hstarted'⟩ := started_before hkeeps hstarted
      rw [hbefore, Option.getD_some] at hvmid
      -- the write is not the making of the job
      have hunowned := (hv.started id job hbefore hstarted').2 i
      have horigin : KeepsOrigin f := by
        rcases ho with rfl | rfl
        · exact hjob.resolve_left fun hmade => hunowned (congrArg JobHold.own hmade)
        · exact hjob
      have hsame : (f w.clock job).proxmoxVmid = job.proxmoxVmid :=
        congrArg (·.2.1) (horigin w.clock job)
      exact (hv.hashes id job x hbefore
        (provenance_eq_some.mpr ⟨hstarted', hsame.symm.trans hvmid⟩)).append _

include hv in
private theorem Vouching.submitted_step (j : ι) (id : Uuid)
    (hj : id ∈ (Function.update c i ((c i).after o r) j).submitted) :
    id ∈ (submissions (h ++ [(i, ⟨o, r⟩)])).map Prod.fst := by
  rw [submissions_append, List.map_append, List.mem_append]
  by_cases hji : j = i
  · subst hji
    rw [Function.update_self] at hj
    refine hj.imp (hv.submitted j id) fun hnew => ?_
    cases o with
    | qemuRestore px node p =>
      have hpx : px.jobId = some id := hnew
      have hsub : submittedBy ⟨.qemuRestore px node p, r⟩ = some (id, node, p) :=
        Option.map_eq_some_iff.mpr ⟨id, hpx, rfl⟩
      rw [hsub]
      exact List.mem_singleton_self id
    | _ => cases hnew
  · rw [Function.update_of_ne hji] at hj
    exact .inl (hv.submitted j id hj)

include hv henv in
private theorem Vouching.vouched_step (j : ι) (x : ℤ)
    (hj : x ∈ (Function.update c i ((c i).after o r) j).vouched) :
    RestoredTo w₀ (h ++ [(i, ⟨o, r⟩)]) x := by
  refine RestoredTo.append ?_ _
  by_cases hji : j = i
  · subst hji
    rw [Function.update_self] at hj
    rcases hj with hold | hnew
    · exact hv.vouched j x hold
    · cases o with
      | hgetall id =>
        have hpair : (w.job id, w) = (r, w') := Option.some.inj henv
        obtain ⟨rfl, -⟩ := Prod.mk.inj hpair
        obtain ⟨job, hjob, hx⟩ := Option.bind_eq_some_iff.mp
          (show (w.job id).bind Job.provenance = some x from hnew)
        exact hv.hashes id job x hjob hx
      | _ => cases hnew
  · rw [Function.update_of_ne hji] at hj
    exact hv.vouched j x hj

include hv hevidence in
/-- A guest is destroyed for a reason. -/
private theorem Vouching.founded_step : Founded w₀ h (i, ⟨o, r⟩) := by
  rintro px node x unreferenced rfl
  obtain ⟨hshows, hreason⟩ := hevidence
  rw [hv.listing i] at hshows
  rw [hv.config i] at hreason
  exact ⟨hshows, hreason.imp_right fun hprov => ⟨hprov.1, hv.vouched i x hprov.2⟩⟩

include hd hv hjob hevidence henv in
/-- **The step.** -/
private theorem Vouching.step : Vouching w₀ (h ++ [(i, ⟨o, r⟩)])
    (Function.update u i ((u i).after o r)) (Function.update c i ((c i).after o r)) w' where
  started := hv.started_step hd hevidence henv
  hashes := hv.hashes_step hd hjob hevidence henv
  submitted := hv.submitted_step
  vouched := hv.vouched_step henv
  config j := by
    rw [lastRead_append]
    by_cases hji : j = i
    · subst hji
      rw [Function.update_self, if_pos rfl, ← hv.config j]
      rfl
    · rw [Function.update_of_ne hji, if_neg (Ne.symm hji)]
      exact hv.config j
  listing j := by
    rw [lastRead_append]
    by_cases hji : j = i
    · subst hji
      rw [Function.update_self, if_pos rfl, ← hv.listing j]
      rfl
    · rw [Function.update_of_ne hji, if_neg (Ne.symm hji)]
      exact hv.listing j
  founded := throughout_append.mpr ⟨hv.founded, hv.founded_step hevidence⟩

end Step

end Invariant

/-! ### The runs -/

section Run

variable {ι : Type} [DecidableEq ι] {cfg : Config} {mt : Matching} {polls : ℕ}
  {acts : ι → Activity} {w₀ w : World} {h : List (ι × Event commands)} {p : ι → Prog Unit}

/-- The stored jobs have ids that have been made before. -/
def World.JobsMade (w : World) : Prop := ∀ id job, w.job id = some job → id < w.nextUuid

/-- **Guests are destroyed for a reason.** In every run, when a process destroys a guest, the last
listing that it has read shows a virtual machine at the VMID, and on the node, if it names one; and
the last configuration that it has read is the one of this guest, and carries the ownership marker,
or the process tears a run down, and a restore to this VMID has been submitted before. -/
theorem destroys_founded
    (hrun : Interleaved environment (fun _ _ => True)
      (fun i => (acts i).program cfg mt polls) w₀ h p w) (hw : w₀.QueueFresh)
    (hjobs : w₀.JobsMade) : Throughout (Founded w₀) h := by
  have hinit : Dispatched w₀.queue [] (fun _ : ι => .nothing) w₀ ∧
      Vouching w₀ [] (fun _ : ι => .nothing) (fun _ => {}) w₀ := by
    refine ⟨.start hw, fun id job hjob _ => ⟨hjobs id job hjob, fun i hi => by cases hi⟩,
      fun id job v hjob hv => .inr ⟨id, job, hjob, hv⟩, fun i id hid => ?_, fun i v hv => ?_,
      fun _ => rfl, fun _ => rfl, throughout_nil⟩
    · exact absurd hid (Set.notMem_empty id)
    · exact absurd hv (Set.notMem_empty v)
  refine Exists.elim (hrun.invariant_both jobProtocol evidenceProtocol (fun _ _ _ => True)
    (fun h u c w => Dispatched w₀.queue h u w ∧ Vouching w₀ h u c w)
    (fun i => (acts i).onProtocol) (fun i => (acts i).onEvidence.guarded) hinit ?_) ?_
  · rintro h u c w i o a r w' ⟨hd, hv⟩ hjob hevidence henv -
    exact ⟨trivial, hd.step hjob henv, hv.step hd hjob hevidence henv⟩
  · rintro u ⟨c, ⟨-, hv⟩, -⟩
    exact hv.founded

end Run

/-! ### A guest that has no marker yet -/

/-- A run that was cancelled. -/
private def cancelledRun : PlanRun :=
  { id := 1
    planId := 0
    status := .CANCELLED
    locationId := 0
    node := "pve"
    nodes := ["pve"]
    storage := "local"
    vmidStart := 100
    groupIds := [2]
    jobIdsByGroup := [[7]] }

/-- A world that stores the run, with its job in the queue. -/
private def cancelledWorld : World where
  jobs := (∅ : AList fun _ : Uuid => Job).insert 7
    { state := some .PENDING, backupId := some "pbs|vm/100", proxmoxVmid := some 120
      proxmoxNode := some "pve", proxmoxStorage := some "local"
      archive := "pbs:backup/vm/100", planRunId := some 1, planGroupIndex := some 0 }
  queue := [7]
  runs := AList.insert 1 cancelledRun ∅
  nextUuid := 8

private theorem cancelledWorld_fresh : cancelledWorld.QueueFresh where
  nodup := by decide
  below := by decide

private theorem cancelledWorld_made : cancelledWorld.JobsMade := by
  intro id job hjob
  by_cases hid : id = 7
  · subst hid
    decide
  · have hnone : cancelledWorld.job id = none := AList.lookup_insert_ne hid
    rw [hnone] at hjob
    cases hjob

/-- A worker, and an operator who tears the run down. -/
private def workAndTeardown : Fin 2 → Activity
  | 0 => .iteration 2
  | 1 => .teardownRun 1 false

private abbrev teardownPrograms : Fin 2 → Prog Unit := fun i =>
  (workAndTeardown i).program {} .unused 0

/-- The event destroys the guest 120. -/
private def destroysIt (e : Fin 2 × Event commands) : Bool :=
  match e.2.op with
  | .qemuDelete _ _ v _ => v == 120
  | _ => false

/-- The worker submits the restore; the operator destroys the guest before the worker has stamped
it. There is a reason: the hash of the job tells of the restore. -/
theorem destroys_founded_unmarked : ∃ h p w,
    Interleaved environment (fun _ _ => True) teardownPrograms cancelledWorld h p w ∧
      h.any destroysIt = true ∧ Throughout (Founded cancelledWorld) h := by
  have hshown : (interleave environment (fun _ _ => true)
      ((List.replicate 16 0 ++ List.replicate 9 (1 : Fin 2)).map fun i => (i, .ok)) []
        teardownPrograms cancelledWorld).any (fun end_ => end_.1.any destroysIt) = true := by
    decide +kernel
  obtain ⟨h, p, w, hrun, hend⟩ := exists_interleaved (fun _ _ _ => trivial) hshown
  exact ⟨h, p, w, hrun, hend, destroys_founded hrun cancelledWorld_fresh cancelledWorld_made⟩

end RestoreEngine
