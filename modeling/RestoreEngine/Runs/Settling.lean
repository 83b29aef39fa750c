import RestoreEngine.Model.Footprints

/-!
# Settling a run

The finalization of a run reads and writes the record of the run, and otherwise only what belongs
to reports, plans and the cluster (`Op.OfSettling`). Each record that it writes differs from one
that it has read in what the finalization is about, and not in what decides how the run goes on
(`PlanRun.Settles`). A machine on which such steps keep what is known of the record, which is
`Settling`, runs the whole finalization (`Settling.finalize`).
-/

namespace RestoreEngine

open Effects Prog Program

/-- The second record is the first one but for what settling a run changes. -/
structure PlanRun.Settles (run run' : PlanRun) : Prop where
  id : run'.id = run.id
  status : run'.status = run.status
  haltOnError : run'.haltOnError = run.haltOnError
  groupIds : run'.groupIds = run.groupIds
  jobIdsByGroup : run'.jobIdsByGroup = run.jobIdsByGroup
  pendingGroupRows : run'.pendingGroupRows = run.pendingGroupRows
  currentGroupIndex : run'.currentGroupIndex = run.currentGroupIndex
  assignedTargets : run'.assignedTargets = run.assignedTargets

theorem PlanRun.Settles.refl (run : PlanRun) : run.Settles run :=
  ⟨rfl, rfl, rfl, rfl, rfl, rfl, rfl, rfl⟩

theorem PlanRun.Settles.trans {run run' run'' : PlanRun} (h : run.Settles run')
    (h' : run'.Settles run'') : run.Settles run'' :=
  ⟨h'.id.trans h.id, h'.status.trans h.status, h'.haltOnError.trans h.haltOnError,
    h'.groupIds.trans h.groupIds, h'.jobIdsByGroup.trans h.jobIdsByGroup,
    h'.pendingGroupRows.trans h.pendingGroupRows, h'.currentGroupIndex.trans h.currentGroupIndex,
    h'.assignedTargets.trans h.assignedTargets⟩

/-- The commands by which the run `id` is settled, besides those on its record. -/
def Op.OfSettling (id : Uuid) : Op → Prop
  | hgetall _ | utcNow | uuid4 | getPlan _ | setPlan _ | addReport _ | reportIds | dropReports _
  | notify _ => True
  | connect px | clusterResources px | qemuConfig px _ _ | qemuStop px _ _ | qemuStatus px _ _
  | qemuDelete px _ _ _ => px = .teardown id
  | _ => False

/-- On the machine `A` a run may be settled, and `Knows` of its record is kept. -/
structure Settling {σ : Type} (A : Machine commands σ) (Knows : PlanRun → σ → Prop) : Prop where
  aside : ∀ {run s} (o : Op), Knows run s → o.OfSettling run.id →
    A.Permits s o ∧ ∀ r s', A.Moves s o r s' → Knows run s'
  save : ∀ {run run' s}, Knows run s → run.Settles run' →
    A.Permits s (Op.setRun run') ∧ ∀ r s', A.Moves s (Op.setRun run') r s' → Knows run' s'
  load : ∀ {run run' s}, Knows run' s → run'.id = run.id → A.Permits s (Op.getRun run.id) ∧
    ∀ (r : Option PlanRun) s', A.Moves s (Op.getRun run.id) r s' →
      (r.getD run).id = run.id ∧ Knows (r.getD run) s'

namespace Settling

variable {σ : Type} {A : Machine commands σ} {Knows : PlanRun → σ → Prop} {run run' : PlanRun}
  {s : σ} {α : Type}

/-- Some record of the run is known. -/
abbrev Left (Knows : PlanRun → σ → Prop) (run : PlanRun) (s : σ) : Prop :=
  ∃ run', Knows run' s ∧ run'.id = run.id

/-- The program comes to an end with a value, and what is known of the record is kept. -/
abbrev Kept (A : Machine commands σ) (Knows : PlanRun → σ → Prop) (run : PlanRun) (s : σ)
    (p : Prog α) : Prop :=
  Satisfies A (fun out s' => (∃ a, out = .ok a) ∧ Knows run s') s p

theorem issue (h : Settling A Knows) (hK : Knows run s) (o : Op) (ho : o.OfSettling run.id) :
    Kept A Knows run s (Prog.issue o) := by
  refine (@satisfies_perform commands Exn σ A s o _).mpr ⟨(h.aside o hK ho).1, fun r s' hr => ?_⟩
  exact ⟨⟨r, rfl⟩, (h.aside o hK ho).2 r s' hr⟩

theorem bind {p : Prog α} {β : Type} {f : α → Prog β} {Q : Except Exn β → σ → Prop}
    (hp : Kept A Knows run s p) (hf : ∀ a s', Knows run s' → Satisfies A Q s' (f a)) :
    Satisfies A Q s (p >>= f) := by
  refine Satisfies.bind hp (fun a s' h => hf a s' h.2) ?_
  rintro e s' ⟨⟨a, h⟩, -⟩
  cases h

/-- A program within the footprint. -/
theorem only (h : Settling A Knows) (hK : Knows run s) {p : Prog α}
    (hp : p.Only (Op.OfSettling run.id)) : Satisfies A (fun _ s' => Knows run s') s p :=
  hp.satisfies hK (fun _ o ho hs => (h.aside o hs ho).1)
    fun _ o r s' ho hs hr => (h.aside o hs ho).2 r s' hr

/-- The record is stored. -/
theorem store (h : Settling A Knows) (hK : Knows run s) (hrun : run.Settles run') :
    Kept A Knows run' s (savePlanRun run') := by
  have hset : Kept A Knows run' s (setRun run') :=
    (@satisfies_perform commands Exn σ A s (Op.setRun run') _).mpr
      ⟨(h.save hK hrun).1, fun r s' hr => ⟨⟨r, rfl⟩, (h.save hK hrun).2 r s' hr⟩⟩
  exact bind hset fun _ s' h' => satisfies_ret.mpr ⟨⟨run', rfl⟩, h'⟩

/-- The record is loaded again. -/
theorem reload {Q : Except Exn PlanRun → σ → Prop} (h : Settling A Knows)
    (hleft : Left Knows run s)
    (hQ : ∀ run' s', run'.id = run.id → Knows run' s' → Q (.ok run') s') :
    Satisfies A Q s (reload run) := by
  obtain ⟨run', hK, hid⟩ := hleft
  rw [RestoreEngine.reload, satisfies_bind]
  refine (@satisfies_perform commands Exn σ A s (Op.getRun run.id) _).mpr
    ⟨(h.load hK hid).1, fun r s' hr => then_ok.mpr (satisfies_ret.mpr ?_)⟩
  obtain ⟨hsame, hknows⟩ := (h.load hK hid).2 r s' hr
  exact hQ _ _ hsame hknows

theorem aggregatePlanRun (h : Settling A Knows) (hK : Knows run s) (other : PlanRun) :
    Kept A Knows run s (aggregatePlanRun other) := by
  have hsum : ∀ (jobs : List (Uuid × ℕ)) s, Knows run s →
      Kept A Knows run s (summarize jobs) := by
    intro jobs
    induction jobs with
    | nil => exact fun s hs => satisfies_ret.mpr ⟨⟨_, rfl⟩, hs⟩
    | cons e rest ih =>
      obtain ⟨id, i⟩ := e
      intro s hs
      refine bind (h.issue hs (.hgetall id) trivial) fun j s₁ h₁ => bind (ih s₁ h₁) ?_
      exact fun _ s₂ h₂ => satisfies_ret.mpr ⟨⟨_, rfl⟩, h₂⟩
  exact bind (hsum _ s hK) fun _ s' h' => satisfies_ret.mpr ⟨⟨_, rfl⟩, h'⟩

private theorem trimReports (h : Settling A Knows) (hK : Knows run s) (cfg : Config) :
    Kept A Knows run s (trimReports cfg) := by
  refine bind (h.issue hK .reportIds trivial) fun ids s₁ h₁ => Satisfies.ite (fun _ => ?_) ?_
  · exact satisfies_ret.mpr ⟨⟨_, rfl⟩, h₁⟩
  · refine fun _ => bind (h.issue h₁ .reportIds trivial) fun ids s₂ h₂ =>
      Satisfies.ite (fun _ => ?_) fun _ => h.issue h₂ (.dropReports _) trivial
    exact satisfies_ret.mpr ⟨⟨_, rfl⟩, h₂⟩

private theorem saveReport (h : Settling A Knows) (hK : Knows run s) (cfg : Config)
    (planId : Uuid) (metadata : ReportMeta) :
    Kept A Knows run s (saveReport cfg planId metadata) := by
  refine bind (h.issue hK .uuid4 trivial) fun id s₁ h₁ => ?_
  refine bind (h.issue h₁ (.addReport _) trivial) fun _ s₂ h₂ => ?_
  exact bind (h.trimReports h₂ cfg) fun _ s₃ h₃ => satisfies_ret.mpr ⟨⟨_, rfl⟩, h₃⟩

private theorem attachReport (h : Settling A Knows) (hK : Knows run s) (cfg : Config) :
    Satisfies A (fun out s' => ∃ run', out = .ok run' ∧ run'.id = run.id ∧ Knows run' s') s
      (attachReport cfg run) := by
  refine bind (h.aggregatePlanRun hK run) fun aggregated s₁ h₁ => ?_
  refine bind (h.issue h₁ (.getPlan _) trivial) fun plan s₂ h₂ => ?_
  refine bind (h.saveReport h₂ cfg _ _) fun rep s₃ h₃ => ?_
  have hrun : run.Settles { run with reportId := some rep.id, rtoSec := rep.rtoSec } :=
    ⟨rfl, rfl, rfl, rfl, rfl, rfl, rfl, rfl⟩
  refine bind (h.store h₃ hrun) fun _ s₄ h₄ => ?_
  cases plan with
  | none => exact satisfies_ret.mpr ⟨_, rfl, rfl, h₄⟩
  | some plan =>
    refine bind (h.issue h₄ (.setPlan _) trivial) fun _ s₅ h₅ => ?_
    exact satisfies_ret.mpr ⟨_, rfl, rfl, h₅⟩

/-! ### Teardown -/

private theorem collectFromJobs_only {id : Uuid} (byVmid : List Target) (ids : List Uuid) :
    (collectFromJobs byVmid ids).Only (Op.OfSettling id) := by
  induction ids generalizing byVmid with
  | nil => exact only_ret
  | cons i rest ih => exact Only.bind (only_perform.mpr trivial) fun _ => ih _

private theorem provenanceVmids_only {id : Uuid} (ids : List Uuid) :
    (provenanceVmids ids).Only (Op.OfSettling id) := by
  induction ids with
  | nil => exact only_ret
  | cons i rest ih =>
    exact Only.bind (only_perform.mpr trivial) fun _ => Only.bind ih fun _ => only_ret

private theorem ofDestroy_ofSettling {id : Uuid} {vmid : ℤ} {o : Op}
    (ho : o.OfDestroy (.teardown id) vmid) : o.OfSettling id := by
  cases o with
  | clusterResources px => exact ho
  | qemuConfig px node v => exact ho.1
  | qemuStop px node v => exact ho.1
  | qemuStatus px node v => exact ho.1
  | qemuDelete px node v unreferenced => exact ho.1
  | _ => exact ho.elim

private theorem teardownTargets_only {id : Uuid} (provenance : List ℤ) (targets : List Target) :
    (teardownTargets (.teardown id) provenance targets).Only (Op.OfSettling id) := by
  induction targets with
  | nil => exact only_ret
  | cons t rest ih =>
    refine Only.bind ?_ fun entry => Only.bind ih fun _ => only_ret
    refine Only.bind ?_ fun node => Only.ite (fun _ => only_ret) fun _ => Only.bind ?_ ?_
    · have hfind : (findQemuNode (.teardown id) t.vmid).Only (Op.OfDestroy (.teardown id) t.vmid) :=
        findQemuNode_only
      exact Only.ite (fun _ => hfind.mono fun _ => ofDestroy_ofSettling) fun _ => only_ret
    · exact (destroyOwnedQemuVm_only.mono fun _ => ofDestroy_ofSettling).attempt
    · exact fun _ => only_ret

/-- A teardown, whether it raises or not. -/
theorem teardownPlanRun (h : Settling A Knows) (hK : Knows run s) :
    Satisfies A (fun _ s' => Left Knows run s') s (teardownPlanRun run) := by
  refine Satisfies.ite (fun _ => satisfies_ret.mpr ⟨run, hK, rfl⟩) fun _ =>
    Satisfies.ite (fun _ => satisfies_raise.mpr ⟨run, hK, rfl⟩) fun _ => ?_
  have hstep : ∀ {α : Type} {p : Prog α} {f : α → Prog PlanRun} {s : σ}, Knows run s →
      p.Only (Op.OfSettling run.id) →
      (∀ a s', Knows run s' → Satisfies A (fun _ s' => Left Knows run s') s' (f a)) →
      Satisfies A (fun _ s' => Left Knows run s') s (p >>= f) := fun hs hp hf =>
    (h.only hs hp).bind hf fun _ s' hs' => ⟨run, hs', rfl⟩
  refine hstep hK (collectFromJobs_only _ _) fun targets s₁ h₁ => ?_
  refine hstep h₁ (Only.ite (fun _ => only_ret) fun _ => ?_) fun _ s₂ h₂ => ?_
  · exact Only.bind (only_perform.mpr rfl) fun _ => only_ofExcept
  refine hstep h₂ (provenanceVmids_only _) fun provenance s₃ h₃ => ?_
  refine hstep h₃ (teardownTargets_only _ _) fun results s₄ h₄ => ?_
  refine hstep h₄ (only_perform.mpr trivial) fun now s₅ h₅ => ?_
  refine Satisfies.mono (h.store h₅ ?_) fun _ s' hs' => ⟨_, hs'.2, rfl⟩
  exact ⟨rfl, rfl, rfl, rfl, rfl, rfl, rfl, rfl⟩

/-! ### The finalization -/

private theorem orNow (h : Settling A Knows) (hK : Knows run s) (t : Option Instant) :
    Kept A Knows run s (orNow t) := by
  cases t with
  | some t => exact satisfies_ret.mpr ⟨⟨t, rfl⟩, hK⟩
  | none => exact h.issue hK .utcNow trivial

private theorem storeVerdict (h : Settling A Knows) (hK : Knows run s) (plan : Plan)
    (verdict : PlanAssurance × String × Option ℤ) :
    Satisfies A (fun _ s' => Left Knows run s') s (storeVerdict plan run verdict) := by
  refine bind (h.issue hK .utcNow trivial) fun now s₁ h₁ => ?_
  refine bind (h.orNow h₁ _) fun lastRunAt s₂ h₂ => ?_
  refine bind (h.issue h₂ (.setPlan _) trivial) fun _ s₃ h₃ => bind (h.store h₃ ?_) ?_
  · exact ⟨rfl, rfl, rfl, rfl, rfl, rfl, rfl, rfl⟩
  · exact fun _ s₄ h₄ => satisfies_ret.mpr ⟨_, h₄, rfl⟩

private theorem applyAssuranceFromRun (h : Settling A Knows) (hK : Knows run s) :
    Satisfies A (fun _ s' => Left Knows run s') s (applyAssuranceFromRun run) := by
  refine Satisfies.ite (fun _ => ?_) fun _ => ?_
  · exact (h.issue hK (.getPlan _) trivial).mono fun _ s' hs' => ⟨run, hs'.2, rfl⟩
  refine bind (h.issue hK (.getPlan _) trivial) fun found s₁ h₁ => ?_
  split
  · refine bind (h.store h₁ ⟨rfl, rfl, rfl, rfl, rfl, rfl, rfl, rfl⟩) fun _ s₂ h₂ => ?_
    exact satisfies_ret.mpr ⟨_, h₂, rfl⟩
  · refine bind (h.aggregatePlanRun h₁ run) fun aggregated s₂ h₂ => ?_
    rw [map_eq_bind]
    exact (h.storeVerdict h₂ _ _).bind (fun _ _ h₃ => satisfies_ret.mpr h₃) fun _ _ h₃ => h₃

private theorem notifyOnce (h : Settling A Knows) (hK : Knows run s) :
    Satisfies A (fun out s' => (∃ a, out = .ok a) ∧ Left Knows run s') s (notifyOnce run) := by
  refine Satisfies.ite (fun _ => satisfies_ret.mpr ⟨⟨_, rfl⟩, run, hK, rfl⟩) fun _ => ?_
  refine bind (h.aggregatePlanRun hK run) fun _ s₁ h₁ => ?_
  refine bind (h.issue h₁ (.notify _) trivial) fun _ s₂ h₂ => ?_
  refine bind (h.store h₂ ⟨rfl, rfl, rfl, rfl, rfl, rfl, rfl, rfl⟩) fun _ s₃ h₃ => ?_
  exact satisfies_ret.mpr ⟨⟨_, rfl⟩, _, h₃, rfl⟩

private theorem judgeRun (h : Settling A Knows) (hleft : Left Knows run s) :
    Satisfies A (fun out s' => ∃ run', out = .ok run' ∧ Knows run' s' ∧ run'.id = run.id) s
      (judgeRun run) := by
  rw [RestoreEngine.judgeRun, satisfies_bind]
  refine h.reload hleft fun run₁ s₁ hid₁ h₁ => then_ok.mpr ?_
  rw [satisfies_bind, satisfies_attempt]
  refine (h.applyAssuranceFromRun h₁).mono fun out s₂ h₂ => then_ok.mpr ?_
  rw [satisfies_bind]
  refine h.reload h₂ fun run₃ s₃ hid₃ h₃ => then_ok.mpr ?_
  refine (h.notifyOnce h₃).bind (fun _ s₄ h₄ => ?_) ?_
  · refine h.reload h₄.2 fun run₅ s₅ hid₅ h₅ => ⟨run₅, rfl, h₅, ?_⟩
    exact hid₅.trans (hid₃.trans hid₁)
  · rintro e s₄ ⟨⟨a, ha⟩, -⟩
    cases ha

private theorem settleRun (h : Settling A Knows) (hK : Knows run s) :
    Satisfies A (fun out s' => ∃ run', out = .ok run' ∧ Knows run' s' ∧ run'.id = run.id) s
      (settleRun run) := by
  have htear : Satisfies A (fun out s' => (∃ a, out = .ok a) ∧ Left Knows run s') s
      (autoTeardown run) := by
    refine Satisfies.ite (fun _ => ?_) fun _ => satisfies_ret.mpr ⟨⟨_, rfl⟩, run, hK, rfl⟩
    rw [satisfies_bind, satisfies_attempt]
    exact (h.teardownPlanRun hK).mono fun _ s' hs' =>
      then_ok.mpr (satisfies_ret.mpr ⟨⟨_, rfl⟩, hs'⟩)
  refine htear.bind (fun _ s' hs' => h.judgeRun hs'.2) ?_
  rintro e s' ⟨⟨a, ha⟩, -⟩
  cases ha

/-- **The finalization** ends without raising, and a record of the run is known at its end. -/
theorem finalize (h : Settling A Knows) (hK : Knows run s) (cfg : Config) :
    Satisfies A (fun out s' => ∃ run', out = .ok run' ∧ Knows run' s' ∧ run'.id = run.id) s
      (finalizePlanRunReport cfg run) := by
  rw [finalizePlanRunReport]
  cases run.reportId with
  | some _ => exact h.settleRun hK
  | none =>
    refine (h.attachReport hK cfg).bind ?_ ?_
    · rintro a s' ⟨run', hout, hid, h'⟩
      obtain rfl := Except.ok.inj hout
      refine (h.settleRun h').mono ?_
      rintro out s'' ⟨run'', hout', h'', hid'⟩
      exact ⟨run'', hout', h'', hid'.trans hid⟩
    · rintro e s' ⟨run', hout, -⟩
      cases hout

end Settling

end RestoreEngine
