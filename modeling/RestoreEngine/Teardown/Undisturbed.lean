import RestoreEngine.Model.Destroy
import RestoreEngine.Runs.Finalize

/-!
# An undisturbed teardown

What `teardownPlanRun` does when nobody else acts, whatever the API answers: it destroys guests
and records a status. The status is `completed` only if there is nothing to tear down, or if
every target could be located (`teardownPlanRun_spec`). Conversely a teardown whose targets can
all be located may end as `completed` without destroying anything, because a listing that
fails passes for one without guests (`autoTeardown_completes`).
-/

namespace RestoreEngine

open Effects Prog Program

variable {w w' : World} {plan : Plan} {run : PlanRun} {px : Client} {v : ℤ}

/-! ### Locating the targets -/

/-- The node of the target is recorded, or the listing names it. -/
def World.Located (w : World) (t : Target) : Prop :=
  Text.strip t.node ≠ "" ∨ ∃ g, w.guest t.vmid = some g ∧ g.kind = .qemu ∧
    (g.found t.vmid).node ≠ ""

theorem World.Shrinks.located (h : w.Shrinks w') {t : Target} (ht : w'.Located t) :
    w.Located t := by
  obtain ⟨guests, rfl, hg⟩ := h
  exact ht.imp_right fun ⟨g, hget, hrest⟩ => ⟨g, hg _ _ hget, hrest⟩

private theorem targetNode_spec (t : Target) :
    Satisfies environment.machine
      (fun out w' => w' = w ∧ ∃ node, out = .ok node ∧ (node ≠ "" → w.Located t)) w
      (targetNode px t) := by
  rw [targetNode]
  refine Satisfies.ite (fun hnode => ?_) fun hnode => ?_
  · simp only [findQemuNode, findGuestResource, satisfies_bind, satisfies_clusterVmResources,
      pure_eq_ret, satisfies_ret, then_ok, findIn_listing]
    refine ⟨?_, ?_⟩
    · cases hg : w.guest t.vmid with
      | none => simp
      | some g =>
        rw [Option.map_some]
        dsimp only
        by_cases hkind : (g.found t.vmid).type = "qemu"
        · rw [if_pos hkind, satisfies_ret]
          refine ⟨rfl, _, rfl, fun hne => .inr ⟨g, hg, ?_, hne⟩⟩
          cases hk : g.kind with
          | qemu => rfl
          | lxc => simp [Guest.found, hk, GuestKind.text] at hkind
        · rw [if_neg hkind, satisfies_ret]
          exact ⟨rfl, _, rfl, fun h => absurd rfl h⟩
    · have hnone : findIn [] t.vmid = none := rfl
      simp [hnone]
  · rw [pure_eq_ret, satisfies_ret]
    exact ⟨rfl, _, rfl, fun _ => .inl hnode⟩

/-- The outcome of a target: its entry counts as done only if it could be located. -/
private theorem teardownTarget_spec (provenance : List ℤ) (t : Target) :
    Satisfies environment.machine
      (fun out w' => w.Shrinks w' ∧ ∃ entry, out = .ok entry ∧ (entry.ok = true → w.Located t)) w
      (teardownTarget px provenance t) := by
  refine (targetNode_spec t).bind ?_ ?_
  · rintro node w' ⟨rfl, node', hnode', hlocated⟩
    obtain rfl := Except.ok.inj hnode'
    refine Satisfies.ite (fun hnone => ?_) fun hsome => ?_
    · rw [pure_eq_ret, satisfies_ret]
      exact ⟨.refl _, _, rfl, by simp⟩
    · rw [map_eq_bind, satisfies_bind, satisfies_attempt]
      refine (shrinks_of_only (destroyOwnedQemuVm_only.mono fun _ ho => ⟨_, ho⟩)).mono ?_
      intro out w' hw'
      rw [then_ok, satisfies_ret]
      exact ⟨hw', _, rfl, fun _ => hlocated hsome⟩
  · rintro e w' ⟨-, node, hnode, -⟩
    cases hnode

private theorem teardownTargets_spec (provenance : List ℤ) (targets : List Target) :
    Satisfies environment.machine
      (fun out w' => w.Shrinks w' ∧ ∃ entries, out = .ok entries ∧
        entries.length = targets.length ∧
        ((∀ e ∈ entries, e.ok = true) → ∀ t ∈ targets, w.Located t)) w
      (teardownTargets px provenance targets) := by
  induction targets generalizing w with
  | nil =>
    rw [teardownTargets, pure_eq_ret, satisfies_ret]
    exact ⟨.refl _, [], rfl, rfl, by simp⟩
  | cons t rest ih =>
    refine (teardownTarget_spec provenance t).bind ?_ ?_
    · rintro entry w₁ ⟨hw₁, entry', hentry, hlocated⟩
      obtain rfl := Except.ok.inj hentry
      refine ih.bind ?_ ?_
      · rintro entries w₂ ⟨hw₂, entries', hentries, hlen, hrest⟩
        obtain rfl := Except.ok.inj hentries
        rw [pure_eq_ret, satisfies_ret]
        refine ⟨hw₁.trans hw₂, _, rfl, by simp [hlen], fun hok u hu => ?_⟩
        rcases List.mem_cons.mp hu with rfl | hu
        · exact hlocated (hok _ List.mem_cons_self)
        · exact hw₁.located (hrest (fun e he => hok e (List.mem_cons_of_mem _ he)) u hu)
      · rintro e w₂ ⟨-, entries, hentries, -⟩
        cases hentries
    · rintro e w₁ ⟨-, entry, hentry, -⟩
      cases hentry

/-! ### The status -/

/-- The targets of a run, as `collect_plan_run_targets` finds them. -/
def World.targets (w : World) (run : PlanRun) : List Target :=
  run.jobIdsByGroup.flatten.foldl
    (fun byVmid id =>
      let data := (w.job id).getD {}
      noteTarget byVmid (data.proxmoxVmid.getD 0) (data.proxmoxNode.getD ""))
    (run.assignedTargets.foldl (fun byVmid t => noteTarget byVmid t.vmid t.node) [])

private theorem satisfies_collectFromJobs {byVmid : List Target} {ids : List Uuid}
    {Q : Except Exn (List Target) → World → Prop} :
    Satisfies environment.machine Q w (collectFromJobs byVmid ids) ↔
      Q (.ok (ids.foldl (fun byVmid id =>
        noteTarget byVmid (((w.job id).getD {}).proxmoxVmid.getD 0)
          (((w.job id).getD {}).proxmoxNode.getD "")) byVmid)) w := by
  induction ids generalizing byVmid with
  | nil => exact satisfies_ret
  | cons id rest ih =>
    simp only [collectFromJobs, satisfies_bind, satisfies_hgetall, then_ok, ih, List.foldl_cons]

@[simp] theorem satisfies_collectPlanRunTargets {Q : Except Exn (List Target) → World → Prop} :
    Satisfies environment.machine Q w (collectPlanRunTargets run) ↔
      Q (.ok (w.targets run)) w := by
  rw [collectPlanRunTargets, satisfies_collectFromJobs]
  rfl

private theorem provenanceVmids_spec (ids : List Uuid) :
    Satisfies environment.machine (fun out w' => w' = w ∧ ∃ vmids, out = .ok vmids) w
      (provenanceVmids ids) := by
  induction ids with
  | nil => exact satisfies_ret.mpr ⟨rfl, _, rfl⟩
  | cons id rest ih =>
    simp only [provenanceVmids, satisfies_bind, satisfies_hgetall, then_ok]
    refine ih.mono ?_
    rintro out w' ⟨rfl, vmids, rfl⟩
    rw [then_ok, pure_eq_ret, satisfies_ret]
    exact ⟨rfl, _, rfl⟩

private theorem teardownStatusOf_ne_unset (entries : List TeardownEntry) :
    teardownStatusOf entries ≠ .UNSET := by
  rw [teardownStatusOf]
  split_ifs <;> exact nofun

private theorem all_ok_of_completed {entries : List TeardownEntry}
    (h : teardownStatusOf entries = .COMPLETED) : ∀ e ∈ entries, e.ok = true := by
  rw [teardownStatusOf] at h
  split_ifs at h with hdone
  rcases hdone with rfl | hcount
  · simp
  · exact List.countP_eq_length.mp hcount

/-- The record after a teardown of the run, as far as the course of the run goes. -/
structure PlanRun.TornDown (run run' : PlanRun) : Prop where
  course : run.SameCourse run'
  evaluated : run'.assuranceEvaluated = run.assuranceEvaluated
  torn : run'.teardownStatus ≠ .UNSET

/-- **The teardown.** A run that is not RUNNING and not torn down is torn down, unless it has
targets and the API cannot be reached; it is completed only if all targets could be located. -/
theorem teardownPlanRun_spec (hstatus : run.status ≠ .RUNNING)
    (hunset : run.teardownStatus = .UNSET) (hrun : w.run run.id = some run) :
    Satisfies environment.machine
      (fun _ w' => w'.jobs = w.jobs ∧ w'.plans = w.plans ∧
        ((w.targets run ≠ [] ∧ w.up = false ∧ w'.run run.id = some run) ∨
          ((w.targets run = [] ∨ w.up = true) ∧
            ∃ run', w'.run run.id = some run' ∧ run.TornDown run' ∧
              (run'.teardownStatus = .COMPLETED → ∀ t ∈ w.targets run, w.Located t)))) w
      (teardownPlanRun run) := by
  have hne : run.teardownStatus ≠ .COMPLETED := by
    rw [hunset]
    exact nofun
  rw [teardownPlanRun, if_neg hne, if_neg hstatus, satisfies_bind, satisfies_collectPlanRunTargets,
    then_ok]
  by_cases hdown : w.targets run ≠ [] ∧ w.up = false
  · have hconnect : Satisfies environment.machine
        (fun out w' => (∃ e, out = .error e) ∧ w' = w) w
        (connectFor (.teardown run.id) (w.targets run)) := by
      rw [connectFor, if_neg hdown.1, satisfies_connect, hdown.2]
      exact ⟨⟨_, rfl⟩, rfl⟩
    refine hconnect.bind (by rintro _ _ ⟨⟨_, h⟩, -⟩; cases h) ?_
    rintro e _ ⟨-, rfl⟩
    exact ⟨rfl, rfl, .inl ⟨hdown.1, hdown.2, hrun⟩⟩
  · have hup : w.targets run = [] ∨ w.up = true := by
      by_contra hcon
      simp only [not_or, Bool.not_eq_true] at hcon
      exact hdown hcon
    have hconnect : Satisfies environment.machine (fun out w' => out = .ok () ∧ w' = w) w
        (connectFor (.teardown run.id) (w.targets run)) := by
      refine Satisfies.ite (fun _ => satisfies_ret.mpr ⟨rfl, rfl⟩) fun hsome => ?_
      rw [satisfies_connect, if_pos (hup.resolve_left hsome)]
      exact ⟨rfl, rfl⟩
    refine hconnect.bind ?_ (by rintro e w' ⟨h, -⟩; cases h)
    rintro _ _ ⟨-, rfl⟩
    refine (provenanceVmids_spec _).bind ?_ (by rintro e w' ⟨-, _, h⟩; cases h)
    rintro provenance _ ⟨rfl, -⟩
    refine (teardownTargets_spec provenance _).bind ?_ (by rintro e w' ⟨-, _, h, -⟩; cases h)
    rintro entries w₁ ⟨⟨guests, rfl, -⟩, entries', hentries, -, hlocated⟩
    obtain rfl := Except.ok.inj hentries
    simp only [satisfies_bind, satisfies_utcNow, then_ok, savePlanRun, satisfies_setRun,
      pure_eq_ret, satisfies_ret]
    intro n
    refine ⟨rfl, rfl, .inr ⟨hup, _, World.run_setRun _ _,
      ⟨⟨rfl, rfl, rfl, rfl, rfl, rfl, rfl, rfl, rfl, fun h => h⟩, rfl,
        teardownStatusOf_ne_unset _⟩, ?_⟩⟩
    exact fun hcompleted => hlocated (all_ok_of_completed hcompleted)

/-! ### The automatic teardown of an ended run -/

/-- The teardown statuses that finalizing a run may leave it with. -/
def World.MayTear (w : World) (run : PlanRun) (status : TeardownStatus) : Prop :=
  if run.autoTeardown = true ∧ run.teardownStatus = .UNSET then
    if w.targets run ≠ [] ∧ w.up = false then status = .UNSET
    else status ≠ .UNSET ∧ (status = .COMPLETED → ∀ t ∈ w.targets run, w.Located t)
  else status = run.teardownStatus

/-- **The automatic teardown.** It leaves the run with a status that it may be torn down with. -/
theorem autoTeardown_spec (hstatus : run.status ≠ .RUNNING) (hrun : w.run run.id = some run) :
    Satisfies environment.machine
      (fun out w' => out = .ok () ∧ w'.jobs = w.jobs ∧ w'.plans = w.plans ∧
        ∃ run', w'.run run.id = some run' ∧ run.SameCourse run' ∧
          run'.assuranceEvaluated = run.assuranceEvaluated ∧
          w.MayTear run run'.teardownStatus) w (autoTeardown run) := by
  refine Satisfies.ite (fun hauto => ?_) fun hauto => ?_
  · rw [satisfies_bind, satisfies_attempt]
    refine (teardownPlanRun_spec hstatus hauto.2 hrun).mono ?_
    rintro out w' ⟨hjobs, hplans, hstored⟩
    rw [then_ok, pure_eq_ret, satisfies_ret]
    refine ⟨rfl, hjobs, hplans, ?_⟩
    rcases hstored with ⟨hsome, hdown, hsame⟩ | ⟨hup, run', hrun', htorn, hlocated⟩
    · refine ⟨run, hsame, .refl run, rfl, ?_⟩
      rw [World.MayTear, if_pos hauto, if_pos ⟨hsome, hdown⟩]
      exact hauto.2
    · refine ⟨run', hrun', htorn.course, htorn.evaluated, ?_⟩
      rw [World.MayTear, if_pos hauto, if_neg]
      · exact ⟨htorn.torn, hlocated⟩
      · rintro ⟨hsome, hdown⟩
        rcases hup with hnil | hup
        · exact hsome hnil
        · rw [hup] at hdown
          cases hdown
  · rw [pure_eq_ret, satisfies_ret]
    refine ⟨rfl, rfl, rfl, run, hrun, .refl run, rfl, ?_⟩
    rw [World.MayTear, if_neg hauto]

/-! ### A teardown that does nothing -/

private theorem targetNode_ends {t : Target} (h : w.Located t) :
    ∃ node, node ≠ "" ∧ Ends environment (targetNode px t) w (.ok node) w := by
  by_cases hnode : Text.strip t.node = ""
  · obtain hne | ⟨g, hg, hkind, hne⟩ := h
    · exact absurd hnode hne
    · refine ⟨(g.found t.vmid).node, hne, ?_⟩
      rw [targetNode, if_pos hnode]
      refine Ends.bind (Ends.bind clusterVmResources_obtained (.ret _ _)) ?_
      rw [findIn_listing, hg]
      have htype : (g.found t.vmid).type = "qemu" := by rw [Guest.found, hkind]; rfl
      simp only [Option.map_some, htype, if_true]
      exact .ret _ _
  · refine ⟨Text.strip t.node, hnode, ?_⟩
    rw [targetNode, if_neg hnode]
    exact .ret _ _

private theorem destroyOwnedQemuVm_ends {node : String} {prov : Bool} :
    Ends environment (destroyOwnedQemuVm px node v prov) w (.ok "absent") w := by
  refine Ends.bind (a := none) (Ends.bind clusterVmResources_lost (.ret _ _)) (.ret _ _)

private theorem teardownTargets_ends (px : Client) (provenance : List ℤ) {targets : List Target}
    (h : ∀ t ∈ targets, w.Located t) :
    ∃ entries, (∀ e ∈ entries, e.ok = true) ∧ entries.length = targets.length ∧
      Ends environment (teardownTargets px provenance targets) w (.ok entries) w := by
  induction targets with
  | nil => exact ⟨[], by simp, rfl, .ret _ _⟩
  | cons t rest ih =>
    obtain ⟨entries, hok, hlen, hends⟩ := ih fun u hu => h u (List.mem_cons_of_mem _ hu)
    obtain ⟨node, hne, hnode⟩ : ∃ node, node ≠ "" ∧
        Ends environment (targetNode px t) w (.ok node) w :=
      targetNode_ends (h t List.mem_cons_self)
    refine ⟨{ vmid := t.vmid, node, ok := true } :: entries, ?_, by simp [hlen], ?_⟩
    · rintro e he
      rcases List.mem_cons.mp he with rfl | he
      · rfl
      · exact hok e he
    · refine Ends.bind (Ends.bind hnode ?_) (Ends.bind hends (.ret _ _))
      rw [if_neg hne]
      exact Ends.bind destroyOwnedQemuVm_ends.attempt (.ret _ _)

private theorem provenanceVmids_ends (ids : List Uuid) :
    ∃ vmids, Ends environment (provenanceVmids ids) w (.ok vmids) w := by
  induction ids with
  | nil => exact ⟨_, .ret _ _⟩
  | cons id rest ih =>
    obtain ⟨vmids, hends⟩ := ih
    exact ⟨_, Ends.bind (ends_issue (o := .hgetall id) (a := .ok) rfl)
      (Ends.bind hends (.ret _ _))⟩

private theorem connectFor_ends {targets : List Target} (h : targets = [] ∨ w.up = true) :
    Ends environment (connectFor px targets) w (.ok ()) w := by
  by_cases hnil : targets = []
  · rw [connectFor, if_pos hnil]
    exact .ret _ _
  · rw [connectFor, if_neg hnil]
    exact connect_ends (h.resolve_left hnil)

private theorem collectPlanRunTargets_ends :
    Ends environment (collectPlanRunTargets run) w (.ok (w.targets run)) w := by
  rw [collectPlanRunTargets, World.targets]
  generalize run.assignedTargets.foldl _ [] = byVmid
  induction run.jobIdsByGroup.flatten generalizing byVmid with
  | nil => exact .ret _ _
  | cons id rest ih => exact Ends.bind (ends_issue (o := .hgetall id) (a := .ok) rfl) (ih _)

/-- A teardown with targets fails if the API cannot be reached. -/
theorem teardownPlanRun_refused (hunset : run.teardownStatus = .UNSET)
    (hstatus : run.status ≠ .RUNNING) (htargets : w.targets run ≠ []) (hdown : w.up = false) :
    Ends environment (teardownPlanRun run) w (.error (.api "connection refused")) w := by
  have hne : run.teardownStatus ≠ .COMPLETED := by
    rw [hunset]
    exact nofun
  have hconnect : Ends environment (connectFor (.teardown run.id) (w.targets run)) w
      (.error (.api "connection refused")) w := by
    rw [connectFor, if_neg htargets]
    exact connect_refused hdown
  rw [teardownPlanRun, if_neg hne, if_neg hstatus]
  exact Ends.bind collectPlanRunTargets_ends (ends_bind.mpr (.inr ⟨_, rfl, hconnect⟩))

/-- **A teardown can end as completed** when its targets can be located and it needs no API, or
gets one. -/
theorem autoTeardown_completes (hauto : run.autoTeardown = true)
    (hunset : run.teardownStatus = .UNSET) (hstatus : run.status ≠ .RUNNING)
    (hup : w.targets run = [] ∨ w.up = true) (hlocated : ∀ t ∈ w.targets run, w.Located t) :
    ∃ w', Ends environment (autoTeardown run) w (.ok ()) w' ∧
      (w'.run run.id).map (·.teardownStatus) = some .COMPLETED := by
  obtain ⟨provenance, hprov⟩ := provenanceVmids_ends (w := w) run.jobIdsByGroup.flatten
  obtain ⟨entries, hok, -, hentries⟩ :=
    teardownTargets_ends (.teardown run.id) provenance hlocated
  have hdone : teardownStatusOf entries = .COMPLETED := by
    rw [teardownStatusOf, if_pos (.inr (List.countP_eq_length.mpr hok))]
  have hne : run.teardownStatus ≠ .COMPLETED := by
    rw [hunset]
    exact nofun
  let torn : PlanRun :=
    { run with
      teardownStatus := teardownStatusOf entries, teardownResults := entries
      teardownAt := some (w.clock + (0 : ℕ)) }
  refine ⟨World.setRun { w with clock := w.clock + (0 : ℕ) } torn, ?_, ?_⟩
  · rw [autoTeardown, if_pos ⟨hauto, hunset⟩, teardownPlanRun, if_neg hne, if_neg hstatus]
    refine Ends.bind (Ends.attempt (?_ : Ends environment _ w (.ok torn) _)) (.ret _ _)
    refine Ends.bind collectPlanRunTargets_ends (Ends.bind (connectFor_ends hup) ?_)
    refine Ends.bind hprov (Ends.bind hentries ?_)
    refine Ends.bind (ends_issue (o := .utcNow) (r := w.clock + (0 : ℕ)) (a := .ok) rfl) ?_
    exact Ends.bind (ends_issue (o := .setRun torn) (r := ()) (a := .ok) rfl) (.ret _ _)
  · rw [World.run_setRun_of_eq _ rfl, Option.map_some, ← hdone]

end RestoreEngine
