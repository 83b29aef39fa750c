import RestoreEngine.Model.Readiness
import RestoreEngine.Model.Rules

/-!
# Readiness checks only ask

Resolving the rows of a plan and checking its readiness read stored records, put questions to the
probes and look at the clock. Nothing is stored before a check has its result.
-/

namespace RestoreEngine

open Effects Prog Program

variable {mt : Matching} {plan : Plan} {location : Location} {cutoff : String}

/-- The command reads a group or a location, puts a question to a probe or looks at the clock. -/
def Op.Asks : Op → Prop
  | .getGroup _ | .getLocation _ | .probe _ | .utcNow => True
  | _ => False

/-! ### The rows of a plan -/

theorem ask_asks (p : Probe) : (ask p).Only Op.Asks :=
  Only.bind (only_perform.mpr trivial) fun _ => only_ofExcept

theorem loadGroups_asks (missing : Uuid → Exn) (ids : List Uuid) :
    (loadGroups missing ids).Only Op.Asks := by
  induction ids with
  | nil => exact only_ret
  | cons id rest ih =>
    refine Only.bind (only_perform.mpr trivial) fun found => ?_
    cases found with
    | none => exact only_raise
    | some group => exact Only.bind ih fun _ => only_ret

theorem resolvePlanGroupRows_asks (groupIds : List Uuid) (node : String) :
    (resolvePlanGroupRows mt groupIds cutoff node).Only Op.Asks := by
  refine Only.bind (ask_asks .backups) fun backups => ?_
  refine Only.bind (loadGroups_asks _ groupIds) fun groups => ?_
  refine Only.ite (fun _ => ?_) fun _ => only_ofExcept
  refine Only.bind only_ofExcept fun candidates => ?_
  rw [map_eq_bind]
  refine Only.bind (Only.bind (ask_asks _) fun _ => only_ret) fun _ => only_ofExcept

theorem resolveScheduledRows_asks (groupIds : List Uuid) :
    (resolveScheduledRows mt groupIds cutoff location).Only Op.Asks := by
  refine Only.bind (ask_asks .backups) fun backups => ?_
  refine Only.bind (loadGroups_asks _ groupIds) fun groups => ?_
  refine Only.ite (fun _ => Only.bind ?_ fun _ => only_ofExcept) fun _ => only_ofExcept
  rw [scheduledTags]
  refine Only.ite (fun _ => only_raise) fun _ => Only.ite (fun _ => only_ret) fun _ => ?_
  rw [map_eq_bind]
  exact Only.bind (ask_asks _) fun _ => only_ret

/-! ### The parts of a check -/

theorem checkGroups_asks (ids : List Uuid) : (checkGroups ids).Only Op.Asks := by
  induction ids with
  | nil => exact only_ret
  | cons id rest ih =>
    refine Only.bind (only_perform.mpr trivial) fun found => Only.bind ih fun others => ?_
    exact only_ret

theorem checkPlan_asks : (checkPlan plan).Only Op.Asks := by
  refine Only.bind (only_perform.mpr trivial) fun found => ?_
  exact Only.bind (checkGroups_asks _) fun read => only_ret

theorem checkPbs_asks : checkPbs.Only Op.Asks := by
  refine Only.bind (ask_asks .pbs).attempt fun r => ?_
  rcases r with exc | ⟨_ | _, results⟩ <;> exact only_ret

theorem checkPve_asks : checkPve.Only Op.Asks := by
  refine Only.bind (ask_asks .pve).attempt fun r => ?_
  rcases r with exc | ⟨_ | _, text⟩
  · exact only_ret
  · exact only_ret
  · refine Only.bind (ask_asks .session).attempt fun s => ?_
    cases s <;> exact only_ret

theorem knownNodes_asks : knownNodes.Only Op.Asks := by
  refine Only.bind (ask_asks .nodes).attempt fun r => ?_
  cases r <;> exact only_ret

theorem checkNodes_asks (known nodes : List String) :
    (checkNodes location known nodes).Only Op.Asks := by
  induction nodes with
  | nil => exact only_ret
  | cons node rest ih =>
    refine Only.bind (Only.ite (fun _ => only_ret) fun _ => ?_) fun _ => Only.bind ih fun _ =>
      only_ret
    refine Only.bind (ask_asks _).attempt fun r => ?_
    cases r <;> exact only_ret

theorem listBackups_asks : listBackups.Only Op.Asks := by
  refine Only.bind (ask_asks .backups).attempt fun r => ?_
  cases r <;> exact only_ret

theorem checkTags_asks (groups : List Group) (backups : List Row) :
    (checkTags location groups backups cutoff).Only Op.Asks := by
  refine Only.ite (fun _ => Only.bind only_ofExcept fun candidates => ?_) fun _ => only_ret
  refine Only.ite (fun _ => only_ret) fun _ => Only.bind (ask_asks _).attempt fun r => ?_
  rcases r with exc | ⟨tags, errors⟩
  · exact only_ret
  · exact Only.ite (fun _ => only_ret) fun _ => only_ret

theorem checkVmids_asks (rows : List Row) : (checkVmids location rows).Only Op.Asks := by
  refine Only.ite (fun _ => only_ret) fun _ => Only.bind (ask_asks .vmids).attempt fun r => ?_
  cases r <;> exact only_ret

theorem checkPlacement_asks (groups : List Group) :
    (checkPlacement mt location groups cutoff).Only Op.Asks := by
  refine Only.bind knownNodes_asks fun nodes => ?_
  refine Only.bind (checkNodes_asks _ _) fun nodeItems => ?_
  refine Only.bind listBackups_asks fun listed => ?_
  refine Only.bind (checkTags_asks groups _) fun read => ?_
  refine Only.bind only_ofExcept fun groupRows => ?_
  exact Only.bind (checkVmids_asks _) fun _ => only_ret

theorem estimateSizes_asks (sum : SizeSummary) (rows : List Row) :
    (estimateSizes sum rows).Only Op.Asks := by
  induction rows generalizing sum with
  | nil => exact only_ret
  | cons row rest ih =>
    refine Only.bind (ask_asks _).attempt fun r => ?_
    rcases r with exc | _ | bytes
    · exact ih _
    · exact ih _
    · exact ih _

theorem checkSizes_asks (rows : List Row) : (checkSizes rows).Only Op.Asks := by
  refine Only.ite (fun _ => only_ret) fun _ => ?_
  rw [map_eq_bind]
  exact Only.bind (estimateSizes_asks _ _) fun _ => only_ret

/-! ### The check -/

/-- **A check only asks.** -/
theorem readinessCheck_asks : (readinessCheck mt plan cutoff).Only Op.Asks := by
  refine Only.bind (only_perform.mpr trivial) fun checkedAt => ?_
  refine Only.bind checkPlan_asks fun found => ?_
  refine Only.bind checkPbs_asks fun pbsItem => ?_
  refine Only.bind checkPve_asks fun connected => ?_
  refine Only.bind ?_ fun placed => Only.bind (checkSizes_asks _) fun sizes => only_ret
  obtain ⟨found, groups, planItems⟩ := found
  obtain ⟨session, pveItems⟩ := connected
  cases found with
  | none => exact only_ret
  | some location =>
    cases session with
    | false => exact only_ret
    | true => exact checkPlacement_asks _

/-- Nothing is waited for without end. -/
theorem Op.Asks.ne_park {o : Op} (ho : o.Asks) : o ≠ .park := by
  rintro rfl
  exact ho

/-! ### The plans that are due -/

/-- What a filter keeps is what it was given. -/
private theorem mem_of_filterAuxM {p : Plan → Except Exn Bool} {plans acc kept : List Plan}
    (h : plans.filterAuxM p acc = .ok kept) : ∀ plan ∈ kept, plan ∈ plans ∨ plan ∈ acc := by
  induction plans generalizing acc with
  | nil =>
    obtain rfl : acc = kept := Except.ok.inj h
    exact fun plan hplan => .inr hplan
  | cons q rest ih =>
    rw [List.filterAuxM] at h
    cases hq : p q with
    | error e => rw [hq] at h; cases h
    | ok isKept =>
      rw [hq] at h
      intro plan hplan
      rcases ih h plan hplan with hrest | hacc
      · exact .inl (List.mem_cons_of_mem _ hrest)
      · cases isKept with
        | false => exact .inr hacc
        | true =>
          rcases List.mem_cons.mp hacc with rfl | hacc
          · exact .inl List.mem_cons_self
          · exact .inr hacc

/-- The plans that are due are among those that were listed. -/
theorem mem_plansDueForCheck {plans due : List Plan} {intervalSec : ℤ} {now : Instant}
    (h : plansDueForCheck plans intervalSec now = .ok due) : ∀ plan ∈ due, plan ∈ plans := by
  rw [plansDueForCheck, List.filterM] at h
  cases hkept : plans.filterAuxM (fun plan => plan.dueForCheck intervalSec now) [] with
  | error e => rw [hkept] at h; cases h
  | ok kept =>
    rw [hkept] at h
    obtain rfl : kept.reverse = due := Except.ok.inj h
    intro plan hplan
    rcases mem_of_filterAuxM hkept plan (List.mem_reverse.mp hplan) with hmem | hnil
    · exact hmem
    · exact (List.not_mem_nil hnil).elim

end RestoreEngine
