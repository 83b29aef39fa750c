import RestoreEngine.Members.Tags
import RestoreEngine.Runs.Underway

/-!
# The three ways to resolve a plan agree

A readiness check, a request to run the plan, and a scheduled start each pick the candidates, read
the tags and resolve the groups on their own. They obtain the same rows (`resolutions_agree`). So
the member count of a check is the number of jobs that a run with these rows comes to, unless it
ends before it has come through its groups.
-/

namespace RestoreEngine

open Effects Prog Program

variable {cfg : Config} {mt : Matching} {w w' : World} {plan : Plan} {groups : List Group}
  {backups : List Row} {cutoff : String} {tagOf : String → List String} {location : Location}

/-- The cluster answers, and opens a session. -/
structure World.Reached (w : World) : Prop where
  answers : ∀ a, ∃ text, w.answers .pve a = .ok (true, text)
  session : ∀ a, w.answers .session a = .ok true

private theorem checkPbs_quiet :
    Satisfies environment.machine (fun out w' => (∃ item, out = .ok item) ∧ w' = w) w checkPbs := by
  rw [checkPbs, satisfies_bind]
  refine (satisfies_tried .pbs).mono ?_
  rintro out w' ⟨⟨x, rfl⟩, rfl⟩
  rw [then_ok]
  rcases x with e | ⟨ok, results⟩
  · exact satisfies_ret.mpr ⟨⟨_, rfl⟩, rfl⟩
  · cases ok <;> exact satisfies_ret.mpr ⟨⟨_, rfl⟩, rfl⟩

private theorem checkPve_spec (hw : w.Reached) :
    Satisfies environment.machine (fun out w' => (∃ items, out = .ok (true, items)) ∧ w' = w) w
      checkPve := by
  rw [checkPve, satisfies_bind]
  have hpve : Satisfies environment.machine
      (fun out w' => (∃ text, out = .ok (.ok (true, text))) ∧ w' = w) w (ask .pve).attempt := by
    rw [ask, satisfies_attempt, satisfies_bind]
    refine (satisfies_issue_iff (.probe .pve)).mpr fun a r w' ha => ?_
    obtain ⟨text, htext⟩ := hw.answers a
    simp only [environment, htext, Option.some.injEq, Prod.mk.injEq] at ha
    obtain ⟨rfl, rfl⟩ := ha
    rw [then_ok, satisfies_ofExcept]
    exact ⟨⟨text, rfl⟩, rfl⟩
  refine hpve.mono ?_
  rintro out w' ⟨⟨text, rfl⟩, rfl⟩
  rw [then_ok]
  dsimp only
  rw [satisfies_bind, satisfies_tried_answer hw.session, then_ok]
  exact satisfies_ret.mpr ⟨⟨_, rfl⟩, rfl⟩

private theorem checkPlan_spec (hgroups : w.HasGroups plan.groupIds groups)
    (hlocation : w.location plan.locationId = some location) :
    Satisfies environment.machine
      (fun out w' => (∃ items, out = .ok (some location, groups, items)) ∧ w' = w) w
      (checkPlan plan) := by
  rw [checkPlan, satisfies_bind, satisfies_getLocation, hlocation, then_ok, satisfies_bind]
  refine (checkGroups_spec hgroups).mono ?_
  rintro out w' ⟨rfl, rfl⟩
  rw [then_ok]
  exact satisfies_ret.mpr ⟨⟨_, rfl⟩, rfl⟩

/-- **The member count of a check** is the number of the rows that it resolves. -/
private theorem readinessCheck_members (hshows : w.Shows backups tagOf) (hvmids : HaveVmids backups)
    (hgroups : w.HasGroups plan.groupIds groups) (hcutoff : normalizeCutoff cutoff = cutoff)
    (hlocation : w.location plan.locationId = some location) (hnode : location.NamesNode)
    (hw : w.Reached) :
    Satisfies environment.machine (fun out _ => ∀ check, out = .ok check → check.memberCount =
      (resolvedRows mt groups backups cutoff
        (neededTags groups tagOf backups cutoff)).flatten.length) w
      (readinessCheck mt plan cutoff) := by
  rw [readinessCheck, satisfies_bind, satisfies_utcNow]
  intro n
  rw [then_ok, satisfies_bind]
  have hshows' : World.Shows { w with clock := w.clock + n } backups tagOf :=
    ⟨hshows.backups, hshows.tags⟩
  have hw' : World.Reached { w with clock := w.clock + n } := ⟨hw.answers, hw.session⟩
  have hgroups' : World.HasGroups { w with clock := w.clock + n } plan.groupIds groups := hgroups
  have hlocation' : World.location { w with clock := w.clock + n } plan.locationId =
      some location := hlocation
  generalize ({ w with clock := w.clock + n } : World) = v at hshows' hw' hgroups' hlocation'
  refine (checkPlan_spec hgroups' hlocation').mono ?_
  rintro out v' ⟨⟨planItems, rfl⟩, rfl⟩
  rw [then_ok]
  dsimp only
  rw [satisfies_bind]
  refine checkPbs_quiet.mono ?_
  rintro out v' ⟨⟨pbsItem, rfl⟩, rfl⟩
  rw [then_ok, satisfies_bind]
  refine (checkPve_spec hw').mono ?_
  rintro out v' ⟨⟨pveItems, rfl⟩, rfl⟩
  rw [then_ok]
  dsimp only
  rw [hcutoff, checkPlaced, satisfies_bind]
  refine (checkPlacement_spec hshows' hvmids hnode).mono ?_
  rintro out v' ⟨placementItems, rfl⟩
  rw [then_ok]
  dsimp only
  rw [satisfies_bind]
  refine (satisfies_of_permits fun _ _ => trivial).mono fun out v'' _ => ?_
  cases out with
  | error e => exact then_error.mpr fun check h => by cases h
  | ok sizes =>
    refine then_ok.mpr (satisfies_ret.mpr fun check h => ?_)
    obtain rfl := Except.ok.inj h
    rfl

/-- The check that `run_plan_readiness` returns is the one that it makes. -/
private theorem runPlanReadiness_members {persist : Bool} {saved : Plan} {check : Check} {m : ℕ}
    (hcheck : Satisfies environment.machine
      (fun out _ => ∀ check, out = .ok check → check.memberCount = m) w
      (readinessCheck mt plan cutoff))
    (h : Ends environment (runPlanReadiness cfg mt plan cutoff persist) w (.ok (saved, check)) w') :
    check.memberCount = m := by
  rw [runPlanReadiness] at h
  rcases ends_bind.mp h with ⟨made, w₁, hmade, h⟩ | ⟨e, he, -⟩
  swap
  · cases he
  have hmembers := hmade.post hcheck made rfl
  split_ifs at h
  · rcases ends_bind.mp h with ⟨stored, w₂, -, h⟩ | ⟨e, he, -⟩
    · cases h
      exact hmembers
    · cases he
  · cases h
    exact hmembers

/-- **The resolutions agree.** A request, a check and a scheduled start obtain the same rows for the
groups of a plan; a check counts them, and a run with these rows makes as many jobs for each group
as it has rows, and as many in all if it completes. -/
theorem resolutions_agree (cfg : Config) (mt : Matching) (plan : Plan)
    (hshows : w.Shows backups tagOf) (hvmids : HaveVmids backups)
    (hgroups : w.HasGroups plan.groupIds groups) (hcutoff : normalizeCutoff cutoff = cutoff) :
    ∃ groupRows,
      (∀ resolver : RowResolver, resolver.HasNode → ∀ out w',
        Ends environment (resolver.program mt plan.groupIds cutoff) w out w' →
          out = .ok groupRows) ∧
      (∀ location, w.location plan.locationId = some location → location.NamesNode → w.Reached →
        ∀ persist saved check w',
          Ends environment (runPlanReadiness cfg mt plan cutoff persist) w (.ok (saved, check)) w' →
            check.memberCount = groupRows.flatten.length) ∧
      ∀ A Between (c : Commission) R v run, c.groupRows = groupRows →
        Underway cfg A Between c R v → v.run R = some run → run.status = .RUNNING →
          (∀ k, run.jobsAt k ≠ [] → (run.jobsAt k).length = (groupRows.getD k []).length) ∧
          ∀ out v' run', Ends (environment.restrict A) (advanceRun cfg enqueueRestores R) v out v' →
            v'.run R = some run' → run'.status = .COMPLETED →
              run'.jobIdsByGroup.flatten.length = groupRows.flatten.length := by
  refine ⟨resolvedRows mt groups backups cutoff (neededTags groups tagOf backups cutoff),
    fun resolver hnode => ?_, fun location hlocation hnode hw persist saved check w' h => ?_, ?_⟩
  · exact satisfies_iff_ends.mp (program_spec hshows hvmids hgroups hnode)
  · exact runPlanReadiness_members
      (readinessCheck_members hshows hvmids hgroups hcutoff hlocation hnode hw) h
  · intro A Between c R v run hrows hunderway hrun hstatus
    rw [← hrows]
    refine ⟨(hunderway.stands run hrun hstatus).counts, fun out v' run' htick hrun' hdone => ?_⟩
    exact hunderway.completes hrun hstatus htick hrun' hdone

/-! ### A plan with a tag -/

/-- One guest on two sources, with the same time. -/
private def replicas : List Row :=
  [{ backupId := "a|vm/109/1", vmid := some 109, timestamp := "2026-08-06T10:00:00Z"
     pveStorage := "pbs-a", voltail := "vm/109/1", sourceId := "a" },
   { backupId := "b|vm/109/1", vmid := some 109, timestamp := "2026-08-06T10:00:00Z"
     pveStorage := "pbs-b", voltail := "vm/109/1", sourceId := "b" }]

/-- A group of all guests with a tag. -/
private def productionGroup : Group := { id := 2, name := "g1", tags := ["prod"] }

/-- A plan of the group. -/
private def productionPlan : Plan := { id := 1, groupIds := [2], locationId := 5 }

/-- A world with the group, whose backups all have the tag. -/
private def productionWorld : World where
  groups := (∅ : AList fun _ : Uuid => Group).insert 2 productionGroup
  answers
    | .backups, _ => .ok replicas
    | .tags rows _, _ => .ok (tagsOf (fun _ => ["prod"]) rows, [])
    | _, _ => .error (.api "no answer")

/-- Two sources with the same backup: all take the first. -/
theorem resolutions_agree_replicas :
    ∃ groupRows, ∀ resolver : RowResolver, resolver.HasNode → ∀ out w',
      Ends environment (resolver.program .unused [2] "2026-08-08T00:00:00Z") productionWorld out w' →
        out = .ok groupRows := by
  have hshows : productionWorld.Shows replicas fun _ => ["prod"] := ⟨fun _ => rfl, fun _ _ _ => rfl⟩
  have hgroups : productionWorld.HasGroups [2] [productionGroup] := .cons rfl .nil
  have hcutoff : normalizeCutoff "2026-08-08T00:00:00Z" = "2026-08-08T00:00:00Z" := by
    decide +kernel
  obtain ⟨groupRows, hsame, -⟩ :=
    resolutions_agree {} .unused productionPlan hshows (by decide) hgroups hcutoff
  exact ⟨groupRows, hsame⟩

end RestoreEngine
