import RestoreEngine.Compliance.Overdue
import RestoreEngine.Lists.Window

/-!
# The last run and the last drill on the dashboard

`compliance_dashboard` looks for the last run of a plan, and for its last drill, among the twenty
newest runs of the plan, of whatever kind they are. It shows the last one of a kind exactly if there
is none, or if fewer than twenty others are newer (`lastRuns_shown_iff`): twenty drills hide every
run before them.
-/

namespace RestoreEngine

open RestoreEngine.Lists

variable {cfg : Config} {w : World} {now : Instant} {dash : Compliance}

/-! ### The runs of a plan -/

/-- A run of this kind has ended: a drill, or a run that is none. -/
def PlanRun.EndedAs (drill : Bool) (run : PlanRun) : Prop := run.Finished ∧ run.drill = drill

instance (drill : Bool) (run : PlanRun) : Decidable (run.EndedAs drill) :=
  inferInstanceAs (Decidable (_ ∧ _))

namespace World

/-- The stored runs of the plan. -/
def runsOf (w : World) (planId : Uuid) : List PlanRun :=
  (listEntities w.runs).filter fun run => run.planId = planId

/-- The stored runs of the plan that have ended as this kind. -/
def endedRuns (w : World) (planId : Uuid) (drill : Bool) : List PlanRun :=
  (w.runsOf planId).filter (·.EndedAs drill)

/-- The stored runs of the plan, the newest first. -/
def newestFirst (w : World) (planId : Uuid) : List PlanRun :=
  (w.runsOf planId).mergeSort fun a b => startsNoLater b.startedAt a.startedAt

/-- The runs that are newer than all that have ended as this kind. -/
def newerRuns (w : World) (planId : Uuid) (drill : Bool) : List PlanRun :=
  (w.newestFirst planId).takeWhile fun run => ¬ run.EndedAs drill

/-- **The run is the last one of its kind** that is stored for the plan: no other one of them
started later. It is absent only if there is none. -/
def IsLastRun (w : World) (planId : Uuid) (drill : Bool) (run : Option PlanRun) : Prop :=
  IsLast (fun a b : PlanRun => startsNoLater a.startedAt b.startedAt) (w.endedRuns planId drill) run

end World

/-! ### The loop over the runs -/

/-- **What the loop finds**: the first run of each kind. -/
theorem lastRuns_eq (last : LastRuns) (runs : List PlanRun) :
    lastRuns last runs =
      { any := last.any <|> runs.find? (·.Finished)
        prod := last.prod <|> runs.find? (·.EndedAs false)
        drill := last.drill <|> runs.find? (·.EndedAs true) } := by
  induction runs generalizing last with
  | nil => simp [lastRuns]
  | cons run runs ih =>
    rw [lastRuns]
    obtain ⟨any, prod, drill⟩ := last
    by_cases hfinished : run.Finished
    · -- the run counts for its kind, unless one of this kind was found before
      cases hdrill : run.drill <;> cases any <;> cases prod <;> cases drill <;>
        simp [ih, hfinished, hdrill, PlanRun.EndedAs]
    · simp [ih, hfinished, PlanRun.EndedAs]

theorem startsNoLater_refl (t : Option Instant) : startsNoLater t t = true := by
  cases t with
  | none => rfl
  | some t => exact decide_eq_true le_rfl

theorem startsNoLater_trans {a b c : Option Instant} (hab : startsNoLater a b = true)
    (hbc : startsNoLater b c = true) : startsNoLater a c = true := by
  rcases a with - | a
  · rfl
  rcases b with - | b
  · exact absurd hab Bool.false_ne_true
  rcases c with - | c
  · exact absurd hbc Bool.false_ne_true
  exact decide_eq_true ((of_decide_eq_true hab).trans (of_decide_eq_true hbc))

theorem startsNoLater_total (a b : Option Instant) :
    (startsNoLater a b || startsNoLater b a) = true := by
  rcases a with - | a <;> rcases b with - | b
  · rfl
  · rfl
  · rfl
  · simpa [startsNoLater] using le_total a b

/-- The runs stand in their order. -/
theorem World.newestFirst_sorted (w : World) (planId : Uuid) :
    (w.newestFirst planId).Pairwise fun a b => startsNoLater b.startedAt a.startedAt = true :=
  @List.pairwise_mergeSort PlanRun (fun a b => startsNoLater b.startedAt a.startedAt)
    (fun _ _ _ hab hbc => startsNoLater_trans hbc hab)
    (fun a b => startsNoLater_total b.startedAt a.startedAt) _

/-- **The first of the twenty newest runs** that ended as this kind is the last one exactly if there
is none, or if fewer than twenty are newer. -/
theorem World.isLastRun_find?_iff (w : World) (planId : Uuid) (drill : Bool) :
    w.IsLastRun planId drill ((w.listPlanRuns planId 20).find? (·.EndedAs drill)) ↔
      w.endedRuns planId drill = [] ∨ (w.newerRuns planId drill).length < 20 := by
  have hperm : ((w.newestFirst planId).filter (·.EndedAs drill)).Perm (w.endedRuns planId drill) :=
    (List.mergeSort_perm _ _).filter _
  have hwindow := isLast_find?_take_iff (p := fun run : PlanRun => run.EndedAs drill) (n := 20)
    (r := fun a b => startsNoLater a.startedAt b.startedAt) (fun _ => startsNoLater_refl _)
    (w.newestFirst_sorted planId)
  have hnewer : w.newerRuns planId drill =
      (w.newestFirst planId).takeWhile fun run => !decide (run.EndedAs drill) := by
    simp [World.newerRuns]
  have hnil : (w.newestFirst planId).filter (·.EndedAs drill) = [] ↔
      w.endedRuns planId drill = [] :=
    ⟨fun h => (h ▸ hperm).nil_eq.symm, fun h => (h ▸ hperm).eq_nil⟩
  rw [hnewer, ← hnil, ← hwindow]
  exact ⟨IsLast.of_perm hperm.symm, IsLast.of_perm hperm⟩

/-! ### The dashboard -/

/-- What an item shows of the runs. -/
theorem complianceItem_runs {plan : Plan} {item : ComplianceItem}
    (h : complianceItem cfg w now plan = .ok item) :
    item.lastProdRun = (w.listPlanRuns plan.id 20).find? (·.EndedAs false) ∧
      item.lastDrill = (w.listPlanRuns plan.id 20).find? (·.EndedAs true) := by
  obtain ⟨next, -, h⟩ := Effects.of_bind_ok h
  obtain rfl := Except.ok.inj h
  rw [lastRuns_eq]
  exact ⟨rfl, rfl⟩

/-- **The dashboard shows the last run of each kind** exactly if there is none, or if fewer than
twenty runs of the plan are newer. -/
theorem lastRuns_shown_iff (h : complianceDashboard cfg w now = .ok dash) :
    List.Forall₂ (fun plan item =>
      (w.IsLastRun plan.id false item.lastProdRun ↔
        w.endedRuns plan.id false = [] ∨ (w.newerRuns plan.id false).length < 20) ∧
      (w.IsLastRun plan.id true item.lastDrill ↔
        w.endedRuns plan.id true = [] ∨ (w.newerRuns plan.id true).length < 20))
      (listEntities w.plans) dash.plans := by
  have hitems := Effects.mapM_ok_iff.mp (complianceDashboard_iff.mp ⟨dash, h, rfl⟩)
  refine hitems.imp fun plan item hitem => ?_
  obtain ⟨hprod, hdrill⟩ := complianceItem_runs hitem
  rw [hprod, hdrill]
  exact ⟨w.isLastRun_find?_iff plan.id false, w.isLastRun_find?_iff plan.id true⟩

/-- Plans that are on no schedule have a dashboard. -/
theorem complianceDashboard_of_unscheduled (cfg : Config) (w : World) (now : Instant)
    (h : ∀ plan ∈ listEntities w.plans, plan.scheduleEnabled = false) :
    ∃ dash, complianceDashboard cfg w now = .ok dash := by
  have hitems : ∀ plan ∈ listEntities w.plans, ∃ item,
      complianceItem cfg w now plan = .ok item ∧ True := by
    intro plan hplan
    rw [complianceItem, nextScheduledIso_empty (.inl (h plan hplan))]
    exact ⟨_, rfl, trivial⟩
  obtain ⟨items, hmap, -⟩ := Effects.exists_mapM_forall₂_iff.mpr hitems
  obtain ⟨dash, hdash, -⟩ := complianceDashboard_iff.mpr hmap
  exact ⟨dash, hdash⟩

/-! ### Drills that hide a run -/

/-- A drill, or a run that is none, that has ended. -/
def endedRun (id : Uuid) (drill : Bool) (startedAt : Instant) : PlanRun where
  id
  planId := 0
  status := .COMPLETED
  locationId := 0
  node := ""
  nodes := []
  storage := ""
  vmidStart := 0
  drill
  groupIds := []
  jobIdsByGroup := []
  startedAt := some startedAt
  finishedAt := some (startedAt + 1)

/-- A run, and so many drills after it. -/
def runAndDrills (drills : ℕ) : List PlanRun :=
  ((List.range drills).map fun n => endedRun n true (drills - n)) ++ [endedRun drills false 0]

/-- A plan with these runs. -/
def worldOfDrills (drills : ℕ) : World where
  plans := AList.singleton 0 { id := 0, groupIds := [], locationId := 0 }
  runs := (runAndDrills drills).foldr (fun run runs => runs.insert run.id run) ∅

private theorem plans_worldOfDrills (drills : ℕ) : listEntities (worldOfDrills drills).plans =
    [{ id := 0, groupIds := [], locationId := 0 }] := by
  rw [listEntities_of_sorted (List.pairwise_singleton _ _)]
  rfl

private theorem unscheduled_worldOfDrills (drills : ℕ) :
    ∀ plan ∈ listEntities (worldOfDrills drills).plans, plan.scheduleEnabled = false := by
  rw [plans_worldOfDrills]
  intro plan hplan
  rw [List.mem_singleton.mp hplan]

private theorem runsOf_worldOfDrills : ∀ drills ∈ [19, 20],
    (worldOfDrills drills).runsOf 0 = runAndDrills drills := by
  intro drills hdrills
  rw [World.runsOf, listEntities_of_sorted (by revert drills; decide +kernel)]
  revert drills
  decide +kernel

private theorem newestFirst_worldOfDrills : ∀ drills ∈ [19, 20],
    (worldOfDrills drills).newestFirst 0 = runAndDrills drills := by
  intro drills hdrills
  rw [World.newestFirst, runsOf_worldOfDrills drills hdrills,
    List.mergeSort_of_pairwise (by revert drills; decide +kernel)]

/-- The only item of a dashboard of these runs. -/
private theorem plans_of_worldOfDrills {drills : ℕ}
    (hdash : complianceDashboard {} (worldOfDrills drills) 0 = .ok dash) :
    ∃ item, dash.plans = [item] ∧
      item.lastProdRun = ((worldOfDrills drills).listPlanRuns 0 20).find? (·.EndedAs false) ∧
      item.lastDrill = ((worldOfDrills drills).listPlanRuns 0 20).find? (·.EndedAs true) := by
  have hitems := Effects.mapM_ok_iff.mp (complianceDashboard_iff.mp ⟨dash, hdash, rfl⟩)
  rw [plans_worldOfDrills] at hitems
  obtain ⟨item, rest, hitem, hrest, hplans⟩ := List.forall₂_cons_left_iff.mp hitems
  rw [List.forall₂_nil_left_iff.mp hrest] at hplans
  exact ⟨item, hplans, complianceItem_runs hitem⟩

/-- **After nineteen drills** the run before them is still shown, and the newest of the drills. -/
theorem lastRuns_shown_nineteen : ∃ dash item,
    complianceDashboard {} (worldOfDrills 19) 0 = .ok dash ∧ dash.plans = [item] ∧
      item.lastProdRun = some (endedRun 19 false 0) ∧
      item.lastDrill = some (endedRun 0 true 19) ∧
      (worldOfDrills 19).IsLastRun 0 false item.lastProdRun ∧
      (worldOfDrills 19).IsLastRun 0 true item.lastDrill := by
  obtain ⟨dash, hdash⟩ :=
    complianceDashboard_of_unscheduled {} (worldOfDrills 19) 0 (unscheduled_worldOfDrills 19)
  obtain ⟨item, hplans, hprod, hdrill⟩ := plans_of_worldOfDrills hdash
  have hnewest := newestFirst_worldOfDrills 19 (by decide)
  have hlisted : (worldOfDrills 19).listPlanRuns 0 20 = runAndDrills 19 := by
    change ((worldOfDrills 19).newestFirst 0).take 20 = _
    rw [hnewest]
    exact List.take_of_length_le (by decide)
  have hshown := lastRuns_shown_iff hdash
  rw [plans_worldOfDrills, hplans] at hshown
  obtain ⟨⟨hlastProd, hlastDrill⟩, -⟩ := List.forall₂_cons.mp hshown
  rw [hlisted] at hprod hdrill
  refine ⟨dash, item, hdash, hplans, hprod.trans (by decide), hdrill.trans (by decide),
    hlastProd.mpr (.inr ?_), hlastDrill.mpr (.inr ?_)⟩
  · rw [World.newerRuns, hnewest]
    decide
  · rw [World.newerRuns, hnewest]
    decide

/-- **Twenty drills hide the run before them.** -/
theorem lastRuns_hidden :
    (∃ dash, complianceDashboard {} (worldOfDrills 20) 0 = .ok dash ∧
      dash.plans.map (·.lastProdRun) = [none]) ∧
    (worldOfDrills 20).endedRuns 0 false = [endedRun 20 false 0] ∧
    ¬ (worldOfDrills 20).IsLastRun 0 false none := by
  have hended : (worldOfDrills 20).endedRuns 0 false = [endedRun 20 false 0] := by
    rw [World.endedRuns, runsOf_worldOfDrills 20 (by decide)]
    decide +kernel
  refine ⟨?_, hended, ?_⟩
  · obtain ⟨dash, hdash⟩ :=
      complianceDashboard_of_unscheduled {} (worldOfDrills 20) 0 (unscheduled_worldOfDrills 20)
    refine ⟨dash, hdash, ?_⟩
    obtain ⟨item, hplans, hprod, -⟩ := plans_of_worldOfDrills hdash
    -- the window is full of drills
    have hlisted : (worldOfDrills 20).listPlanRuns 0 20 = (runAndDrills 20).take 20 := by
      change ((worldOfDrills 20).newestFirst 0).take 20 = _
      rw [newestFirst_worldOfDrills 20 (by decide)]
    have hnone : item.lastProdRun = none := by
      rw [hprod, hlisted]
      decide +kernel
    rw [hplans, List.map_singleton, hnone]
  · rw [World.IsLastRun, hended]
    exact List.cons_ne_nil _ _

end RestoreEngine
