import RestoreEngine.Plans.Footprint
import RestoreEngine.Runs.Finalize

/-!
# Verified plans

A plan is VERIFIED by a readiness check, and a run needs a VERIFIED plan if the configuration says
so. What was checked are the groups and the location of the plan. Changing which groups or which
location these are takes the verification away; changing a group or a location does not.
`verified_unchanged` says that nothing else comes between a check and what it has checked.

The operations of the engine on plans are `Deed`s, which are done one after the other.
-/

namespace RestoreEngine

open Effects Prog Program

variable {cfg : Config} {mt : Matching} {w w' : World}

/-! ### Deeds -/

/-- What is done to plans, groups and locations. -/
inductive Deed
  | createPlan (payload : PlanPayload)
  | updatePlan (planId : Uuid) (payload : PlanPayload)
  | deletePlan (planId : Uuid)
  | createGroup (payload : GroupPayload)
  | updateGroup (groupId : Uuid) (payload : GroupPayload)
  | deleteGroup (groupId : Uuid)
  | createLocation (payload : LocationPayload)
  | updateLocation (locationId : Uuid) (payload : LocationPayload)
  | deleteLocation (locationId : Uuid)
  /-- A readiness check by request, and the one of a worker. -/
  | check (planId : Uuid) (atOrBefore : String)
  | readinessTick
  /-- The runs of plans: started by request or on a schedule, advanced, ended. -/
  | run (planId : Uuid) (body : PlanRunRequest)
  | assure (planId : Uuid) (body : PlanAssureRequest)
  | scheduleTick
  | advance
  | cancel (runId : Uuid)
  | teardown (target : PlanRun)

/-- The program of a deed. The result lists the plans that it checked, with the results. -/
def Deed.program (cfg : Config) (mt : Matching) : Deed → Prog (List (Uuid × Bool))
  | createPlan payload => (fun _ => []) <$> RestoreEngine.createPlan payload
  | updatePlan planId payload => (fun _ => []) <$> RestoreEngine.updatePlan planId payload
  | deletePlan planId => (fun _ => []) <$> RestoreEngine.deletePlan planId
  | createGroup payload => (fun _ => []) <$> RestoreEngine.createGroup mt payload
  | updateGroup groupId payload => (fun _ => []) <$> RestoreEngine.updateGroup mt groupId payload
  | deleteGroup groupId => (fun _ => []) <$> RestoreEngine.deleteGroup groupId
  | createLocation payload => (fun _ => []) <$> RestoreEngine.createLocation payload
  | updateLocation locationId payload =>
    (fun _ => []) <$> RestoreEngine.updateLocation locationId payload
  | deleteLocation locationId => (fun _ => []) <$> RestoreEngine.deleteLocation locationId
  | check planId atOrBefore =>
    (fun result => [(planId, result.2.ok)]) <$> apiCheckPlan cfg mt planId atOrBefore
  | readinessTick => RestoreEngine.readinessTick cfg mt
  | run planId body => (fun _ => []) <$> apiRunPlan cfg (readers mt) planId body
  | assure planId body => (fun _ => []) <$> apiAssurePlan cfg (readers mt) planId body
  | scheduleTick => (fun _ => []) <$> tickScheduledPlanRuns (readers mt)
  | advance => (fun _ => []) <$> advancePlanRuns cfg enqueueRestores
  | cancel runId => (fun _ => []) <$> cancelPlanRun cfg runId
  | teardown target => (fun _ => []) <$> teardownPlanRun target

/-- A deed that was done: the worlds before and after it, and the checks it made. -/
structure Done where
  before : World
  after : World
  checks : List (Uuid × Bool)

/-- `Deeds cfg mt Admits w₀ done w`: deeds that `Admits` admits lead from `w₀` to `w`. What was
done is listed from the last deed on. A deed may end with an exception. -/
inductive Deeds (cfg : Config) (mt : Matching) (Admits : World → Deed → Prop) (w₀ : World) :
    List Done → World → Prop
  | start : Deeds cfg mt Admits w₀ [] w₀
  | step {done : List Done} {w w' : World} {deed : Deed}
      {out : Except Exn (List (Uuid × Bool))} (hdone : Deeds cfg mt Admits w₀ done w)
      (hadmits : Admits w deed) (hends : Ends environment (deed.program cfg mt) w out w') :
      Deeds cfg mt Admits w₀ (⟨w, w', out.toOption.getD []⟩ :: done) w'

/-! ### What was checked -/

/-- The plan is there before and after, and its groups and its location are the same, and are
defined in the same way. -/
def KeepsDefinition (w w' : World) (planId : Uuid) : Prop :=
  ∃ plan plan', w.plan planId = some plan ∧ w'.plan planId = some plan' ∧
    plan'.groupIds = plan.groupIds ∧ plan'.locationId = plan.locationId ∧
      (∀ id ∈ plan.groupIds, w'.group id = w.group id) ∧
        w'.location plan.locationId = w.location plan.locationId

/-- Since the last successful check of the plan, which there is, every deed has kept what was
checked. -/
def UnchangedSinceCheck (planId : Uuid) : List Done → Prop
  | [] => False
  | d :: earlier => (planId, true) ∈ d.checks ∨
      KeepsDefinition d.before d.after planId ∧ UnchangedSinceCheck planId earlier

/-- A VERIFIED plan that has the group. -/
def World.VerifiesGroup (w : World) (groupId : Uuid) : Prop :=
  ∃ planId plan, w.plan planId = some plan ∧ plan.verification = .VERIFIED ∧
    groupId ∈ plan.groupIds

/-- A VERIFIED plan that has the location. -/
def World.VerifiesLocation (w : World) (locationId : Uuid) : Prop :=
  ∃ planId plan, w.plan planId = some plan ∧ plan.verification = .VERIFIED ∧
    plan.locationId = locationId

/-- **A harmless deed** does not change or delete a group or a location of a VERIFIED plan, and
does not itself call a plan VERIFIED, unless the plan is and keeps its groups and its location. -/
def Harmless (mt : Matching) (w : World) : Deed → Prop
  | .updateGroup id payload => w.VerifiesGroup id → ∀ group data, w.group id = some group →
      normalizeGroup mt (payload.over group) = .ok data → data id = group
  | .deleteGroup id => ¬ w.VerifiesGroup id
  | .updateLocation id payload => w.VerifiesLocation id → ∀ location data,
      w.location id = some location →
      normalizeLocation (payload.over location) = .ok data → data id = location
  | .deleteLocation id => ¬ w.VerifiesLocation id
  | .createPlan payload => ∀ plan, payload.over (blankPlan 0) none = .ok plan →
      plan.verification ≠ .VERIFIED
  | .updatePlan id payload => ∀ plan plan', w.plan id = some plan →
      payload.updated plan = .ok plan' → plan'.verification = .VERIFIED →
        plan.verification = .VERIFIED ∧ plan'.groupIds = plan.groupIds ∧
          plan'.locationId = plan.locationId
  | _ => True

/-! ### The invariant -/

/-- The groups and the location of the plan are there. -/
def World.Holds (w : World) (plan : Plan) : Prop :=
  (∀ id ∈ plan.groupIds, w.group id ≠ none) ∧ w.location plan.locationId ≠ none

/-- Plans are stored under their own ids, and the ids of groups and locations are not fresh. -/
structure World.Registered (w : World) : Prop where
  plans : ∀ id plan, w.plan id = some plan → plan.id = id
  groups : ∀ id, w.group id ≠ none → id < w.nextUuid
  locations : ∀ id, w.location id ≠ none → id < w.nextUuid

/-- **The invariant.** -/
structure Vouched (done : List Done) (w : World) : Prop where
  registered : w.Registered
  verified : ∀ id plan, w.plan id = some plan → plan.verification = .VERIFIED →
    UnchangedSinceCheck id done ∧ w.Holds plan

/-- What a deed may do: a VERIFIED plan has just been checked, or was VERIFIED before and is
defined as before. -/
structure Effect (w w' : World) (checks : List (Uuid × Bool)) : Prop where
  registered : w'.Registered
  verified : ∀ id plan', w'.plan id = some plan' → plan'.verification = .VERIFIED →
    (id, true) ∈ checks ∧ w'.Holds plan' ∨
      KeepsDefinition w w' id ∧ ∀ plan, w.plan id = some plan → plan.verification = .VERIFIED

/-- **The step lemma.** -/
private theorem Vouched.step {done : List Done} {checks : List (Uuid × Bool)}
    (hv : Vouched done w) (heffect : Effect w w' checks) :
    Vouched (⟨w, w', checks⟩ :: done) w' := by
  refine ⟨heffect.registered, fun id plan' hplan' hverified => ?_⟩
  rcases heffect.verified id plan' hplan' hverified with ⟨hcheck, hholds⟩ | ⟨hkeeps, hold⟩
  · exact ⟨.inl hcheck, hholds⟩
  · have hkept := hkeeps
    obtain ⟨plan, stored, hplan, hstored, hgroups, hlocation, hsame, hsameLocation⟩ := hkeeps
    obtain rfl := Option.some.inj (hplan'.symm.trans hstored)
    obtain ⟨hunchanged, hholds⟩ := hv.verified id plan hplan (hold plan hplan)
    refine ⟨.inr ⟨hkept, hunchanged⟩, fun g hg => ?_, ?_⟩
    · rw [hgroups] at hg
      rw [hsame g hg]
      exact hholds.1 g hg
    · rw [hlocation, hsameLocation]
      exact hholds.2

/-! ### Deeds that leave plans as they are -/

/-- What is not touched is defined as before. -/
private theorem keepsDefinition_of_same {id : Uuid} {plan : Plan} (hplan : w.plan id = some plan)
    (hsame : w'.plan id = w.plan id) (hgroups : ∀ g ∈ plan.groupIds, w'.group g = w.group g)
    (hlocation : w'.location plan.locationId = w.location plan.locationId) :
    KeepsDefinition w w' id :=
  ⟨plan, plan, hplan, hsame.trans hplan, rfl, rfl, hgroups, hlocation⟩

/-- A deed on groups or locations, which leaves those of VERIFIED plans as they are. -/
private theorem Effect.of_samePlans {checks : List (Uuid × Bool)} (hregistered : w'.Registered)
    (hplans : ∀ id, w'.plan id = w.plan id)
    (hgroups : ∀ g, w.VerifiesGroup g → w'.group g = w.group g)
    (hlocations : ∀ l, w.VerifiesLocation l → w'.location l = w.location l) :
    Effect w w' checks := by
  refine ⟨hregistered, fun id plan hplan hverified => .inr ?_⟩
  rw [hplans] at hplan
  refine ⟨keepsDefinition_of_same hplan (hplans id)
    (fun g hg => hgroups g ⟨id, plan, hplan, hverified, hg⟩)
    (hlocations _ ⟨id, plan, hplan, hverified, rfl⟩), fun stored hstored => ?_⟩
  obtain rfl := Option.some.inj (hplan.symm.trans hstored)
  exact hverified

private theorem Effect.refl {checks : List (Uuid × Bool)} (h : w.Registered) :
    Effect w w checks :=
  .of_samePlans h (fun _ => rfl) (fun _ _ => rfl) fun _ _ => rfl

/-- What the engine makes of plans in the course of runs. -/
private theorem effect_of_keepsPlans {α : Type} {p : Prog α} {f : α → List (Uuid × Bool)}
    (h : w.Registered)
    (hp : KeepsPlans (fun q => ∃ plan, w.plan q.id = some plan ∧ plan.Follows q) p) :
    Satisfies environment.machine (fun out w' => Effect w w' (out.toOption.getD [])) w
      (f <$> p) := by
  rw [map_eq_bind, satisfies_bind]
  have hw : ∀ id plan, w.plan id = some plan →
      plan.id = id ∧ ∃ p, w.plan plan.id = some p ∧ p.Follows plan := by
    intro id plan hplan
    obtain rfl := h.plans id plan hplan
    exact ⟨rfl, plan, hplan, rfl, rfl, rfl, fun hv => hv⟩
  have heffect : ∀ w', w.PlansKept (fun q => ∃ plan, w.plan q.id = some plan ∧ plan.Follows q) w' →
      ∀ checks, Effect w w' checks := by
    intro w' hkept checks
    have hgroup : ∀ g, w'.group g = w.group g := fun g => by
      rw [World.group, hkept.groups, World.group]
    have hlocation : ∀ l, w'.location l = w.location l := fun l => by
      rw [World.location, hkept.locations, World.location]
    refine ⟨⟨fun id plan hplan => (hkept.plans id plan hplan).1, fun id hid => ?_, fun id hid => ?_⟩,
      fun id plan' hplan' hverified => .inr ?_⟩
    · exact (h.groups id (hgroup id ▸ hid)).trans_le hkept.nextUuid
    · exact (h.locations id (hlocation id ▸ hid)).trans_le hkept.nextUuid
    · obtain ⟨rfl, plan, hplan, hfollows⟩ := hkept.plans id plan' hplan'
      refine ⟨⟨plan, plan', hplan, hplan', hfollows.groupIds, hfollows.locationId,
        fun g _ => hgroup g, hlocation _⟩, fun stored hstored => ?_⟩
      obtain rfl := Option.some.inj (hplan.symm.trans hstored)
      exact hfollows.verification hverified
  refine (hp.effect hw).mono fun out w' ⟨_, hkept⟩ => ?_
  cases out with
  | ok a => exact then_ok.mpr (satisfies_ret.mpr (heffect w' hkept _))
  | error e => exact then_error.mpr (heffect w' hkept _)

/-- What a run makes of a plan that a run made of a plan. -/
private theorem follows_closed :
    ClosedUnderRuns fun q => ∃ plan, w.plan q.id = some plan ∧ plan.Follows q := by
  rintro p q ⟨plan, hplan, hp⟩ hq
  refine ⟨plan, hq.id ▸ hplan, hq.id.trans hp.id, hq.groupIds.trans hp.groupIds,
    hq.locationId.trans hp.locationId, fun hv => hp.verification (hq.verification hv)⟩

/-! ### Groups and locations -/

section Edits

variable {done : List Done} {α : Type}

/-- A deed without checks. -/
private theorem effect_map {p : Prog α}
    (hp : Satisfies environment.machine (fun _ w' => Effect w w' []) w p) :
    Satisfies environment.machine (fun out w' => Effect w w' (out.toOption.getD [])) w
      ((fun _ => []) <$> p) := by
  rw [map_eq_bind, satisfies_bind]
  refine hp.mono fun out w' heffect => ?_
  cases out with
  | ok a => exact then_ok.mpr (satisfies_ret.mpr heffect)
  | error e => exact then_error.mpr heffect

private theorem Vouched.group_lt (hv : Vouched done w) {g : Uuid} (hg : w.VerifiesGroup g) :
    g < w.nextUuid := by
  obtain ⟨id, plan, hplan, hverified, hmem⟩ := hg
  exact hv.registered.groups g ((hv.verified id plan hplan hverified).2.1 g hmem)

private theorem Vouched.location_lt (hv : Vouched done w) {l : Uuid}
    (hl : w.VerifiesLocation l) : l < w.nextUuid := by
  obtain ⟨id, plan, hplan, hverified, rfl⟩ := hl
  exact hv.registered.locations _ (hv.verified id plan hplan hverified).2.2

/-- The storing of a group that no VERIFIED plan has, or that is as it was. -/
private theorem setGroup_effect (hv : Vouched done w) {group : Group} {fresh : Uuid}
    (hfresh : w.nextUuid ≤ fresh) (hid : group.id < fresh)
    (hsame : w.VerifiesGroup group.id → w.group group.id = some group) :
    Effect w { w with groups := w.groups.insert group.id group, nextUuid := fresh } [] := by
  have hgroup : ∀ g, g ≠ group.id → (w.groups.insert group.id group).lookup g = w.group g :=
    fun g hg => AList.lookup_insert_ne hg
  refine .of_samePlans ⟨hv.registered.plans, fun g hg => ?_, fun l hl => ?_⟩ (fun _ => rfl)
    (fun g hg => ?_) fun _ _ => rfl
  · by_cases hg' : g = group.id
    · exact hg' ▸ hid
    · exact (hv.registered.groups g (hgroup g hg' ▸ hg)).trans_le hfresh
  · exact (hv.registered.locations l hl).trans_le hfresh
  · by_cases hg' : g = group.id
    · subst hg'
      exact (AList.lookup_insert w.groups).trans (hsame hg).symm
    · exact hgroup g hg'

/-- The storing of a location that no VERIFIED plan has, or that is as it was. -/
private theorem setLocation_effect (hv : Vouched done w) {location : Location} {fresh : Uuid}
    (hfresh : w.nextUuid ≤ fresh) (hid : location.id < fresh)
    (hsame : w.VerifiesLocation location.id → w.location location.id = some location) :
    Effect w { w with
      locations := w.locations.insert location.id location, nextUuid := fresh } [] := by
  have hlocation : ∀ l, l ≠ location.id →
      (w.locations.insert location.id location).lookup l = w.location l :=
    fun l hl => AList.lookup_insert_ne hl
  refine .of_samePlans ⟨hv.registered.plans, fun g hg => ?_, fun l hl => ?_⟩ (fun _ => rfl)
    (fun _ _ => rfl) fun l hl => ?_
  · exact (hv.registered.groups g hg).trans_le hfresh
  · by_cases hl' : l = location.id
    · exact hl' ▸ hid
    · exact (hv.registered.locations l (hlocation l hl' ▸ hl)).trans_le hfresh
  · by_cases hl' : l = location.id
    · subst hl'
      exact (AList.lookup_insert w.locations).trans (hsame hl).symm
    · exact hlocation l hl'

/-- A normalized group gets the id that it is given. -/
private theorem normalizeGroup_id {payload : GroupPayload} {data : Uuid → Group}
    (h : normalizeGroup mt payload = .ok data) (id : Uuid) : (data id).id = id := by
  have h := (of_ite_ok h).2
  obtain ⟨namePatterns, -, h⟩ := of_bind_ok h
  obtain ⟨vmidRanges, -, h⟩ := of_bind_ok h
  obtain ⟨excludeNamePatterns, -, h⟩ := of_bind_ok h
  have h := (of_ite_ok h).2
  exact Except.ok.inj h ▸ rfl

private theorem normalizeLocation_id {payload : LocationPayload} {data : Uuid → Location}
    (h : normalizeLocation payload = .ok data) (id : Uuid) : (data id).id = id := by
  have h := (of_ite_ok h).2
  obtain ⟨nodes, -, h⟩ := of_bind_ok h
  obtain ⟨-, -, h⟩ := of_bind_ok h
  obtain ⟨-, -, h⟩ := of_bind_ok h
  have h := (of_ite_ok (of_ite_ok h).2).2
  exact Except.ok.inj h ▸ rfl

private theorem createGroup_effect (hv : Vouched done w) (payload : GroupPayload) :
    Satisfies environment.machine (fun _ w' => Effect w w' []) w
      (createGroup mt payload) := by
  rw [createGroup, satisfies_bind, satisfies_ofExcept]
  cases hdata : normalizeGroup mt payload with
  | error e => exact then_error.mpr (.refl hv.registered)
  | ok data =>
    rw [then_ok, satisfies_bind, satisfies_uuid4, then_ok, satisfies_bind, satisfies_setGroup,
      then_ok]
    refine satisfies_ret.mpr (setGroup_effect hv (Nat.le_succ _) ?_ fun hg => ?_)
    · rw [normalizeGroup_id hdata]
      exact Nat.lt_succ_self _
    · have hlt := hv.group_lt hg
      rw [normalizeGroup_id hdata] at hlt
      exact absurd hlt (lt_irrefl _)

private theorem updateGroup_effect (hv : Vouched done w) {groupId : Uuid}
    {payload : GroupPayload} (hharmless : Harmless mt w (.updateGroup groupId payload)) :
    Satisfies environment.machine (fun _ w' => Effect w w' []) w
      (updateGroup mt groupId payload) := by
  rw [updateGroup, satisfies_bind, satisfies_getGroup, then_ok]
  cases hgroup : w.group groupId with
  | none => exact satisfies_raise.mpr (.refl hv.registered)
  | some group =>
    dsimp only
    rw [satisfies_bind, satisfies_ofExcept]
    cases hdata : normalizeGroup mt (payload.over group) with
    | error e => exact then_error.mpr (.refl hv.registered)
    | ok data =>
      rw [then_ok, satisfies_bind, satisfies_setGroup, then_ok]
      have hid : (data groupId).id = groupId := normalizeGroup_id hdata groupId
      refine satisfies_ret.mpr (setGroup_effect hv (le_refl _) ?_ fun hg => ?_)
      · rw [hid]
        exact hv.registered.groups groupId (by simp [hgroup])
      · rw [hid] at hg
        rw [hid, hgroup, hharmless hg group data hgroup hdata]

private theorem deleteGroup_effect (hv : Vouched done w) {groupId : Uuid}
    (hharmless : Harmless mt w (.deleteGroup groupId)) :
    Satisfies environment.machine (fun _ w' => Effect w w' []) w (deleteGroup groupId) := by
  rw [deleteGroup, satisfies_delGroup]
  have hgroup : ∀ g, g ≠ groupId → (w.groups.erase groupId).lookup g = w.group g :=
    fun g hg => AList.lookup_erase_ne hg
  refine .of_samePlans ⟨hv.registered.plans, fun g hg => ?_, hv.registered.locations⟩
    (fun _ => rfl) (fun g hg => ?_) fun _ _ => rfl
  · by_cases hg' : g = groupId
    · subst hg'
      exact absurd (AList.lookup_erase g w.groups) hg
    · exact hv.registered.groups g (hgroup g hg' ▸ hg)
  · exact hgroup g fun hg' => hharmless (hg' ▸ hg)

private theorem createLocation_effect (hv : Vouched done w) (payload : LocationPayload) :
    Satisfies environment.machine (fun _ w' => Effect w w' []) w (createLocation payload) := by
  rw [createLocation, satisfies_bind, satisfies_ofExcept]
  cases hdata : normalizeLocation payload with
  | error e => exact then_error.mpr (.refl hv.registered)
  | ok data =>
    rw [then_ok, satisfies_bind, satisfies_uuid4, then_ok, satisfies_bind, satisfies_setLocation,
      then_ok]
    refine satisfies_ret.mpr (setLocation_effect hv (Nat.le_succ _) ?_ fun hl => ?_)
    · rw [normalizeLocation_id hdata]
      exact Nat.lt_succ_self _
    · have hlt := hv.location_lt hl
      rw [normalizeLocation_id hdata] at hlt
      exact absurd hlt (lt_irrefl _)

private theorem updateLocation_effect (hv : Vouched done w) {locationId : Uuid}
    {payload : LocationPayload} (hharmless : Harmless mt w (.updateLocation locationId payload)) :
    Satisfies environment.machine (fun _ w' => Effect w w' []) w
      (updateLocation locationId payload) := by
  rw [updateLocation, satisfies_bind, satisfies_getLocation, then_ok]
  cases hlocation : w.location locationId with
  | none => exact satisfies_raise.mpr (.refl hv.registered)
  | some location =>
    dsimp only
    rw [satisfies_bind, satisfies_ofExcept]
    cases hdata : normalizeLocation (payload.over location) with
    | error e => exact then_error.mpr (.refl hv.registered)
    | ok data =>
      rw [then_ok, satisfies_bind, satisfies_setLocation, then_ok]
      have hid : (data locationId).id = locationId := normalizeLocation_id hdata locationId
      refine satisfies_ret.mpr (setLocation_effect hv (le_refl _) ?_ fun hl => ?_)
      · rw [hid]
        exact hv.registered.locations locationId (by simp [hlocation])
      · rw [hid] at hl
        rw [hid, hlocation, hharmless hl location data hlocation hdata]

private theorem deleteLocation_effect (hv : Vouched done w) {locationId : Uuid}
    (hharmless : Harmless mt w (.deleteLocation locationId)) :
    Satisfies environment.machine (fun _ w' => Effect w w' []) w
      (deleteLocation locationId) := by
  rw [deleteLocation, satisfies_delLocation]
  have hlocation : ∀ l, l ≠ locationId → (w.locations.erase locationId).lookup l = w.location l :=
    fun l hl => AList.lookup_erase_ne hl
  refine .of_samePlans ⟨hv.registered.plans, hv.registered.groups, fun l hl => ?_⟩
    (fun _ => rfl) (fun _ _ => rfl) fun l hl => ?_
  · by_cases hl' : l = locationId
    · subst hl'
      exact absurd (AList.lookup_erase l w.locations) hl
    · exact hv.registered.locations l (hlocation l hl' ▸ hl)
  · exact hlocation l fun hl' => hharmless (hl' ▸ hl)

/-! ### Plans -/

/-- The storing of a plan that is not VERIFIED, or has kept its groups and its location. -/
private theorem setPlan_effect (hregistered : w.Registered) {plan' : Plan} {fresh : Uuid}
    (hfresh : w.nextUuid ≤ fresh)
    (hsame : plan'.verification = .VERIFIED → ∃ plan, w.plan plan'.id = some plan ∧
      plan.verification = .VERIFIED ∧ plan'.groupIds = plan.groupIds ∧
        plan'.locationId = plan.locationId) :
    Effect w { w with plans := w.plans.insert plan'.id plan', nextUuid := fresh } [] := by
  have hat : (w.plans.insert plan'.id plan').lookup plan'.id = some plan' :=
    AList.lookup_insert w.plans
  have hother : ∀ id, id ≠ plan'.id → (w.plans.insert plan'.id plan').lookup id = w.plan id :=
    fun id hid => AList.lookup_insert_ne hid
  refine ⟨⟨fun id plan hplan => ?_, fun g hg => ?_, fun l hl => ?_⟩, fun id plan hplan hv => .inr ?_⟩
  · by_cases hid : id = plan'.id
    · subst hid
      obtain rfl := Option.some.inj (hat.symm.trans hplan)
      rfl
    · exact hregistered.plans id plan ((hother id hid).symm.trans hplan)
  · exact (hregistered.groups g hg).trans_le hfresh
  · exact (hregistered.locations l hl).trans_le hfresh
  · by_cases hid : id = plan'.id
    · subst hid
      obtain rfl := Option.some.inj (hat.symm.trans hplan)
      obtain ⟨old, hold, hverified, hgroups, hlocation⟩ := hsame hv
      refine ⟨⟨old, plan', hold, hat, hgroups, hlocation, fun _ _ => rfl, rfl⟩, fun p hp => ?_⟩
      obtain rfl := Option.some.inj (hold.symm.trans hp)
      exact hverified
    · have hplan : w.plan id = some plan := (hother id hid).symm.trans hplan
      refine ⟨keepsDefinition_of_same hplan (hother id hid) (fun _ _ => rfl) rfl, fun p hp => ?_⟩
      obtain rfl := Option.some.inj (hplan.symm.trans hp)
      exact hv

private theorem createPlan_effect (hv : Vouched done w) {payload : PlanPayload}
    (hharmless : Harmless mt w (.createPlan payload)) :
    Satisfies environment.machine (fun _ w' => Effect w w' []) w (createPlan payload) := by
  rw [createPlan, satisfies_bind, satisfies_ofExcept]
  cases hdata : payload.over (blankPlan 0) none with
  | error e => exact then_error.mpr (.refl hv.registered)
  | ok data =>
    rw [then_ok, satisfies_bind, satisfies_uuid4, then_ok, satisfies_bind, satisfies_setPlan,
      then_ok]
    refine satisfies_ret.mpr (setPlan_effect hv.registered (Nat.le_succ _) fun hverified => ?_)
    exact absurd hverified (hharmless data hdata)

private theorem updatePlan_effect (hv : Vouched done w) {planId : Uuid} {payload : PlanPayload}
    (hharmless : Harmless mt w (.updatePlan planId payload)) :
    Satisfies environment.machine (fun _ w' => Effect w w' []) w
      (updatePlan planId payload) := by
  rw [updatePlan, satisfies_bind, satisfies_getPlan, then_ok]
  cases hplan : w.plan planId with
  | none => exact satisfies_raise.mpr (.refl hv.registered)
  | some plan =>
    dsimp only
    rw [satisfies_bind, satisfies_ofExcept]
    cases hdata : payload.updated plan with
    | error e => exact then_error.mpr (.refl hv.registered)
    | ok data =>
      rw [then_ok, satisfies_bind, satisfies_setPlan, then_ok]
      refine satisfies_ret.mpr (setPlan_effect hv.registered (le_refl _) fun hverified => ?_)
      exact ⟨plan, hplan, hharmless plan data hplan hdata hverified⟩

private theorem deletePlan_effect (hv : Vouched done w) (planId : Uuid) :
    Satisfies environment.machine (fun _ w' => Effect w w' []) w (deletePlan planId) := by
  rw [deletePlan, satisfies_delPlan]
  have hkept : ∀ {id plan}, (w.plans.erase planId).lookup id = some plan →
      w.plan id = some plan := by
    intro id plan hplan
    by_cases hid : id = planId
    · subst hid
      rw [AList.lookup_erase] at hplan
      cases hplan
    · rwa [AList.lookup_erase_ne hid] at hplan
  refine ⟨⟨fun id plan hplan => hv.registered.plans id plan (hkept hplan), hv.registered.groups,
    hv.registered.locations⟩, fun id plan hplan hverified => .inr ?_⟩
  have hold := hkept hplan
  refine ⟨keepsDefinition_of_same hold (hplan.trans hold.symm) (fun _ _ => rfl) rfl,
    fun p hp => ?_⟩
  obtain rfl := Option.some.inj (hold.symm.trans hp)
  exact hverified

end Edits

/-! ### Checks -/

section Checks

variable {plan : Plan} {cutoff : String} {C : Uuid → Prop}

private theorem noErrors_of_append {items items' : List CheckItem}
    (h : noErrors (items ++ items') = true) : noErrors items = true := by
  rw [noErrors, List.all_append, Bool.and_eq_true] at h
  exact h.1

/-- Every group without a complaint is there. -/
private theorem checkGroups_holds (ids : List Uuid) :
    Satisfies environment.machine (fun out w' => w' = w ∧ ∀ found, out = .ok found →
      noErrors found.2 = true → ∀ id ∈ ids, w.group id ≠ none) w (checkGroups ids) := by
  induction ids with
  | nil => exact satisfies_ret.mpr ⟨rfl, fun _ _ _ id hid => (List.not_mem_nil hid).elim⟩
  | cons id rest ih =>
    rw [checkGroups, satisfies_bind, satisfies_getGroup, then_ok, satisfies_bind]
    refine ih.mono ?_
    rintro out w' ⟨rfl, hrest⟩
    cases out with
    | error e => exact then_error.mpr ⟨rfl, fun _ hfound => by cases hfound⟩
    | ok others =>
      refine then_ok.mpr (satisfies_ret.mpr ⟨rfl, fun found hfound hok => ?_⟩)
      obtain rfl := Except.ok.inj hfound
      cases hgroup : w'.group id with
      | none => simp [hgroup, noErrors, failed] at hok
      | some group =>
        rw [hgroup] at hok
        intro id' hid'
        rcases List.mem_cons.mp hid' with rfl | hid'
        · simp [hgroup]
        · exact hrest others rfl hok id' hid'

/-- A plan whose first part has no complaint has its groups and its location. -/
private theorem checkPlan_holds :
    Satisfies environment.machine (fun out w' => w' = w ∧ ∀ found, out = .ok found →
      noErrors found.2.2 = true → w.Holds plan) w (checkPlan plan) := by
  rw [checkPlan, satisfies_bind, satisfies_getLocation, then_ok, satisfies_bind]
  refine (checkGroups_holds plan.groupIds).mono ?_
  rintro out w' ⟨rfl, hgroups⟩
  cases out with
  | error e => exact then_error.mpr ⟨rfl, fun _ hfound => by cases hfound⟩
  | ok read =>
    refine then_ok.mpr (satisfies_ret.mpr ⟨rfl, fun found hfound hok => ?_⟩)
    obtain rfl := Except.ok.inj hfound
    rw [noErrors, List.all_append, List.all_append, Bool.and_eq_true, Bool.and_eq_true] at hok
    refine ⟨hgroups read rfl hok.2, fun hnone => ?_⟩
    simp [hnone, failed] at hok

/-- **A plan that passes has its groups and its location.** -/
private theorem readinessCheck_holds :
    Satisfies environment.machine (fun out _ => ∀ check, out = .ok check → check.ok = true →
      w.Holds plan) w (readinessCheck mt plan cutoff) := by
  have hany : ∀ {α : Type} (p : Prog α) (w : World),
      Satisfies environment.machine (fun _ _ => True) w p := fun p w =>
    satisfies_of_permits fun _ _ => trivial
  rw [readinessCheck, satisfies_bind, satisfies_utcNow]
  intro n
  rw [then_ok, satisfies_bind]
  refine checkPlan_holds.mono ?_
  rintro out w' ⟨rfl, hplan⟩
  cases out with
  | error e => exact then_error.mpr fun _ hcheck => by cases hcheck
  | ok found =>
    rw [then_ok]
    refine .bind (hany _ _) (fun pbsItem _ _ => ?_) fun e _ _ _ hcheck => by cases hcheck
    refine .bind (hany _ _) (fun connected _ _ => ?_) fun e _ _ _ hcheck => by cases hcheck
    refine .bind (hany _ _) (fun placed _ _ => ?_) fun e _ _ _ hcheck => by cases hcheck
    refine .bind (hany _ _) (fun sizes _ _ => ?_) fun e _ _ _ hcheck => by cases hcheck
    refine satisfies_ret.mpr fun check hcheck hok => ?_
    obtain rfl := Except.ok.inj hcheck
    exact hplan found rfl (noErrors_of_append (noErrors_of_append (noErrors_of_append
      (noErrors_of_append hok))))

/-- What checks have made of the world `w₀`: nothing but results of checks has been stored, and a
plan is VERIFIED only if it was or `C` holds of it. -/
private structure Checked (w₀ : World) (C : Uuid → Prop) (w : World) : Prop where
  plans : ∀ id plan', w.plan id = some plan' → plan'.id = id ∧ ∃ plan, w₀.plan id = some plan ∧
    plan'.groupIds = plan.groupIds ∧ plan'.locationId = plan.locationId ∧
      (plan'.verification = .VERIFIED → C id ∧ w₀.Holds plan ∨ plan.verification = .VERIFIED)
  groups : w.groups = w₀.groups
  locations : w.locations = w₀.locations
  nextUuid : w₀.nextUuid ≤ w.nextUuid

/-- Commands besides those on plans store nothing that counts. -/
private theorem Checked.of_same {w₀ : World} (h : Checked w₀ C w) (hsame : w.SameRegistry w') :
    Checked w₀ C w' := by
  refine ⟨fun id plan' hplan' => h.plans id plan' ?_, hsame.groups.trans h.groups,
    hsame.locations.trans h.locations, h.nextUuid.trans hsame.nextUuid⟩
  rwa [World.plan, hsame.plans] at hplan'

/-- The result of a check is stored. -/
private theorem Checked.setPlan {w₀ : World} {plan' : Plan} (h : Checked w₀ C w)
    (hplan : w₀.plan plan.id = some plan) (hid : plan'.id = plan.id)
    (hgroups : plan'.groupIds = plan.groupIds) (hlocation : plan'.locationId = plan.locationId)
    (hverified : plan'.verification = .VERIFIED → C plan.id ∧ w₀.Holds plan) :
    Checked w₀ C (w.setPlan plan') := by
  refine ⟨fun id stored hstored => ?_, h.groups, h.locations, h.nextUuid⟩
  by_cases hid' : id = plan.id
  · subst hid'
    rw [World.plan_setPlan_of_eq w hid] at hstored
    obtain rfl := Option.some.inj hstored
    exact ⟨hid, plan, hplan, hgroups, hlocation, fun hv => .inl (hverified hv)⟩
  · refine h.plans id stored ?_
    rwa [World.plan, World.setPlan, hid, AList.lookup_insert_ne hid'] at hstored

private theorem Checked.mono {w₀ : World} {C' : Uuid → Prop} (h : Checked w₀ C w)
    (hC : ∀ id, C id → C' id) : Checked w₀ C' w := by
  refine ⟨fun id plan' hplan' => ?_, h.groups, h.locations, h.nextUuid⟩
  obtain ⟨hid, plan, hplan, hgroups, hlocation, hverified⟩ := h.plans id plan' hplan'
  exact ⟨hid, plan, hplan, hgroups, hlocation, fun hv =>
    (hverified hv).imp_left fun hc => ⟨hC id hc.1, hc.2⟩⟩

private theorem Checked.holds_iff {w₀ : World} (h : Checked w₀ C w) (plan : Plan) :
    w.Holds plan ↔ w₀.Holds plan := by
  rw [World.Holds, World.Holds, World.location, World.location, h.locations]
  refine and_congr_left fun _ => forall₂_congr fun g _ => ?_
  rw [World.group, World.group, h.groups]

/-- The storing of the result of a check. -/
private theorem applyCheckResult_checked {w₀ : World} {check : Check} (h : Checked w₀ C w)
    (hplan : w₀.plan plan.id = some plan)
    (hok : check.ok = true → C plan.id ∧ w₀.Holds plan) :
    Satisfies environment.machine (fun out w' => (∃ saved, out = .ok saved) ∧ Checked w₀ C w') w
      (applyCheckResult cfg plan check) := by
  have hverified : (plan.checked check).verification = .VERIFIED → check.ok = true := by
    intro hv
    by_contra hnot
    simp [Plan.checked, hnot] at hv
  rw [applyCheckResult, satisfies_bind, satisfies_setPlan, then_ok, satisfies_bind]
  have hstored : Checked w₀ C (w.setPlan (plan.checked check)) :=
    h.setPlan hplan rfl rfl rfl fun hv => hok (hverified hv)
  refine (saveReport_spec cfg _ _).mono ?_
  rintro out w' ⟨rep, reports, rfl, rfl⟩
  rw [then_ok, satisfies_bind, satisfies_setPlan, then_ok]
  have hreported : Checked w₀ C { w.setPlan (plan.checked check) with
      reports, nextUuid := (w.setPlan (plan.checked check)).nextUuid + 1 } :=
    hstored.of_same ⟨rfl, rfl, rfl, Nat.le_succ _⟩
  exact satisfies_ret.mpr ⟨⟨_, rfl⟩, hreported.setPlan hplan rfl rfl rfl fun hv =>
    hok (hverified hv)⟩

/-- The check of a plan. -/
private theorem runPlanReadiness_checked {w₀ : World} (h : Checked w₀ C w)
    (hplan : w₀.plan plan.id = some plan) :
    Satisfies environment.machine (fun out w' => match out with
        | .ok result => Checked w₀ (fun id => C id ∨ id = plan.id ∧ result.2.ok = true) w'
        | .error _ => Checked w₀ C w') w
      (runPlanReadiness cfg mt plan cutoff) := by
  rw [runPlanReadiness, satisfies_bind]
  have hsame : Satisfies environment.machine (fun _ w' => w.SameRegistry w') w
      (readinessCheck mt plan cutoff) :=
    sameRegistry_of_only (readinessCheck_asks.mono fun _ ho => ho.besidesPlans)
  refine (hsame.and readinessCheck_holds).mono ?_
  rintro out w' ⟨hsame, hholds⟩
  have h' := h.of_same hsame
  cases out with
  | error e => exact then_error.mpr h'
  | ok check =>
    rw [then_ok, if_pos rfl, satisfies_bind]
    have hC : Checked w₀ (fun id => C id ∨ id = plan.id ∧ check.ok = true) w' :=
      h'.mono fun id hid => .inl hid
    refine (applyCheckResult_checked hC hplan fun hok => ?_).mono ?_
    · exact ⟨.inr ⟨rfl, hok⟩, (h.holds_iff plan).mp (hholds check rfl hok)⟩
    · rintro out w'' ⟨⟨saved, rfl⟩, hsaved⟩
      exact then_ok.mpr (satisfies_ret.mpr hsaved)

/-- The check of a due plan. -/
private theorem checkDue_checked {w₀ : World} (h : Checked w₀ C w)
    (hplan : w₀.plan plan.id = some plan) :
    Satisfies environment.machine (fun out w' => ∃ check, out = .ok check ∧
      Checked w₀ (fun id => C id ∨ id = plan.id ∧ check.ok = true) w') w
      (checkDue cfg mt plan) := by
  rw [checkDue, satisfies_bind, satisfies_attempt]
  refine (runPlanReadiness_checked h hplan).mono fun out w' hout => then_ok.mpr ?_
  cases out with
  | ok result => exact satisfies_ret.mpr ⟨_, rfl, hout⟩
  | error exc =>
    dsimp only
    rw [satisfies_bind, satisfies_utcNow]
    intro n
    rw [then_ok, satisfies_bind]
    have hnow : Checked w₀ C { w' with clock := w'.clock + n } :=
      Checked.of_same hout ⟨rfl, rfl, rfl, le_refl _⟩
    refine (applyCheckResult_checked hnow hplan fun hok => by cases hok).mono ?_
    rintro out w'' ⟨⟨saved, rfl⟩, hsaved⟩
    refine then_ok.mpr (satisfies_ret.mpr ⟨_, rfl, hsaved.mono fun id hid => .inl hid⟩)

/-- The checks of the due plans. -/
private theorem checkDuePlans_checked {w₀ : World} (plans : List Plan) (h : Checked w₀ C w)
    (hplans : ∀ plan ∈ plans, w₀.plan plan.id = some plan) :
    Satisfies environment.machine (fun out w' => ∃ checks, out = .ok checks ∧
      Checked w₀ (fun id => C id ∨ (id, true) ∈ checks) w') w (checkDuePlans cfg mt plans) := by
  induction plans generalizing w C with
  | nil => exact satisfies_ret.mpr ⟨_, rfl, h.mono fun id hid => .inl hid⟩
  | cons plan rest ih =>
    rw [checkDuePlans, satisfies_bind]
    refine (checkDue_checked h (hplans plan List.mem_cons_self)).mono ?_
    rintro out w' ⟨check, rfl, hcheck⟩
    rw [then_ok, satisfies_bind]
    refine (ih hcheck fun p hp => hplans p (List.mem_cons_of_mem _ hp)).mono ?_
    rintro out w'' ⟨checks, rfl, hchecks⟩
    refine then_ok.mpr (satisfies_ret.mpr ⟨_, rfl, hchecks.mono fun id hid => ?_⟩)
    rcases hid with (hid | ⟨rfl, hok⟩) | hid
    · exact .inl hid
    · exact .inr (hok ▸ List.mem_cons_self)
    · exact .inr (List.mem_cons_of_mem _ hid)

/-- Nothing has been checked yet. -/
private theorem Checked.start (h : w.Registered) : Checked w (fun _ => False) w :=
  ⟨fun id plan hplan => ⟨h.plans id plan hplan, plan, hplan, rfl, rfl, fun hv => .inr hv⟩, rfl, rfl,
    le_refl _⟩

/-- What checks do is what a deed may do. -/
private theorem Checked.effect {checks : List (Uuid × Bool)} (h : Checked w C w')
    (hregistered : w.Registered) (hC : ∀ id, C id → (id, true) ∈ checks) :
    Effect w w' checks := by
  have hgroup : ∀ g, w'.group g = w.group g := fun g => by
    rw [World.group, h.groups, World.group]
  have hlocation : ∀ l, w'.location l = w.location l := fun l => by
    rw [World.location, h.locations, World.location]
  refine ⟨⟨fun id plan hplan => (h.plans id plan hplan).1, fun g hg => ?_, fun l hl => ?_⟩,
    fun id plan' hplan' hverified => ?_⟩
  · exact (hregistered.groups g (hgroup g ▸ hg)).trans_le h.nextUuid
  · exact (hregistered.locations l (hlocation l ▸ hl)).trans_le h.nextUuid
  · obtain ⟨-, plan, hplan, hgroups, hloc, hold⟩ := h.plans id plan' hplan'
    rcases hold hverified with ⟨hchecked, hholds⟩ | hold
    · refine .inl ⟨hC id hchecked, (h.holds_iff plan').mpr ?_⟩
      rwa [World.Holds, hgroups, hloc]
    · refine .inr ⟨⟨plan, plan', hplan, hplan', hgroups, hloc, fun g _ => hgroup g,
        hlocation _⟩, fun p hp => ?_⟩
      obtain rfl := Option.some.inj (hplan.symm.trans hp)
      exact hold

private theorem apiCheckPlan_effect (hregistered : w.Registered) {planId : Uuid}
    {atOrBefore : String} :
    Satisfies environment.machine (fun out w' => Effect w w' (out.toOption.getD [])) w
      ((fun result => [(planId, result.2.ok)]) <$> apiCheckPlan cfg mt planId atOrBefore) := by
  rw [map_eq_bind, apiCheckPlan, satisfies_bind, satisfies_bind, satisfies_getPlan, then_ok]
  cases hplan : w.plan planId with
  | none => exact satisfies_raise.mpr (then_error.mpr (.refl hregistered))
  | some plan =>
    have hid : plan.id = planId := hregistered.plans planId plan hplan
    dsimp only
    rw [satisfies_bind, satisfies_attempt]
    refine (runPlanReadiness_checked (.start hregistered) (hid.symm ▸ hplan)).mono
      fun out w' hout => then_ok.mpr ?_
    cases out with
    | ok result =>
      refine satisfies_ret.mpr (then_ok.mpr (satisfies_ret.mpr ?_))
      refine Checked.effect hout hregistered fun id hchecked => ?_
      rcases hchecked with hnone | ⟨rfl, hok⟩
      · exact hnone.elim
      · rw [hid, hok]
        exact List.mem_cons_self
    | error exc =>
      refine satisfies_raise.mpr (then_error.mpr ?_)
      exact Checked.effect hout hregistered fun _ hnone => hnone.elim

private theorem readinessTick_effect (hregistered : w.Registered) :
    Satisfies environment.machine (fun out w' => Effect w w' (out.toOption.getD [])) w
      (readinessTick cfg mt) := by
  rw [readinessTick]
  refine Satisfies.ite (fun _ => satisfies_ret.mpr (.refl hregistered)) fun _ => ?_
  rw [satisfies_bind]
  have hstored : ∀ id plan, w.plan id = some plan →
      plan.id = id ∧ w.plan plan.id = some plan := by
    intro id plan hplan
    obtain rfl := hregistered.plans id plan hplan
    exact ⟨rfl, hplan⟩
  refine (listPlans_keepsPlans.effect hstored).mono ?_
  rintro out w' ⟨hplans, hkept⟩
  have hstart : Checked w (fun _ => False) w' := by
    refine ⟨fun id plan hplan => ?_, hkept.groups, hkept.locations, hkept.nextUuid⟩
    obtain ⟨rfl, hold⟩ := hkept.plans id plan hplan
    exact ⟨rfl, plan, hold, rfl, rfl, fun hv => .inr hv⟩
  cases out with
  | error e => exact then_error.mpr (hstart.effect hregistered fun _ hnone => hnone.elim)
  | ok plans =>
    rw [then_ok, satisfies_bind, satisfies_utcNow]
    intro n
    rw [then_ok, satisfies_bind, satisfies_ofExcept]
    have hnow : Checked w (fun _ => False) { w' with clock := w'.clock + n } :=
      hstart.of_same ⟨rfl, rfl, rfl, le_refl _⟩
    cases hdue : plansDueForCheck plans cfg.planCheckIntervalSec (w'.clock + n) with
    | error e => exact then_error.mpr (hnow.effect hregistered fun _ hnone => hnone.elim)
    | ok due =>
      rw [then_ok]
      refine (checkDuePlans_checked due hnow fun plan hplan => ?_).mono ?_
      · exact hplans plans rfl plan (mem_plansDueForCheck hdue plan hplan)
      · rintro out w'' ⟨checks, rfl, hchecks⟩
        exact hchecks.effect hregistered fun id hid => hid.resolve_left fun hnone => hnone

end Checks

/-! ### All deeds -/

/-- **What a deed does.** -/
private theorem Deed.effect {done : List Done} {deed : Deed} (hv : Vouched done w)
    (hharmless : Harmless mt w deed) :
    Satisfies environment.machine (fun out w' => Effect w w' (out.toOption.getD [])) w
      (deed.program cfg mt) := by
  cases deed with
  | createPlan payload => exact effect_map (createPlan_effect hv hharmless)
  | updatePlan planId payload => exact effect_map (updatePlan_effect hv hharmless)
  | deletePlan planId => exact effect_map (deletePlan_effect hv planId)
  | createGroup payload => exact effect_map (createGroup_effect hv payload)
  | updateGroup groupId payload => exact effect_map (updateGroup_effect hv hharmless)
  | deleteGroup groupId => exact effect_map (deleteGroup_effect hv hharmless)
  | createLocation payload => exact effect_map (createLocation_effect hv payload)
  | updateLocation locationId payload => exact effect_map (updateLocation_effect hv hharmless)
  | deleteLocation locationId => exact effect_map (deleteLocation_effect hv hharmless)
  | check planId atOrBefore => exact apiCheckPlan_effect hv.registered
  | readinessTick => exact readinessTick_effect hv.registered
  | run planId body =>
    exact effect_of_keepsPlans hv.registered
      (apiRunPlan_keepsPlans follows_closed (readers_besidePlans mt) planId body)
  | assure planId body =>
    exact effect_of_keepsPlans hv.registered
      (apiAssurePlan_keepsPlans follows_closed (readers_besidePlans mt) planId body)
  | scheduleTick =>
    exact effect_of_keepsPlans hv.registered
      (tickScheduledPlanRuns_keepsPlans follows_closed (readers_besidePlans mt))
  | advance =>
    exact effect_of_keepsPlans hv.registered
      (advancePlanRuns_keepsPlans follows_closed.advances enqueueRestores_besides)
  | cancel runId =>
    exact effect_of_keepsPlans hv.registered (cancelPlanRun_keepsPlans follows_closed.advances runId)
  | teardown target =>
    exact effect_of_keepsPlans hv.registered (.of_only teardownPlanRun_besides)

/-- The invariant holds after harmless deeds. -/
private theorem vouched_of_deeds {w₀ : World} {done : List Done} (hregistered : w₀.Registered)
    (hunverified : ∀ id plan, w₀.plan id = some plan → plan.verification ≠ .VERIFIED)
    (hdone : Deeds cfg mt (Harmless mt) w₀ done w) : Vouched done w := by
  induction hdone with
  | start => exact ⟨hregistered, fun id p hp hv => absurd hv (hunverified id p hp)⟩
  | step _ hharmless hends ih =>
    exact ih.step (satisfies_iff_ends.mp (Deed.effect ih hharmless) _ _ hends)

/-- **Verified plans are as they were checked.** After harmless deeds, nothing that was checked has
changed since the last successful check of a VERIFIED plan. -/
theorem verified_unchanged {w₀ : World} {done : List Done} (hregistered : w₀.Registered)
    (hunverified : ∀ id plan, w₀.plan id = some plan → plan.verification ≠ .VERIFIED)
    (hdone : Deeds cfg mt (Harmless mt) w₀ done w) {planId : Uuid} {plan : Plan}
    (hplan : w.plan planId = some plan) (hverified : plan.verification = .VERIFIED) :
    UnchangedSinceCheck planId done :=
  ((vouched_of_deeds hregistered hunverified hdone).verified planId plan hplan hverified).1

/-! ### A group that is changed -/

/-- A world in which the plan 1, of the group 2 at the location 3, is ready. -/
private def readyWorld : World where
  plans := (∅ : AList fun _ : Uuid => Plan).insert 1
    { id := 1, name := "P1", groupIds := [2], locationId := 3 }
  groups := (∅ : AList fun _ : Uuid => Group).insert 2 { id := 2, name := "g1", vmids := [109] }
  locations := (∅ : AList fun _ : Uuid => Location).insert 3
    { id := 3, node := "pve", nodes := ["pve"], storage := "local-lvm", vmidStart := 3500 }
  nextUuid := 4
  answers
    | .pbs, _ => .ok (true, [])
    | .pve, _ => .ok (true, "")
    | .session, _ => .ok true
    | .nodes, _ => .ok ["pve"]
    | .storages _, _ => .ok [{ id := "local-lvm", usableForVmDisks := true }]
    | .backups, _ => .ok [{ backupId := "main|vm/109/1", vmid := some 109
                            timestamp := "2026-08-07T10:00:00Z", pveStorage := "pbs"
                            voltail := "vm/109/1" }]
    | .vmids, _ => .ok ∅
    | .tags _ _, _ => .ok ([], [])
    | .size _, _ => .ok none

/-- What is stored under one id only. -/
private theorem lookup_singleton {β : Type} {key id : Uuid} {b c : β}
    (h : ((∅ : AList fun _ : Uuid => β).insert key b).lookup id = some c) : id = key ∧ c = b := by
  by_cases hid : id = key
  · subst hid
    rw [AList.lookup_insert] at h
    exact ⟨rfl, (Option.some.inj h).symm⟩
  · rw [AList.lookup_insert_ne hid] at h
    cases h

private theorem readyWorld_registered : readyWorld.Registered := by
  refine ⟨fun id plan hplan => ?_, fun id hid => ?_, fun id hid => ?_⟩
  · obtain ⟨rfl, rfl⟩ := lookup_singleton hplan
    rfl
  · obtain ⟨group, hgroup⟩ := Option.ne_none_iff_exists'.mp hid
    obtain ⟨rfl, -⟩ := lookup_singleton hgroup
    decide
  · obtain ⟨location, hlocation⟩ := Option.ne_none_iff_exists'.mp hid
    obtain ⟨rfl, -⟩ := lookup_singleton hlocation
    decide

private theorem readyWorld_unverified (id : Uuid) (plan : Plan)
    (hplan : readyWorld.plan id = some plan) : plan.verification ≠ .VERIFIED := by
  obtain ⟨-, rfl⟩ := lookup_singleton hplan
  decide

/-- What is looked at of the plan and its group. -/
private structure Shown where
  checks : List (Uuid × Bool)
  plan : Option (PlanVerification × List Uuid)
  vmids : Option (List ℤ)
  deriving DecidableEq

private def shownOf (end_ : Except Exn (List (Uuid × Bool)) × World) : Shown where
  checks := end_.1.toOption.getD []
  plan := (end_.2.plan 1).map fun plan => (plan.verification, plan.groupIds)
  vmids := (end_.2.group 2).map (·.vmids)

/-- The plan is checked, and then its group is changed. -/
private theorem changed_after_check :
    ∃ out₁ w₁ out₂ w₂, Ends environment (Deed.program {} .unused (.check 1 "")) readyWorld out₁ w₁ ∧
      shownOf (out₁, w₁) = ⟨[(1, true)], some (.VERIFIED, [2]), some [109]⟩ ∧
      Ends environment (Deed.program {} .unused (.updateGroup 2 { vmids := some [110] })) w₁ out₂
        w₂ ∧
      shownOf (out₂, w₂) = ⟨[], some (.VERIFIED, [2]), some [110]⟩ := by
  have hrun : (((Deed.program {} .unused (.check 1 "")).run environment [] readyWorld).bind
      fun end₁ => ((Deed.program {} .unused (.updateGroup 2 { vmids := some [110] })).run
        environment [] end₁.2).map fun end₂ => (shownOf end₁, shownOf end₂)) =
      some (⟨[(1, true)], some (.VERIFIED, [2]), some [109]⟩,
        ⟨[], some (.VERIFIED, [2]), some [110]⟩) := by decide +kernel
  obtain ⟨⟨out₁, w₁⟩, hend₁, hrest⟩ := Option.bind_eq_some_iff.mp hrun
  obtain ⟨⟨out₂, w₂⟩, hend₂, hshown⟩ := Option.map_eq_some_iff.mp hrest
  obtain ⟨hshown₁, hshown₂⟩ := Prod.mk.inj hshown
  exact ⟨out₁, w₁, out₂, w₂, ends_of_run hend₁, hshown₁, ends_of_run hend₂, hshown₂⟩

/-- A VERIFIED plan whose group has changed since its last check. -/
theorem verified_though_changed :
    ∃ (mt : Matching) (w₀ : World) (done : List Done) (w : World) (plan : Plan),
      w₀.Registered ∧ (∀ id plan, w₀.plan id = some plan → plan.verification ≠ .VERIFIED) ∧
        Deeds {} mt (fun _ _ => True) w₀ done w ∧ w.plan 1 = some plan ∧
        plan.verification = .VERIFIED ∧ ¬ UnchangedSinceCheck 1 done := by
  obtain ⟨out₁, w₁, out₂, w₂, hcheck, hshown₁, hupdate, hshown₂⟩ := changed_after_check
  simp only [shownOf, Shown.mk.injEq] at hshown₁ hshown₂
  obtain ⟨-, hplan₁, hgroup₁⟩ := hshown₁
  obtain ⟨hchecks₂, hplan₂, hgroup₂⟩ := hshown₂
  obtain ⟨plan₁, hplan₁, hshown₁⟩ := Option.map_eq_some_iff.mp hplan₁
  obtain ⟨plan₂, hplan₂, hshown₂⟩ := Option.map_eq_some_iff.mp hplan₂
  refine ⟨.unused, readyWorld, _, w₂, plan₂, readyWorld_registered, readyWorld_unverified,
    .step (.step .start trivial hcheck) trivial hupdate, hplan₂, (Prod.mk.inj hshown₂).1, ?_⟩
  rintro (hchecked | ⟨⟨plan, plan', hplan, -, -, -, hgroups, -⟩, -⟩)
  · rw [hchecks₂] at hchecked
    exact List.not_mem_nil hchecked
  · obtain rfl := Option.some.inj (hplan₁.symm.trans hplan)
    have hmem : (2 : Uuid) ∈ plan₁.groupIds := by
      rw [(Prod.mk.inj hshown₁).2]
      exact List.mem_cons_self
    have hsame : w₂.group 2 = w₁.group 2 := hgroups 2 hmem
    rw [hsame, hgroup₁] at hgroup₂
    cases hgroup₂

/-- The group 2. -/
private def checkedGroup : Group := { id := 2, name := "g1", vmids := [109] }

/-- A change of the group that leaves it as it is: a name and VMIDs are normalized. -/
private def sameGroup : GroupPayload := { name := some " g1 ", vmids := some [109, 109] }

/-- A new name for the plan. -/
private def newName : PlanPayload := { name := some "P2" }

/-- The plan is checked, its group is saved as it is, and the plan is renamed. -/
private theorem kept_after_check :
    ∃ out₁ w₁ out₂ w₂ out₃ w₃,
      Ends environment (Deed.program {} .unused (.check 1 "")) readyWorld out₁ w₁ ∧
      w₁.group 2 = some checkedGroup ∧
      Ends environment (Deed.program {} .unused (.updateGroup 2 sameGroup)) w₁ out₂ w₂ ∧
      Ends environment (Deed.program {} .unused (.updatePlan 1 newName)) w₂ out₃ w₃ ∧
      (w₃.plan 1).map (fun plan => (plan.name, plan.verification)) = some ("P2", .VERIFIED) := by
  have hrun : (((Deed.program {} .unused (.check 1 "")).run environment [] readyWorld).bind
      fun end₁ => ((Deed.program {} .unused (.updateGroup 2 sameGroup)).run environment []
        end₁.2).bind fun end₂ => ((Deed.program {} .unused (.updatePlan 1 newName)).run
          environment [] end₂.2).map fun end₃ => (end₁.2.group 2,
            (end₃.2.plan 1).map fun plan => (plan.name, plan.verification))) =
      some (some checkedGroup, some ("P2", .VERIFIED)) := by decide +kernel
  obtain ⟨⟨out₁, w₁⟩, hend₁, hrest⟩ := Option.bind_eq_some_iff.mp hrun
  obtain ⟨⟨out₂, w₂⟩, hend₂, hrest⟩ := Option.bind_eq_some_iff.mp hrest
  obtain ⟨⟨out₃, w₃⟩, hend₃, hshown⟩ := Option.map_eq_some_iff.mp hrest
  obtain ⟨hgroup, hplan⟩ := Prod.mk.inj hshown
  exact ⟨out₁, w₁, out₂, w₂, out₃, w₃, ends_of_run hend₁, hgroup, ends_of_run hend₂,
    ends_of_run hend₃, hplan⟩

/-- The group of the VERIFIED plan stays as it is. -/
private theorem sameGroup_harmless (hgroup : w.group 2 = some checkedGroup) :
    Harmless .unused w (.updateGroup 2 sameGroup) := by
  intro _ group data hstored hdata
  obtain rfl := Option.some.inj (hgroup.symm.trans hstored)
  have hsame : (normalizeGroup .unused (sameGroup.over checkedGroup)).toOption.map (· 2) =
      some checkedGroup := by decide +kernel
  rw [hdata] at hsame
  exact Option.some.inj hsame

/-- A new name leaves the plan VERIFIED if it was. -/
private theorem newName_harmless : Harmless .unused w (.updatePlan 1 newName) := by
  intro plan plan' _ hupdated hverified
  have hbase : newName.updated plan = newName.over plan (some plan.locationId) := rfl
  rw [hbase, PlanPayload.over] at hupdated
  split_ifs at hupdated
  obtain rfl := Except.ok.inj hupdated
  exact ⟨hverified, rfl, rfl⟩

/-- A plan that has been checked, and renamed after its group was saved as it is. -/
theorem verified_unchanged_renamed : ∃ done w plan, done.length = 3 ∧
    Deeds {} .unused (Harmless .unused) readyWorld done w ∧ w.plan 1 = some plan ∧
      plan.name = "P2" ∧ plan.verification = .VERIFIED ∧ UnchangedSinceCheck 1 done := by
  obtain ⟨out₁, w₁, out₂, w₂, out₃, w₃, hcheck, hgroup, hsave, hrename, hshown⟩ := kept_after_check
  obtain ⟨plan, hplan, hnamed⟩ := Option.map_eq_some_iff.mp hshown
  obtain ⟨hname, hverified⟩ := Prod.mk.inj hnamed
  have hharmless : Harmless .unused readyWorld (.check 1 "") := trivial
  have hdone : Deeds {} .unused (Harmless .unused) readyWorld _ w₃ :=
    .step (.step (.step .start hharmless hcheck) (sameGroup_harmless hgroup) hsave)
      newName_harmless hrename
  exact ⟨_, w₃, plan, rfl, hdone, hplan, hname, hverified, verified_unchanged
    readyWorld_registered readyWorld_unverified hdone hplan hverified⟩

end RestoreEngine
