import RestoreEngine.Effects.History
import RestoreEngine.Plans.Footprint
import RestoreEngine.Protocols.Rules

/-!
# Checks that overlap with edits

A readiness check reads a plan, takes its time, and then stores the whole record, with its result
in it. The tick of a worker reads all plans before the first of its checks. If an operator updates
or deletes the plan in between, the check undoes that. `edits_survive` says that this is the only
way to lose an edit: as long as no edit comes between the reading of a plan and the storing of its
check, the stored plans are those of the last edits, with results of checks.
-/

namespace RestoreEngine

open Effects Prog Program

/-! ### Those who read and store plans -/

/-- Who reads and stores plans. -/
inductive PlanActor
  /-- `api_check_plan`. -/
  | check (planId : Uuid) (atOrBefore : String)
  /-- The readiness tick of a worker. -/
  | tick
  /-- `update_plan`. -/
  | update (planId : Uuid) (payload : PlanPayload)
  /-- `delete_plan`. -/
  | delete (planId : Uuid)

namespace PlanActor

/-- The actor runs readiness checks. -/
def Checks : PlanActor → Bool
  | check _ _ | tick => true
  | update _ _ | delete _ => false

/-- What the actor does. -/
def program (cfg : Config) (mt : Matching) : PlanActor → Prog Unit
  | check planId atOrBefore => do
    let _ ← apiCheckPlan cfg mt planId atOrBefore
    return ()
  | tick => do
    let _ ← tickPlanReadiness cfg mt
    return ()
  | update planId payload => do
    let _ ← updatePlan planId payload
    return ()
  | delete planId => do
    let _ ← deletePlan planId
    return ()

end PlanActor

/-- The plan without what a check writes. -/
def Plan.unchecked (plan : Plan) : Plan :=
  { plan with
    verification := .NOT_VERIFIED
    lastCheckAt := .empty
    lastCheck := none
    lastCheckReportId := none }

@[simp] theorem Plan.unchecked_id (plan : Plan) : plan.unchecked.id = plan.id := rfl

@[simp] theorem Plan.unchecked_checked (plan : Plan) (check : Check) :
    (plan.checked check).unchecked = plan.unchecked := rfl

/-! ### What has happened to a plan -/

section History

variable {ι : Type} [DecidableEq ι] (actors : ι → PlanActor)

/-- The edit of the plan that the event is: `none` if it is none, `some none` if the plan is
deleted. -/
def editOf (id : Uuid) (e : ι × Event commands) : Option (Option Plan) :=
  match e.2.op with
  | .setPlan plan =>
    if (actors e.1).Checks = false ∧ plan.id = id then some (some plan) else none
  | .delPlan id' => if id' = id then some none else none
  | _ => none

/-- The last edit of the plan. -/
def lastEdit (id : Uuid) (h : List (ι × Event commands)) : Option (Option Plan) :=
  h.foldl (fun last e => (editOf actors id e).or last) none

/-- The event is a reading of the plan by the actor. -/
def isReading (i : ι) (id : Uuid) (e : ι × Event commands) : Bool :=
  match e.2.op with
  | .getPlan id' => e.1 = i ∧ id' = id
  | _ => false

/-- The plan has been edited since the actor read it last. -/
def editedSince (i : ι) (id : Uuid) (h : List (ι × Event commands)) : Bool :=
  h.foldl (fun edited e =>
    if isReading i id e then false else edited || (editOf actors id e).isSome) false

/-- A check may store a plan if that has not been edited since the check read it. -/
def upToDate (h : List (ι × Event commands)) (e : ι × Event commands) : Bool :=
  match e.2.op with
  | .setPlan plan => !(actors e.1).Checks || !editedSince actors e.1 plan.id h
  | _ => true

/-- **No edit comes between the reading of a plan and the storing of its check.** -/
def NoOverlap : StepCondition commands ι := fun h e => upToDate actors h e = true

variable {actors}

omit [DecidableEq ι] in
private theorem lastEdit_append {id : Uuid} {h : List (ι × Event commands)}
    {e : ι × Event commands} :
    lastEdit actors id (h ++ [e]) = (editOf actors id e).or (lastEdit actors id h) := by
  rw [lastEdit, List.foldl_append]
  rfl

private theorem editedSince_append {i : ι} {id : Uuid} {h : List (ι × Event commands)}
    {e : ι × Event commands} :
    editedSince actors i id (h ++ [e]) = if isReading i id e then false
      else editedSince actors i id h || (editOf actors id e).isSome := by
  rw [editedSince, List.foldl_append]
  rfl

end History

/-! ### The protocol -/

/-- The plans that an actor has read. A check stores what it has read, with its result. -/
def planReads (checks : Bool) : Protocol commands (Uuid → Option Plan) where
  observe m o r :=
    match o, r with
    | .getPlan id, r => Function.update m id r
    | _, _ => m
  Permits m o :=
    match o with
    | .setPlan plan =>
      checks = true → ∃ p, m plan.id = some p ∧ plan.unchecked = p.unchecked
    | .delPlan _ => checks = false
    | _ => True

/-- Plans are stored under their own ids, and the index has every id once. -/
def GenuinePlans (_ : Uuid → Option Plan) (o : commands.Op) (r : commands.Res o) : Prop :=
  match o, r with
  | .getPlan id, r => ∀ plan : Plan, r = some plan → plan.id = id
  | .planIds, r => List.Nodup r
  | _, _ => True

section Checks

variable {mt : Matching} {cfg : Config} {plan : Plan} {m : Uuid → Option Plan} {α : Type}

/-- The machine of an actor that checks. -/
private abbrev checker : Machine commands (Uuid → Option Plan) :=
  (planReads true).guarded GenuinePlans

/-- What has nothing to do with plans reads none. -/
private theorem besides_kept {p : Prog α} (hp : p.Only Op.BesidesPlans) :
    Satisfies checker (fun _ m' => m' = m) m p := by
  refine hp.satisfies rfl ?_ ?_
  · rintro s o ho rfl
    cases o <;> first | exact trivial | exact ho.elim
  · rintro s o r s' ho rfl ⟨-, rfl⟩
    cases o <;> first | rfl | exact ho.elim

/-- A check stores the plan that was read, with its result. -/
private theorem applyCheckResult_kept {check : Check} (hread : m plan.id = some plan) :
    Satisfies checker (fun _ m' => m' = m) m (applyCheckResult cfg plan check) := by
  rw [applyCheckResult, satisfies_bind]
  refine (guarded_issue (.setPlan _)).mpr ⟨fun _ => ⟨plan, hread, rfl⟩, fun _ _ => ?_⟩
  rw [then_ok, satisfies_bind]
  refine (besides_kept saveReport_besides).mono ?_
  rintro out m' rfl
  cases out with
  | error e => exact then_error.mpr rfl
  | ok rep =>
    rw [then_ok, satisfies_bind]
    refine (guarded_issue (.setPlan _)).mpr ⟨fun _ => ⟨plan, hread, rfl⟩, fun _ _ => ?_⟩
    exact then_ok.mpr (satisfies_ret.mpr rfl)

private theorem runPlanReadiness_kept {cutoff : String} (hread : m plan.id = some plan) :
    Satisfies checker (fun _ m' => m' = m) m (runPlanReadiness cfg mt plan cutoff) := by
  rw [runPlanReadiness, satisfies_bind]
  refine (besides_kept (readinessCheck_asks.mono fun _ ho => ho.besidesPlans)).mono ?_
  rintro out m' rfl
  cases out with
  | error e => exact then_error.mpr rfl
  | ok check =>
    rw [then_ok, if_pos rfl, satisfies_bind]
    refine (applyCheckResult_kept hread).mono ?_
    rintro out m' rfl
    cases out with
    | error e => exact then_error.mpr rfl
    | ok saved => exact then_ok.mpr (satisfies_ret.mpr rfl)

private theorem apiCheckPlan_onProtocol {planId : Uuid} {cutoff : String} :
    Satisfies checker (fun _ _ => True) m (apiCheckPlan cfg mt planId cutoff) := by
  rw [apiCheckPlan, satisfies_bind]
  refine (guarded_issue (.getPlan planId)).mpr ⟨trivial, fun found hfound => ?_⟩
  rw [then_ok]
  cases found with
  | none => exact satisfies_raise.mpr trivial
  | some plan =>
    have hid : plan.id = planId := hfound plan rfl
    have hread : Function.update m planId (some plan) plan.id = some plan := by
      rw [hid, Function.update_self]
    rw [satisfies_bind, satisfies_attempt]
    refine (runPlanReadiness_kept hread).mono fun out m' _ => then_ok.mpr ?_
    cases out with
    | ok result => exact satisfies_ret.mpr trivial
    | error exc => exact satisfies_raise.mpr trivial

/-- The plans of a listing are what was read last of them. -/
private theorem loadPlans_kept (ids : List Uuid) (hids : ids.Nodup) :
    Satisfies checker (fun out m' => (∀ id, id ∉ ids → m' id = m id) ∧
      ∀ plans, out = .ok plans → ∀ plan ∈ plans, plan.id ∈ ids ∧ m' plan.id = some plan) m
      (loadPlans ids) := by
  induction ids generalizing m with
  | nil =>
    refine satisfies_ret.mpr ⟨fun _ _ => rfl, fun plans hplans plan hplan => ?_⟩
    obtain rfl := Except.ok.inj hplans
    exact (List.not_mem_nil hplan).elim
  | cons id rest ih =>
    obtain ⟨hfresh, hrest⟩ := List.nodup_cons.mp hids
    rw [loadPlans, satisfies_bind]
    refine (guarded_issue (.getPlan id)).mpr ⟨trivial, fun found hfound => ?_⟩
    rw [then_ok, satisfies_bind]
    refine (ih hrest).mono fun out m' hout => ?_
    have hkept : ∀ id', id' ∉ id :: rest → m' id' = m id' := by
      intro id' hid'
      obtain ⟨hne, hnot⟩ : id' ≠ id ∧ id' ∉ rest := by simpa using hid'
      exact (hout.1 id' hnot).trans (Function.update_of_ne hne _ _)
    cases out with
    | error e =>
      exact then_error.mpr ⟨hkept, fun plans hplans => by cases hplans⟩
    | ok others =>
      refine then_ok.mpr (satisfies_ret.mpr ⟨hkept, fun plans hplans plan hplan => ?_⟩)
      obtain rfl := Except.ok.inj hplans
      rcases List.mem_append.mp hplan with hone | hplan
      · obtain rfl := Option.mem_toList.mp hone
        have hid : plan.id = id := hfound plan rfl
        refine ⟨hid ▸ List.mem_cons_self, ?_⟩
        rw [hid, hout.1 id hfresh]
        exact Function.update_self ..
      · obtain ⟨hmem, hread⟩ := hout.2 others rfl plan hplan
        exact ⟨List.mem_cons_of_mem _ hmem, hread⟩

private theorem checkDue_kept (hread : m plan.id = some plan) :
    Satisfies checker (fun _ m' => m' = m) m (checkDue cfg mt plan) := by
  rw [checkDue, satisfies_bind, satisfies_attempt]
  refine (runPlanReadiness_kept hread).mono ?_
  rintro out m' rfl
  rw [then_ok]
  cases out with
  | ok result => exact satisfies_ret.mpr rfl
  | error exc =>
    dsimp only
    rw [satisfies_bind]
    refine (guarded_issue .utcNow).mpr ⟨trivial, fun now _ => ?_⟩
    rw [then_ok, satisfies_bind]
    refine (applyCheckResult_kept hread).mono ?_
    rintro out m' rfl
    cases out with
    | error e => exact then_error.mpr rfl
    | ok saved => exact then_ok.mpr (satisfies_ret.mpr rfl)

private theorem checkDuePlans_kept (plans : List Plan)
    (hread : ∀ plan ∈ plans, m plan.id = some plan) :
    Satisfies checker (fun _ m' => m' = m) m (checkDuePlans cfg mt plans) := by
  induction plans with
  | nil => exact satisfies_ret.mpr rfl
  | cons plan rest ih =>
    rw [checkDuePlans, satisfies_bind]
    refine (checkDue_kept (hread plan List.mem_cons_self)).mono ?_
    rintro out m' rfl
    cases out with
    | error e => exact then_error.mpr rfl
    | ok check =>
      rw [then_ok, satisfies_bind]
      refine (ih fun plan hplan => hread plan (List.mem_cons_of_mem _ hplan)).mono ?_
      rintro out m' rfl
      cases out with
      | error e => exact then_error.mpr rfl
      | ok checks => exact then_ok.mpr (satisfies_ret.mpr rfl)

private theorem readinessTick_onProtocol :
    Satisfies checker (fun _ _ => True) m (readinessTick cfg mt) := by
  rw [readinessTick]
  refine Satisfies.ite (fun _ => satisfies_ret.mpr trivial) fun _ => ?_
  rw [listPlans, satisfies_bind, satisfies_bind]
  refine (guarded_issue .planIds).mpr ⟨trivial, fun ids hids => ?_⟩
  rw [then_ok]
  have hsorted : (ids.mergeSort fun a b => a ≤ b).Nodup := (List.mergeSort_perm _ _).nodup_iff.mpr hids
  refine (loadPlans_kept _ hsorted).mono fun out m' hout => ?_
  cases out with
  | error e => exact then_error.mpr trivial
  | ok plans =>
    rw [then_ok, satisfies_bind]
    refine (guarded_issue .utcNow).mpr ⟨trivial, fun now _ => ?_⟩
    rw [then_ok, satisfies_bind, satisfies_ofExcept]
    cases hdue : plansDueForCheck plans cfg.planCheckIntervalSec now with
    | error e => exact then_error.mpr trivial
    | ok due =>
      rw [then_ok]
      have hread : ∀ plan ∈ due, m' plan.id = some plan := fun plan hplan =>
        (hout.2 plans rfl plan (mem_plansDueForCheck hdue plan hplan)).2
      exact (checkDuePlans_kept due hread).mono fun _ _ _ => trivial

end Checks

/-! ### The run -/

section Run

variable {ι : Type} [DecidableEq ι] {actors : ι → PlanActor} {cfg : Config} {mt : Matching}
  {w₀ w w' : World} {h : List (ι × Event commands)} {v v' : ι → Uuid → Option Plan}
  {p : ι → Prog Unit}

/-- **The invariant.** Up to results of checks, a plan that was not edited since an actor read it
is as the actor read it, and a plan that was edited is as the last edit left it. -/
private structure Current (actors : ι → PlanActor) (h : List (ι × Event commands))
    (v : ι → Uuid → Option Plan) (w : World) : Prop where
  keyed : w.PlansKeyed
  reads : ∀ i id plan, (actors i).Checks = true → v i id = some plan →
    editedSince actors i id h = false →
      (w.plan id).map Plan.unchecked = some plan.unchecked
  edits : ∀ id edit, lastEdit actors id h = some edit →
    (w.plan id).map Plan.unchecked = edit.map Plan.unchecked

/-- An event that neither reads nor edits a plan keeps the invariant. -/
private theorem Current.quiet {e : ι × Event commands} (hinv : Current actors h v w)
    (hedit : ∀ id, editOf actors id e = none) (hread : ∀ i id, isReading i id e = false)
    (hkeyed : w'.PlansKeyed)
    (hplans : ∀ id, (w'.plan id).map Plan.unchecked = (w.plan id).map Plan.unchecked) :
    Current actors (h ++ [e]) v w' := by
  refine ⟨hkeyed, fun i id plan hchecks hplan hfresh => ?_, fun id edit hlast => ?_⟩
  · rw [editedSince_append, hread, hedit] at hfresh
    rw [hplans]
    exact hinv.reads i id plan hchecks hplan (by simpa using hfresh)
  · rw [lastEdit_append, hedit, Option.none_or] at hlast
    rw [hplans]
    exact hinv.edits id edit hlast

/-- A reading of a plan keeps the invariant. -/
private theorem Current.read {i : ι} {id : Uuid} (hinv : Current actors h v w) :
    Current actors (h ++ [(i, ⟨.getPlan id, w.plan id⟩)])
      (Function.update v i (Function.update (v i) id (w.plan id))) w := by
  refine ⟨hinv.keyed, fun j id' plan hchecks hplan hfresh => ?_, fun id' edit hlast => ?_⟩
  · by_cases hsame : i = j ∧ id = id'
    · obtain ⟨rfl, rfl⟩ := hsame
      rw [Function.update_self, Function.update_self] at hplan
      rw [hplan, Option.map_some]
    · have hother : v j id' = some plan := by
        by_cases hj : j = i
        · subst hj
          have hid : id' ≠ id := fun h => hsame ⟨rfl, h.symm⟩
          rwa [Function.update_self, Function.update_of_ne hid] at hplan
        · rwa [Function.update_of_ne hj] at hplan
      have hnot : isReading j id' ((i, ⟨.getPlan id, w.plan id⟩) : ι × Event commands) = false :=
        decide_eq_false hsame
      rw [editedSince_append, hnot] at hfresh
      refine hinv.reads j id' plan hchecks hother ?_
      simpa [editOf] using hfresh
  · rw [lastEdit_append] at hlast
    exact hinv.edits id' edit (by simpa [editOf] using hlast)

/-- An edit keeps the invariant. -/
private theorem Current.edit {e : ι × Event commands} {id : Uuid} {edit : Option Plan}
    (hinv : Current actors h v w) (hread : ∀ i id, isReading i id e = false)
    (hedit : ∀ id', editOf actors id' e = if id = id' then some edit else none)
    (hkeyed : w'.PlansKeyed) (hat : w'.plan id = edit)
    (hother : ∀ id', id' ≠ id → w'.plan id' = w.plan id') : Current actors (h ++ [e]) v w' := by
  refine ⟨hkeyed, fun i id' plan hchecks hplan hfresh => ?_, fun id' edit' hlast => ?_⟩
  · rw [editedSince_append, hread, hedit] at hfresh
    by_cases hid : id = id'
    · simp [hid] at hfresh
    · rw [hother id' (Ne.symm hid)]
      exact hinv.reads i id' plan hchecks hplan (by simpa [hid] using hfresh)
  · rw [lastEdit_append, hedit] at hlast
    by_cases hid : id = id'
    · subst hid
      rw [if_pos rfl, Option.some_or, Option.some.injEq] at hlast
      rw [hat, hlast]
    · rw [if_neg hid, Option.none_or] at hlast
      rw [hother id' (Ne.symm hid)]
      exact hinv.edits id' edit' hlast

private theorem plan_after {o : Op} {a : Answer} {r : o.Res}
    (hw : environment o a w = some (r, w')) (id : Uuid) :
    w'.plan id = (o.plansAfter w).lookup id := by
  rw [World.plan, (after_step hw).plans]

/-- **The step lemma.** -/
private theorem Current.step {i : ι} {o : Op} {a : Answer} {r : o.Res}
    (hinv : Current actors h v w) (hpermits : (planReads (actors i).Checks).Permits (v i) o)
    (hw : environment o a w = some (r, w')) (hcond : NoOverlap actors h (i, ⟨o, r⟩)) :
    GenuinePlans (v i) o r ∧ Current actors (h ++ [(i, ⟨o, r⟩)])
      (Function.update v i ((planReads (actors i).Checks).observe (v i) o r)) w' := by
  have hplans := plan_after hw
  cases o with
  | getPlan id =>
    have hpair : (w.plan id, w) = (r, w') := Option.some.inj hw
    obtain ⟨rfl, rfl⟩ := Prod.mk.inj hpair
    exact ⟨fun plan hplan => hinv.keyed id plan hplan, hinv.read⟩
  | planIds =>
    have hpair : (w.plans.keys, w) = (r, w') := Option.some.inj hw
    obtain ⟨rfl, rfl⟩ := Prod.mk.inj hpair
    refine ⟨w.plans.keys_nodup, ?_⟩
    have hsame : Function.update v i (v i) = v := Function.update_eq_self i v
    exact hsame.symm ▸ hinv.quiet (fun _ => rfl) (fun _ _ => rfl) hinv.keyed fun _ => rfl
  | setPlan plan =>
    refine ⟨trivial, ?_⟩
    have hsame : Function.update v i (v i) = v := Function.update_eq_self i v
    have hat : w'.plan plan.id = some plan := (hplans _).trans (AList.lookup_insert w.plans)
    have hother : ∀ id, id ≠ plan.id → w'.plan id = w.plan id := fun id hid =>
      (hplans id).trans (AList.lookup_insert_ne hid)
    have hkeyed : w'.PlansKeyed := by
      intro id stored hstored
      by_cases hid : id = plan.id
      · subst hid
        rw [hat] at hstored
        rw [Option.some.inj hstored]
      · exact hinv.keyed id stored ((hother id hid).symm.trans hstored)
    refine hsame.symm ▸ ?_
    cases hchecks : (actors i).Checks with
    | true =>
      -- a check stores what is there, but for its result
      rw [hchecks] at hpermits
      obtain ⟨read, hread, hunchecked⟩ := hpermits rfl
      have hfresh : editedSince actors i plan.id h = false := by
        simpa [NoOverlap, upToDate, hchecks] using hcond
      have hcurrent := hinv.reads i plan.id read hchecks hread hfresh
      refine hinv.quiet ?_ (fun _ _ => rfl) hkeyed fun id => ?_
      · intro id
        simp [editOf, hchecks]
      · by_cases hid : id = plan.id
        · rw [hid, hat, hcurrent, Option.map_some, hunchecked]
        · rw [hother id hid]
    | false =>
      refine hinv.edit (fun _ _ => rfl) (fun id => ?_) hkeyed hat hother
      simp [editOf, hchecks]
  | delPlan id =>
    refine ⟨trivial, ?_⟩
    have hsame : Function.update v i (v i) = v := Function.update_eq_self i v
    have hat : w'.plan id = none := (hplans id).trans (AList.lookup_erase id w.plans)
    have hother : ∀ id', id' ≠ id → w'.plan id' = w.plan id' := fun id' hid =>
      (hplans id').trans (AList.lookup_erase_ne hid)
    have hkeyed : w'.PlansKeyed := by
      intro id' stored hstored
      by_cases hid : id' = id
      · rw [hid, hat] at hstored
        cases hstored
      · exact hinv.keyed id' stored ((hother id' hid).symm.trans hstored)
    exact hsame.symm ▸ hinv.edit (fun _ _ => rfl) (fun _ => rfl) hkeyed hat hother
  | _ =>
    refine ⟨trivial, ?_⟩
    have hsame : Function.update v i (v i) = v := Function.update_eq_self i v
    have hkept : ∀ id, w'.plan id = w.plan id := fun id => hplans id
    refine hsame.symm ▸ hinv.quiet (fun _ => rfl) (fun _ _ => rfl) ?_ fun id => by rw [hkept]
    exact fun id plan hplan => hinv.keyed id plan ((hkept id).symm.trans hplan)

/-- An editor may do as it likes. -/
private theorem editor_onProtocol {q : Prog Unit} {m : Uuid → Option Plan} :
    Satisfies ((planReads false).guarded GenuinePlans) (fun _ _ => True) m q := by
  refine satisfies_of_permits fun m o => ?_
  cases o with
  | setPlan plan => exact fun hchecks => by cases hchecks
  | delPlan id => exact rfl
  | _ => exact trivial

private theorem planProgram_onProtocol {actor : PlanActor} {m : Uuid → Option Plan} :
    Satisfies ((planReads actor.Checks).guarded GenuinePlans) (fun _ _ => True) m
      (actor.program cfg mt) := by
  cases actor with
  | check planId atOrBefore =>
    rw [PlanActor.program, satisfies_bind]
    refine apiCheckPlan_onProtocol.mono fun out m' _ => ?_
    cases out with
    | error e => exact then_error.mpr trivial
    | ok result => exact then_ok.mpr (satisfies_ret.mpr trivial)
  | tick =>
    rw [PlanActor.program, tickPlanReadiness, map_eq_bind, satisfies_bind, satisfies_bind]
    refine readinessTick_onProtocol.mono fun out m' _ => ?_
    cases out with
    | error e => exact then_error.mpr (then_error.mpr trivial)
    | ok checks =>
      exact then_ok.mpr (satisfies_ret.mpr (then_ok.mpr (satisfies_ret.mpr trivial)))
  | update planId payload => exact editor_onProtocol
  | delete planId => exact editor_onProtocol

/-- **Edits survive checks** with which they do not overlap: but for results of checks, the stored
plan is as its last edit has left it, and a deleted plan stays deleted. -/
theorem edits_survive (hkeyed : w₀.PlansKeyed)
    (hrun : Interleaved environment (NoOverlap actors)
      (fun i => (actors i).program cfg mt) w₀ h p w)
    {id : Uuid} {edit : Option Plan} (hlast : lastEdit actors id h = some edit) :
    (w.plan id).map Plan.unchecked = edit.map Plan.unchecked := by
  have hinit : Current actors [] (fun _ _ => none) w₀ :=
    ⟨hkeyed, fun _ _ _ _ hread _ => (by cases hread), fun _ _ hnone => (by cases hnone)⟩
  obtain ⟨v, hinv⟩ := hrun.invariant (fun i => planReads (actors i).Checks) GenuinePlans
    (Current actors) (fun _ => planProgram_onProtocol) hinit
    fun _ _ _ _ _ _ _ _ hinv hpermits hw hcond => hinv.step hpermits hw hcond
  exact hinv.edits id edit hlast

end Run

/-! ### A lost edit -/

/-- A plan, as it is before the edits. -/
private def editedPlan : Plan := { id := 1, name := "old", groupIds := [2], locationId := 3 }

/-- A world with the plan and little else. -/
private def editedWorld : World where
  plans := (∅ : AList fun _ : Uuid => Plan).insert 1 editedPlan

private theorem editedWorld_keyed : editedWorld.PlansKeyed := by
  intro id plan hplan
  by_cases hid : id = 1
  · subst hid
    have hlookup : editedWorld.plan 1 = some editedPlan := AList.lookup_insert _
    rw [hlookup] at hplan
    exact Option.some.inj hplan ▸ rfl
  · have hnone : editedWorld.plan id = none := by
      rw [World.plan, editedWorld, AList.lookup_insert_ne hid]
      rfl
    rw [hnone] at hplan
    cases hplan

/-- A check, a renaming and a deletion of the plan. -/
private def editors : Fin 3 → PlanActor
  | 0 => .check 1 ""
  | 1 => .update 1 { name := some "new" }
  | 2 => .delete 1

/-- A check that reads the plan, then the steps `edit`, and then the rest of the check. -/
private def aroundEdit (edit : List (Fin 3)) : List (Fin 3 × Answer) :=
  ([0] ++ edit ++ List.replicate 10 0).map fun i => (i, .ok)

/-- The last edit of the plan may be undone by the end of a check. -/
private def EditUndone (edit : Option Plan) : Prop :=
  ∃ h p w,
    Interleaved environment (fun _ _ => True) (fun i => (editors i).program {} .unused)
      editedWorld h p w ∧
    (p 0).isDone = true ∧ lastEdit editors 1 h = some edit ∧
      (w.plan 1).map Plan.unchecked ≠ edit.map Plan.unchecked

private theorem editUndone_of_steps {edit : Option Plan} (steps : List (Fin 3))
    (hshown : (interleave environment (fun _ _ => true) (aroundEdit steps) []
      (fun i => (editors i).program {} .unused) editedWorld).any (fun end_ =>
        (end_.2.1 0).isDone && lastEdit editors 1 end_.1 == some edit &&
          (end_.2.2.plan 1).map Plan.unchecked != edit.map Plan.unchecked) = true) :
    EditUndone edit := by
  obtain ⟨h, p, w, hrun, hend⟩ := exists_interleaved (fun _ _ _ => trivial) hshown
  simp only [Bool.and_eq_true, beq_iff_eq, bne_iff_ne] at hend
  exact ⟨h, p, w, hrun, hend.1.1, hend.1.2, hend.2⟩

/-- A check undoes the renaming, or the deletion, that comes after its reading of the plan. -/
theorem check_undoes_edits :
    EditUndone (some { editedPlan with name := "new" }) ∧ EditUndone none :=
  ⟨editUndone_of_steps [1, 1] (by decide +kernel), editUndone_of_steps [2] (by decide +kernel)⟩

/-- A check that reads the plan after the renaming keeps it. -/
theorem edits_survive_later_check : ∃ h p w,
    Interleaved environment (NoOverlap editors) (fun i => (editors i).program {} .unused)
      editedWorld h p w ∧
    (p 0).isDone = true ∧ (w.plan 1).map Plan.unchecked = some { editedPlan with name := "new" } := by
  let steps : List (Fin 3) := [1, 1] ++ List.replicate 11 0
  have hshown : (interleave environment (upToDate editors) (steps.map fun i => (i, Answer.ok)) []
      (fun i => (editors i).program {} .unused) editedWorld).any (fun end_ =>
        (end_.2.1 0).isDone &&
          lastEdit editors 1 end_.1 == some (some { editedPlan with name := "new" })) = true := by
    decide +kernel
  have hcheck : ∀ h e, upToDate editors h e = true → NoOverlap editors h e := fun _ _ h => h
  obtain ⟨h, p, w, hrun, hend⟩ := exists_interleaved hcheck hshown
  simp only [Bool.and_eq_true, beq_iff_eq] at hend
  exact ⟨h, p, w, hrun, hend.1, edits_survive editedWorld_keyed hrun hend.2⟩

end RestoreEngine
