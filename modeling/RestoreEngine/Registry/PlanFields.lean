import RestoreEngine.Registry.Rules

/-!
# The fields of a stored plan

A stored plan is in a normal form (`NormalPlan`): each field has a value that its rule reads back. So
an update keeps the fields that it does not name. They go through a merge, the rules and two rounds
of restoring, and come out as they were (`updatePlan_frame`).
-/

namespace RestoreEngine

open Effects

variable {payload existing d : Dict} {planId now key : String} {v x : Json}

/-! ### Entries -/

namespace Dict

@[simp] theorem set_self : d.set key v key = some v := if_pos rfl

theorem set_of_ne {other : String} (h : other ≠ key) : d.set key v other = d other := if_neg h

theorem overlay_of_none (h : payload key = none) : existing.overlay payload key = existing key := by
  rw [overlay, h, Option.none_or]

theorem overlay_of_some (h : payload key = some v) : existing.overlay payload key = some v := by
  rw [overlay, h, Option.some_or]

/-- Laying entries over a dictionary sets them, the last one first. -/
theorem overlay_ofFields (d : Dict) (fields : List (String × Json)) :
    d.overlay (ofFields fields) = fields.foldr (fun e d => d.set e.1 e.2) d := by
  induction fields with
  | nil => rfl
  | cons e fields ih =>
    funext key
    rw [List.foldr_cons, set, ← ih, overlay, ofFields, List.lookup_cons]
    by_cases h : key = e.1
    · rw [if_pos h, beq_iff_eq.mpr h, Option.some_or]
    · rw [if_neg h, beq_eq_false_iff_ne.mpr h, overlay, ofFields]

/-- **The fields of a payload**: each comes from its rule, and there are no others. -/
theorem fieldsOf_spec {rules : List (String × FieldRule)} {fields : List (String × Json)}
    (hkeys : (rules.map Prod.fst).Nodup) (h : payload.fieldsOf rules = .ok fields) :
    (∀ e ∈ rules, ∃ v, e.2 (payload e.1) = .ok v ∧ fields.lookup e.1 = some v) ∧
      ∀ key, (∀ e ∈ rules, e.1 ≠ key) → fields.lookup key = none := by
  induction rules generalizing fields with
  | nil =>
    obtain rfl := Except.ok.inj h
    exact ⟨fun e he => absurd he List.not_mem_nil, fun _ _ => rfl⟩
  | cons rule rules ih =>
    obtain ⟨v, hv, h⟩ := of_bind_ok h
    obtain ⟨rest, hrest, h⟩ := of_bind_ok h
    obtain rfl := Except.ok.inj h
    rw [List.map_cons, List.nodup_cons] at hkeys
    obtain ⟨hmem, hother⟩ := ih hkeys.2 hrest
    constructor
    · intro e he
      rcases List.mem_cons.mp he with rfl | he
      · exact ⟨v, hv, List.lookup_cons_self⟩
      · obtain ⟨u, hu, hlookup⟩ := hmem e he
        -- The keys differ, so the head does not hide the field.
        have hne : e.1 ≠ rule.1 := by
          intro heq
          exact hkeys.1 (heq ▸ List.mem_map_of_mem he)
        refine ⟨u, hu, ?_⟩
        rw [List.lookup_cons, beq_eq_false_iff_ne.mpr hne]
        exact hlookup
    · intro key hkey
      have hne : key ≠ rule.1 := (hkey rule List.mem_cons_self).symm
      rw [List.lookup_cons, beq_eq_false_iff_ne.mpr hne]
      exact hother key fun e he => hkey e (List.mem_cons_of_mem _ he)

end Dict

/-! ### Shaped plans -/

private theorem planRules_keys : (planRules.map Prod.fst).Nodup := by
  decide

private theorem groupIds_mem : ("group_ids", FieldRule.groupIds) ∈ planRules := by
  simp [planRules]

private theorem locationId_mem :
    ("location_id", FieldRule.required "location_id is required") ∈ planRules := by
  simp [planRules]

private theorem verification_mem : ("verification", FieldRule.verification) ∈ planRules := by
  simp [planRules]

private theorem lastCheck_mem : ("last_check", FieldRule.lastCheck) ∈ planRules := by
  simp [planRules]

private theorem orBlank_mem :
    ∀ key ∈ ["last_scheduled_run_at", "assurance_updated_at", "assurance_last_run_id",
      "last_check_at", "last_run_at", "last_run_report_id", "last_check_report_id", "created_at",
      "updated_at"], (key, FieldRule.orBlank) ∈ planRules := by
  simp [planRules]

/-- **A shaped plan** has its id, the fields of the rules with values that these read back, and
nothing else. -/
structure ShapedPlan (planId : String) (d : Dict) : Prop where
  id : d "id" = some (.str planId)
  fields : ∀ e ∈ planRules, ∃ v, d e.1 = some v ∧ e.2 (some v) = .ok v
  only : ∀ key, key ≠ "id" → (∀ e ∈ planRules, e.1 ≠ key) → d key = none

/-- The fields of a normalized plan come from their rules. -/
theorem normalizePlan_fields (h : payload.normalizePlan planId = .ok d) :
    ∀ e ∈ planRules, ∃ v, e.2 (payload e.1) = .ok v ∧ d e.1 = some v := by
  obtain ⟨fields, hfields, h⟩ := of_bind_ok h
  obtain rfl := Except.ok.inj h
  intro e he
  obtain ⟨v, hv, hlookup⟩ := (Dict.fieldsOf_spec planRules_keys hfields).1 e he
  have hid : ∀ e ∈ planRules, e.1 ≠ "id" := by decide
  refine ⟨v, hv, ?_⟩
  rw [Dict.ofFields, List.lookup_cons, beq_eq_false_iff_ne.mpr (hid e he)]
  exact hlookup

/-- A field of a normalized plan, by its key. -/
theorem normalizePlan_field {rule : FieldRule} (h : payload.normalizePlan planId = .ok d)
    (hmem : (key, rule) ∈ planRules) : ∃ v, rule (payload key) = .ok v ∧ d key = some v :=
  normalizePlan_fields h (key, rule) hmem

theorem normalizePlan_shaped (h : payload.normalizePlan planId = .ok d) : ShapedPlan planId d := by
  refine ⟨?_, ?_, ?_⟩
  · obtain ⟨fields, hfields, h⟩ := of_bind_ok h
    obtain rfl := Except.ok.inj h
    rfl
  · intro e he
    obtain ⟨v, hv, hd⟩ := normalizePlan_fields h e he
    exact ⟨v, hd, planRules_stable e he _ v hv⟩
  · intro key hid hkey
    obtain ⟨fields, hfields, h⟩ := of_bind_ok h
    obtain rfl := Except.ok.inj h
    rw [Dict.ofFields, List.lookup_cons, beq_eq_false_iff_ne.mpr hid]
    exact (Dict.fieldsOf_spec planRules_keys hfields).2 key hkey

namespace ShapedPlan

variable {rule : FieldRule}

/-- The field of a rule, by its key. -/
theorem field (hd : ShapedPlan planId d) (hmem : (key, rule) ∈ planRules) :
    ∃ v, d key = some v ∧ rule (some v) = .ok v :=
  hd.fields (key, rule) hmem

theorem set (hd : ShapedPlan planId d) (hmem : (key, rule) ∈ planRules)
    (hv : rule (some v) = .ok v) : ShapedPlan planId (d.set key v) := by
  have hid : ∀ e ∈ planRules, e.1 ≠ "id" := by decide
  refine ⟨?_, ?_, ?_⟩
  · rw [Dict.set_of_ne (hid (key, rule) hmem).symm, hd.id]
  · intro e he
    by_cases hkey : e.1 = key
    · obtain rfl : e = (key, rule) := List.inj_on_of_nodup_map planRules_keys he hmem hkey
      exact ⟨v, Dict.set_self, hv⟩
    · rw [Dict.set_of_ne hkey]
      exact hd.fields e he
  · intro other hne hother
    rw [Dict.set_of_ne (hother (key, rule) hmem).symm]
    exact hd.only other hne hother

theorem set_id (hd : ShapedPlan planId d) : ShapedPlan planId (d.set "id" (.str planId)) := by
  have hid : ∀ e ∈ planRules, e.1 ≠ "id" := by decide
  refine ⟨Dict.set_self, ?_, ?_⟩
  · intro e he
    rw [Dict.set_of_ne (hid e he)]
    exact hd.fields e he
  · intro key hne hkey
    rw [Dict.set_of_ne hne]
    exact hd.only key hne hkey

/-- Fields with values that their rules read back may be laid over a shaped plan. -/
theorem overlay (hd : ShapedPlan planId d) {fields : List (String × Json)}
    (hfields : ∀ e ∈ fields, ∃ rule, (e.1, rule) ∈ planRules ∧ rule (some e.2) = .ok e.2) :
    ShapedPlan planId (d.overlay (Dict.ofFields fields)) := by
  rw [Dict.overlay_ofFields]
  induction fields with
  | nil => exact hd
  | cons e fields ih =>
    obtain ⟨rule, hmem, hv⟩ := hfields e List.mem_cons_self
    exact (ih fun e he => hfields e (List.mem_cons_of_mem _ he)).set hmem hv

theorem saveEntity (hd : ShapedPlan planId d) : ShapedPlan planId (d.saveEntity planId now) := by
  have hnow : FieldRule.orBlank (some (.str now)) = .ok (.str now) :=
    FieldRule.orBlank_text now
  have hupdated : ShapedPlan planId ((d.set "id" (.str planId)).set "updated_at" (.str now)) :=
    hd.set_id.set (orBlank_mem _ (by decide)) hnow
  unfold Dict.saveEntity
  dsimp only
  split_ifs with hcreated
  · exact hupdated
  · exact hupdated.set (orBlank_mem _ (by decide)) hnow

theorem entityId (hd : ShapedPlan planId d) : d.entityId = planId := by
  rw [Dict.entityId, hd.id]

end ShapedPlan

/-! ### Stored plans -/

/-- **The normal form of a stored plan**: it is shaped, and it has an instant of creation. -/
structure NormalPlan (planId : String) (d : Dict) : Prop extends ShapedPlan planId d where
  created : ((d "created_at").filter Json.truthy).isSome

/-- What is saved has an instant of creation. -/
theorem ShapedPlan.saved (hd : ShapedPlan planId d) (hnow : now ≠ "") :
    NormalPlan planId (d.saveEntity planId now) := by
  refine ⟨hd.saveEntity, ?_⟩
  unfold Dict.saveEntity
  split_ifs with hcreated
  · exact hcreated
  · rw [Dict.set_self, Option.filter_some, if_pos (FieldRule.truthy_str hnow)]
    rfl

/-- **A plan record**, as `create_plan` and the functions that store plans again make it. -/
inductive ProducedPlan (planId : String) : Dict → Prop
  | create {payload d : Dict} {now : String} (hnow : now ≠ "")
      (h : payload.createPlan planId now = .ok d) : ProducedPlan planId d
  | update {existing payload d : Dict} {now : String} (hnow : now ≠ "")
      (hplan : ProducedPlan planId existing)
      (h : payload.updatePlan (some existing) planId now = .ok d) : ProducedPlan planId d
  | check {plan : Dict} {now : String} (check : List (String × Json)) (report : Option String)
      (hnow : now ≠ "") (hplan : ProducedPlan planId plan) :
      ProducedPlan planId (plan.applyCheckResult check now report)
  | start {plan : Dict} {now : String} (hnow : now ≠ "") (hplan : ProducedPlan planId plan) :
      ProducedPlan planId (plan.startPlanRun now)
  | assurance {plan : Dict} {now : String} (status : PlanAssurance) (detail : String)
      (rto : Option ℤ) (runId : String) (finishedAt : Json) (hnow : now ≠ "")
      (hplan : ProducedPlan planId plan) :
      ProducedPlan planId (plan.applyAssurance status detail rto runId finishedAt now)
  | scheduled {plan : Dict} {now : String} (hnow : now ≠ "")
      (hplan : ProducedPlan planId plan) : ProducedPlan planId (plan.markScheduled now)
  | reported {plan : Dict} {now : String} (report : String) (hnow : now ≠ "")
      (hplan : ProducedPlan planId plan) : ProducedPlan planId (plan.attachRunReport report now)

/-! ### Updates -/

/-- What the later steps of an update keep of the dictionary that they begin with: the fields that
the payload does not name, and the membership, the verification and the creation in any case. -/
structure Carried (planId : String) (payload base data : Dict) : Prop where
  shaped : ShapedPlan planId data
  unnamed : ∀ key, payload key = none → key ≠ "updated_at" → data key = base key
  settled : ∀ key ∈ ["group_ids", "location_id", "verification", "created_at"], data key = base key

namespace Carried

variable {base data : Dict} {rule : FieldRule}

theorem set (hdata : Carried planId payload base data) (hmem : (key, rule) ∈ planRules)
    (hv : rule (some v) = .ok v)
    (hkey : key ∉ ["group_ids", "location_id", "verification", "created_at"])
    (hunnamed : payload key = none → key ≠ "updated_at" → base key = some v) :
    Carried planId payload base (data.set key v) := by
  refine ⟨hdata.shaped.set hmem hv, ?_, ?_⟩
  · intro other hnone hne
    by_cases hother : other = key
    · subst hother
      rw [Dict.set_self, hunnamed hnone hne]
    · rw [Dict.set_of_ne hother]
      exact hdata.unnamed other hnone hne
  · intro other hother
    have hne : other ≠ key := by
      rintro rfl
      exact hkey hother
    rw [Dict.set_of_ne hne]
    exact hdata.settled other hother

/-- A round of sets. -/
theorem foldl {set : Dict → String → Dict} {keys : List String}
    (hset : ∀ data, ∀ key ∈ keys, Carried planId payload base data →
      Carried planId payload base (set data key))
    (hdata : Carried planId payload base data) :
    Carried planId payload base (keys.foldl set data) := by
  induction keys generalizing data with
  | nil => exact hdata
  | cons key keys ih =>
    refine ih (fun data key hkey => hset data key (List.mem_cons_of_mem _ hkey)) ?_
    exact hset data key List.mem_cons_self hdata

end Carried

section updates

variable {normal data : Dict} {changed : Bool}

private theorem mergePlan_of_none (hnone : payload key = none) (hid : key ≠ "id")
    (hverification : key ≠ "verification") :
    existing.mergePlan payload planId changed key = existing key := by
  have hmerged : (existing.overlay payload).set "id" (.str planId) key = existing key := by
    rw [Dict.set_of_ne hid, Dict.overlay_of_none hnone]
  unfold Dict.mergePlan
  split_ifs
  · rw [Dict.set_of_ne hverification, hmerged]
  · exact hmerged

private theorem mergePlan_of_some (hsome : payload key = some v) (hid : key ≠ "id") :
    existing.mergePlan payload planId changed key = some v := by
  have hmerged : (existing.overlay payload).set "id" (.str planId) key = some v := by
    rw [Dict.set_of_ne hid, Dict.overlay_of_some hsome]
  unfold Dict.mergePlan
  split_ifs with hset
  · rw [Dict.set_of_ne, hmerged]
    rintro rfl
    rw [hsome, Option.isNone_some, Bool.and_false] at hset
    cases hset
  · exact hmerged

private theorem mergePlan_verification (hnone : payload "verification" = none) :
    existing.mergePlan payload planId changed "verification" =
      if changed then some (.str "NEEDS_VERIFIED") else existing "verification" := by
  unfold Dict.mergePlan
  rw [hnone, Option.isNone_none, Bool.and_true]
  split_ifs
  · rw [Dict.set_self]
  · rw [Dict.set_of_ne (by decide), Dict.overlay_of_none hnone]

/-- A field that the payload does not name passes through the merge and the rules. -/
private theorem normal_of_none (hplan : NormalPlan planId existing)
    (hnormal : (existing.mergePlan payload planId changed).normalizePlan planId = .ok normal)
    (hnone : payload key = none) (hverification : key ≠ "verification") :
    normal key = existing key := by
  by_cases hid : key = "id"
  · rw [hid, hplan.id, (normalizePlan_shaped hnormal).id]
  · by_cases hkey : ∃ e ∈ planRules, e.1 = key
    · obtain ⟨e, he, rfl⟩ := hkey
      obtain ⟨v, hv, hrule⟩ := hplan.fields e he
      obtain ⟨x, hx, hnormalKey⟩ := normalizePlan_fields hnormal e he
      rw [mergePlan_of_none hnone hid hverification, hv, hrule] at hx
      rw [hnormalKey, hv, Except.ok.inj hx]
    · have hother : ∀ e ∈ planRules, e.1 ≠ key := fun e he heq => hkey ⟨e, he, heq⟩
      rw [hplan.only key hid hother, (normalizePlan_shaped hnormal).only key hid hother]

/-- The first value of the two that counts as true is read back by `or ""`. -/
private theorem orBlank_firstOr (merged : Dict) :
    FieldRule.orBlank (some (merged.firstOr existing key)) =
      .ok (merged.firstOr existing key) :=
  FieldRule.orBlank_orDefault _ (FieldRule.orBlank_stable _ _ rfl)

/-- A stored plan has an instant of creation, which the update puts back. -/
private theorem getOr_created (hplan : NormalPlan planId existing) :
    existing "created_at" = some (existing.getOr "created_at" (.str "")) := by
  have hcreated := hplan.created
  cases h : existing "created_at" with
  | none =>
    rw [h] at hcreated
    cases hcreated
  | some v =>
    by_cases hv : v.truthy = true
    · rw [Dict.getOr, h, Option.filter_some, if_pos hv, Option.getD_some]
    · rw [h, Option.filter_some, if_neg hv] at hcreated
      cases hcreated

private theorem base_of_none (hplan : NormalPlan planId existing)
    (hnormal : (existing.mergePlan payload planId changed).normalizePlan planId = .ok normal)
    (hnone : payload key = none) (hverification : key ≠ "verification") :
    normal.set "created_at" (existing.getOr "created_at" (.str "")) key = existing key := by
  by_cases hcreated : key = "created_at"
  · rw [hcreated, Dict.set_self]
    exact (getOr_created hplan).symm
  · rw [Dict.set_of_ne hcreated, normal_of_none hplan hnormal hnone hverification]

/-- The instants and the reports. -/
private theorem carried_time {base merged : Dict}
    (hmerged : merged = existing.mergePlan payload planId changed)
    (hplan : NormalPlan planId existing)
    (hbase : ∀ key, payload key = none → key ≠ "verification" → base key = existing key)
    (hmem : (key, FieldRule.orBlank) ∈ planRules)
    (hkey : key ∉ ["group_ids", "location_id", "verification", "created_at"])
    (hdata : Carried planId payload base data) :
    Carried planId payload base (data.set key (merged.firstOr existing key)) := by
  refine hdata.set hmem (orBlank_firstOr merged) hkey fun hnone hne => ?_
  have hverification : key ≠ "verification" := by
    rintro rfl
    exact hkey (by decide)
  have hid : key ≠ "id" := by
    rintro rfl
    exact absurd hmem (by simp [planRules])
  obtain ⟨v, hv, hrule⟩ := hplan.field hmem
  -- Both the merged value and the stored one are the same `v`.
  have hfirst : merged.firstOr existing key = FieldRule.orDefault (some v) (.str "") := by
    rw [Dict.firstOr, hmerged, mergePlan_of_none hnone hid hverification, Dict.getOr, hv,
      FieldRule.orDefault]
    cases (some v).filter Json.truthy <;> rfl
  rw [hbase key hnone hverification, hv, hfirst]
  exact congrArg some (Except.ok.inj hrule).symm

/-- The outcomes of the assurance. -/
private theorem carried_assurance {base : Dict} {rule : FieldRule}
    (hplan : NormalPlan planId existing)
    (hbase : ∀ key, payload key = none → key ≠ "verification" → base key = existing key)
    (hmem : (key, rule) ∈ planRules)
    (hkey : key ∉ ["group_ids", "location_id", "verification", "created_at"])
    (hdata : Carried planId payload base data) :
    Carried planId payload base (payload.restoreAssurance existing data key) := by
  unfold Dict.restoreAssurance
  split
  · exact hdata
  · exact hdata
  · exact hdata
  · next v _ _ hnone hexisting =>
    obtain ⟨v', hv', hrule⟩ := hplan.field hmem
    obtain rfl := Option.some.inj (hexisting.symm.trans hv')
    refine hdata.set hmem hrule hkey fun hnone hne => ?_
    have hverification : key ≠ "verification" := by
      rintro rfl
      exact hkey (by decide)
    rw [hbase key hnone hverification, hexisting]
  · exact hdata

/-- The last check. -/
private theorem carried_lastCheck {base merged : Dict}
    (hmerged : merged = existing.mergePlan payload planId changed)
    (hbase : ∀ key, payload key = none → key ≠ "verification" → base key = existing key)
    (hdata : Carried planId payload base data) :
    Carried planId payload base
      (match (merged "last_check").filter Json.isObj, (existing "last_check").filter Json.isObj with
      | some check, _ => data.set "last_check" check
      | none, some check => data.set "last_check" check
      | none, none => data) := by
  have hset : ∀ check : Json, check.isObj = true →
      (payload "last_check" = none → existing "last_check" = some check) →
      Carried planId payload base (data.set "last_check" check) := by
    intro check hobj hexisting
    refine hdata.set lastCheck_mem ?_ (by decide) fun hnone _ => ?_
    · rw [FieldRule.lastCheck, Option.filter_some, if_pos hobj, Option.getD_some]
    · rw [hbase _ hnone (by decide), hexisting hnone]
  split
  · next check h =>
    obtain ⟨hcheck, hobj⟩ := Option.filter_eq_some_iff.mp h
    refine hset check hobj fun hnone => ?_
    rw [← hcheck, hmerged, mergePlan_of_none hnone (by decide) (by decide)]
  · next check _ h =>
    obtain ⟨hcheck, hobj⟩ := Option.filter_eq_some_iff.mp h
    exact hset check hobj fun _ => hcheck
  · exact hdata

private theorem carried_restorePlan (hplan : NormalPlan planId existing)
    (hnormal : (existing.mergePlan payload planId changed).normalizePlan planId = .ok normal) :
    Carried planId payload (normal.set "created_at" (existing.getOr "created_at" (.str "")))
      (payload.restorePlan existing (existing.mergePlan payload planId changed) normal) := by
  have hbase : ∀ key, payload key = none → key ≠ "verification" →
      normal.set "created_at" (existing.getOr "created_at" (.str "")) key = existing key :=
    fun _ => base_of_none hplan hnormal
  have hstart : Carried planId payload
      (normal.set "created_at" (existing.getOr "created_at" (.str "")))
      (normal.set "created_at" (existing.getOr "created_at" (.str ""))) := by
    refine ⟨?_, fun _ _ _ => rfl, fun _ _ => rfl⟩
    exact (normalizePlan_shaped hnormal).set (orBlank_mem _ (by decide))
      (FieldRule.orBlank_stable _ _ rfl)
  unfold Dict.restorePlan
  refine carried_lastCheck rfl hbase (Carried.foldl ?_ (Carried.foldl ?_ hstart))
  · intro data key hkey hdata
    have hrules : ∀ key ∈ ["assurance_status", "assurance_updated_at", "assurance_last_run_id",
        "assurance_last_rto_sec", "assurance_detail"],
        (∃ rule, (key, rule) ∈ planRules) ∧
          key ∉ ["group_ids", "location_id", "verification", "created_at"] := by
      simp [planRules]
    obtain ⟨⟨rule, hmem⟩, hnot⟩ := hrules key hkey
    exact carried_assurance hplan hbase hmem hnot hdata
  · intro data key hkey hdata
    have hrules : ∀ key ∈ ["last_check_at", "last_run_at", "last_scheduled_run_at",
        "last_run_report_id", "last_check_report_id"],
        (key, FieldRule.orBlank) ∈ planRules ∧
          key ∉ ["group_ids", "location_id", "verification", "created_at"] := by
      simp [planRules]
    obtain ⟨hmem, hnot⟩ := hrules key hkey
    exact carried_time rfl hplan hbase hmem hnot hdata

/-- Saving a record again writes the instant of the update only. -/
private theorem saveEntity_of_created (hid : d "id" = some (.str planId))
    (hcreated : ((d "created_at").filter Json.truthy).isSome) (hkey : key ≠ "updated_at") :
    d.saveEntity planId now key = d key := by
  have hset : ((d.set "id" (.str planId)).set "updated_at" (.str now)) key = d key := by
    rw [Dict.set_of_ne hkey]
    by_cases hkeyId : key = "id"
    · rw [hkeyId, Dict.set_self, hid]
    · rw [Dict.set_of_ne hkeyId]
  have hcreated' : (((d.set "id" (.str planId)).set "updated_at" (.str now) "created_at").filter
      Json.truthy).isSome := by
    rwa [Dict.set_of_ne (by decide), Dict.set_of_ne (by decide)]
  rw [Dict.saveEntity, if_pos hcreated', hset]

/-- The parts of an update. -/
private theorem updatePlan_parts (hplan : NormalPlan planId existing)
    (h : payload.updatePlan (some existing) planId now = .ok d) :
    ∃ groupsChanged locationChanged normal,
      payload.changesGroups existing = .ok groupsChanged ∧
      payload.changesLocation existing = .ok locationChanged ∧
      (existing.mergePlan payload planId (groupsChanged || locationChanged)).normalizePlan planId =
        .ok normal ∧
      NormalPlan planId d ∧
      (∀ key, payload key = none → key ≠ "updated_at" → key ≠ "verification" →
        d key = existing key) ∧
      ∀ key ∈ ["group_ids", "location_id", "verification"], d key = normal key := by
  obtain ⟨groupsChanged, hgroups, h⟩ := of_bind_ok h
  obtain ⟨locationChanged, hlocation, h⟩ := of_bind_ok h
  obtain ⟨normal, hnormal, h⟩ := of_bind_ok h
  obtain rfl := Except.ok.inj h
  have hcarried := carried_restorePlan hplan hnormal
  generalize payload.restorePlan existing _ normal = data at hcarried
  have hcreated : ((data "created_at").filter Json.truthy).isSome := by
    rw [hcarried.settled _ (by decide), Dict.set_self, ← getOr_created hplan]
    exact hplan.created
  have hkeep : ∀ key, key ≠ "updated_at" → data.saveEntity planId now key = data key :=
    fun key hkey => saveEntity_of_created hcarried.shaped.id hcreated hkey
  refine ⟨groupsChanged, locationChanged, normal, hgroups, hlocation, hnormal,
    ⟨hcarried.shaped.saveEntity, ?_⟩, ?_, ?_⟩
  · rwa [hkeep _ (by decide)]
  · intro key hnone hupdated hverification
    rw [hkeep key hupdated, hcarried.unnamed key hnone hupdated,
      base_of_none hplan hnormal hnone hverification]
  · intro key hkey
    have hne : ∀ key ∈ ["group_ids", "location_id", "verification"],
        key ≠ "updated_at" ∧ key ≠ "created_at" ∧
          key ∈ ["group_ids", "location_id", "verification", "created_at"] := by decide
    obtain ⟨hupdated, hcreatedKey, hmem⟩ := hne key hkey
    rw [hkeep key hupdated, hcarried.settled key hmem, Dict.set_of_ne hcreatedKey]

/-! ### The membership -/

private theorem sameTexts_iff (items : List Json) (texts : List String) :
    Dict.sameTexts items texts = true ↔ items = texts.map .str := by
  induction items generalizing texts with
  | nil => cases texts <;> simp [Dict.sameTexts]
  | cons item items ih =>
    cases texts with
    | nil => cases item <;> simp [Dict.sameTexts]
    | cons text texts => cases item <;> simp [Dict.sameTexts, ih]

/-- Group ids are accepted if they are a value that counts as true and leaves some texts. -/
private theorem groupIds_ok (h : FieldRule.groupIds (some v) = .ok x) :
    ∃ ids, FieldRule.strippedTexts v = .ok ids ∧ x = .arr (ids.map .str) := by
  obtain ⟨ids, hids, h⟩ := of_bind_ok h
  obtain ⟨hne, h⟩ := of_ite_ok h
  by_cases hv : v.truthy = true
  · rw [FieldRule.orDefault_of_truthy hv] at hids
    exact ⟨ids, hids, (Except.ok.inj h).symm⟩
  · rw [FieldRule.orDefault_of_not_truthy ((Bool.not_eq_true _).mp hv)] at hids
    exact absurd (Except.ok.inj hids).symm hne

private theorem changesGroups_iff {b : Bool} (hplan : NormalPlan planId existing)
    (h : payload.changesGroups existing = .ok b)
    (hrule : FieldRule.groupIds ((payload "group_ids").or (existing "group_ids")) = .ok x) :
    b = true ↔ some x ≠ existing "group_ids" := by
  obtain ⟨stored, hstored, hread⟩ := hplan.field groupIds_mem
  rw [hstored] at hrule ⊢
  unfold Dict.changesGroups at h
  split at h
  · next hnone =>
    rw [hnone, Option.none_or, hread] at hrule
    obtain rfl := Except.ok.inj h
    simp [Except.ok.inj hrule]
  · next hnull =>
    rw [hnull] at hrule
    cases hrule
  · next v _ hsome =>
    rw [hsome, Option.some_or] at hrule
    obtain ⟨ids, hids, rfl⟩ := groupIds_ok hrule
    obtain ⟨oldIds, -, rfl⟩ := groupIds_ok hread
    obtain ⟨newIds, hnew, h⟩ := of_bind_ok h
    obtain rfl := Except.ok.inj (hids.symm.trans hnew)
    rw [hstored] at h
    obtain rfl := Except.ok.inj h
    have hsame := sameTexts_iff (oldIds.map .str) ids
    rw [Bool.not_eq_true', Bool.eq_false_iff, Ne, hsame, Ne, Option.some.injEq, Json.arr.injEq,
      eq_comm]

private theorem changesLocation_iff {b : Bool} {message : String}
    (hplan : NormalPlan planId existing)
    (h : payload.changesLocation existing = .ok b)
    (hrule : FieldRule.required message ((payload "location_id").or (existing "location_id")) =
      .ok x) :
    b = true ↔ some x ≠ existing "location_id" := by
  obtain ⟨stored, hstored, hread⟩ := hplan.field locationId_mem
  obtain ⟨text, htext, hread⟩ := of_bind_ok hread
  obtain ⟨hne, hread⟩ := of_ite_ok hread
  obtain rfl := Except.ok.inj hread
  rw [hstored] at hrule ⊢
  unfold Dict.changesLocation at h
  split at h
  · next hnone =>
    obtain rfl := Except.ok.inj h
    rw [hnone, Option.none_or] at hrule
    obtain ⟨text', htext', hrule⟩ := of_bind_ok hrule
    obtain ⟨-, hrule⟩ := of_ite_ok hrule
    obtain rfl := Except.ok.inj hrule
    simp [Except.ok.inj (htext.symm.trans htext')]
  · next w hsome =>
    obtain ⟨location, hlocation, h⟩ := of_bind_ok h
    rw [hstored] at h
    obtain rfl := Except.ok.inj h
    rw [hsome, Option.some_or] at hrule
    obtain ⟨text', htext', hrule⟩ := of_bind_ok hrule
    obtain ⟨-, hrule⟩ := of_ite_ok hrule
    obtain rfl := Except.ok.inj hrule
    -- The merge and the comparison strip the same text.
    rw [Dict.stripOr, Dict.getOr, hsome] at hlocation
    obtain rfl := Except.ok.inj (hlocation.symm.trans htext')
    simp

end updates

/-! ### Plan records -/

private theorem verification_text : ∀ text ∈ FieldRule.verifications,
    FieldRule.verification (some (.str text)) = .ok (.str text) := by
  have hstrip : ∀ text ∈ FieldRule.verifications, Text.strip text = text ∧ text ≠ "" := by decide
  intro text hmem
  rw [FieldRule.verification,
    FieldRule.stripped_orDefault (hstrip text hmem).1 (hstrip text hmem).2]
  exact if_neg (not_not.mpr hmem)

/-- The verification of a plan run's start. -/
private theorem verification_started (hd : ShapedPlan planId d) :
    FieldRule.verification (some d.startedVerification) = .ok d.startedVerification := by
  obtain ⟨v, hv, hread⟩ := hd.field verification_mem
  rw [Dict.startedVerification, Dict.getD, hv, Option.getD_some]
  split
  · exact verification_text _ (by decide)
  · exact hread

/-- **Every plan record is normal.** -/
theorem ProducedPlan.normal (hplan : ProducedPlan planId d) : NormalPlan planId d := by
  induction hplan with
  | create hnow h =>
    obtain ⟨data, hdata, h⟩ := of_bind_ok h
    obtain rfl := Except.ok.inj h
    exact (normalizePlan_shaped hdata).saved hnow
  | update _ _ h ih =>
    obtain ⟨-, -, -, -, -, -, hnormal, -⟩ := updatePlan_parts ih h
    exact hnormal
  | @check plan now check report hnow _ ih =>
    have hchecked : NormalPlan planId (plan.applyCheckResult check now none) := by
      unfold Dict.applyCheckResult
      rw [ih.entityId]
      refine (ih.overlay ?_).saved hnow
      simp only [List.forall_mem_cons]
      refine ⟨⟨.lastCheck, lastCheck_mem, rfl⟩,
        ⟨.orBlank, orBlank_mem _ (by decide), FieldRule.orBlank_text _⟩,
        ⟨.verification, verification_mem, ?_⟩, List.forall_mem_nil _⟩
      split
      · exact verification_text _ (by decide)
      · exact verification_text _ (by decide)
    cases report with
    | none => exact hchecked
    | some report =>
      have hreport := hchecked.set (orBlank_mem "last_check_report_id" (by decide))
        (FieldRule.orBlank_text report)
      have happly : plan.applyCheckResult check now (some report) =
          ((plan.applyCheckResult check now none).set "last_check_report_id"
            (.str report)).saveEntity plan.entityId now := rfl
      rw [happly, ih.entityId]
      exact hreport.saved hnow
  | @start plan now hnow _ ih =>
    unfold Dict.startPlanRun
    rw [ih.entityId]
    refine (ih.overlay ?_).saved hnow
    simp only [List.forall_mem_cons]
    refine ⟨⟨.orBlank, orBlank_mem _ (by decide), FieldRule.orBlank_text _⟩,
      ⟨.verification, verification_mem, verification_started ih.toShapedPlan⟩,
      List.forall_mem_nil _⟩
  | @assurance plan now status detail rto runId finishedAt hnow _ ih =>
    unfold Dict.applyAssurance
    rw [ih.entityId]
    refine (ih.overlay ?_).saved hnow
    simp only [List.forall_mem_cons]
    refine ⟨⟨.assuranceStatus, by simp [planRules], ?_⟩,
      ⟨.orBlank, orBlank_mem _ (by decide), FieldRule.orBlank_text _⟩,
      ⟨.orBlank, orBlank_mem _ (by decide), FieldRule.orBlank_text _⟩,
      ⟨.lastRto, by simp [planRules], ?_⟩, ⟨.detail, by simp [planRules], ?_⟩,
      ⟨.orBlank, orBlank_mem _ (by decide), ?_⟩, List.forall_mem_nil _⟩
    · cases status <;> rfl
    · cases rto <;> rfl
    · exact FieldRule.detail_text detail
    · refine FieldRule.orBlank_orDefault _ ?_
      split_ifs with hfinished
      · rw [FieldRule.orBlank, FieldRule.orDefault_of_truthy hfinished]
      · exact FieldRule.orBlank_text now
  | scheduled hnow _ ih =>
    unfold Dict.markScheduled
    rw [ih.entityId]
    exact (ih.set (orBlank_mem _ (by decide)) (FieldRule.orBlank_text _)).saved hnow
  | reported report hnow _ ih =>
    unfold Dict.attachRunReport
    rw [ih.entityId]
    exact (ih.set (orBlank_mem _ (by decide)) (FieldRule.orBlank_text _)).saved hnow

/-- **An update keeps what it does not name.** Every field that the payload does not name keeps its
stored value, but for the instant of the update and the verification. The verification follows the
payload if that names it. Otherwise it becomes `NEEDS_VERIFIED` if the groups or the location are
no longer the stored ones, and keeps its value if they are. -/
theorem updatePlan_frame (hplan : ProducedPlan planId existing)
    (h : payload.updatePlan (some existing) planId now = .ok d) :
    (∀ key, payload key = none → key ≠ "updated_at" → key ≠ "verification" →
      d key = existing key) ∧
    (∀ v, payload "verification" = some v →
      ∃ x, FieldRule.verification (some v) = .ok x ∧ d "verification" = some x) ∧
    (payload "verification" = none →
      ((d "group_ids" ≠ existing "group_ids" ∨ d "location_id" ≠ existing "location_id") →
        d "verification" = some (.str "NEEDS_VERIFIED")) ∧
      (¬ (d "group_ids" ≠ existing "group_ids" ∨ d "location_id" ≠ existing "location_id") →
        d "verification" = existing "verification")) := by
  obtain ⟨groupsChanged, locationChanged, normal, hgroups, hlocation, hnormal, -, hkeep, hsettled⟩ :=
    updatePlan_parts hplan.normal h
  have hmerged : ∀ key, key ≠ "id" → key ≠ "verification" →
      existing.mergePlan payload planId (groupsChanged || locationChanged) key =
        (payload key).or (existing key) := by
    intro key hid hverification
    cases hkey : payload key with
    | none => rw [mergePlan_of_none hkey hid hverification, Option.none_or]
    | some v => rw [mergePlan_of_some hkey hid, Option.some_or]
  obtain ⟨verified, hverified, hnormalVerified⟩ := normalizePlan_field hnormal
    verification_mem
  refine ⟨hkeep, ?_, ?_⟩
  · intro v hv
    rw [mergePlan_of_some hv (by decide)] at hverified
    exact ⟨verified, hverified, (hsettled _ (by decide)).trans hnormalVerified⟩
  · intro hnone
    -- The flags of the update say whether the settled membership is the stored one.
    obtain ⟨ids, hids, hnormalIds⟩ := normalizePlan_field hnormal groupIds_mem
    obtain ⟨location, hloc, hnormalLocation⟩ := normalizePlan_field hnormal locationId_mem
    rw [hmerged _ (by decide) (by decide)] at hids hloc
    have hchanged : (groupsChanged || locationChanged) = true ↔
        (d "group_ids" ≠ existing "group_ids" ∨ d "location_id" ≠ existing "location_id") := by
      rw [Bool.or_eq_true, changesGroups_iff hplan.normal hgroups hids,
        changesLocation_iff hplan.normal hlocation hloc, hsettled "group_ids" (by decide),
        hsettled "location_id" (by decide), hnormalIds, hnormalLocation]
    rw [mergePlan_verification hnone] at hverified
    rw [← hchanged, hsettled "verification" (by decide), hnormalVerified]
    constructor
    · intro hset
      rw [if_pos hset, verification_text _ (by decide)] at hverified
      rw [Except.ok.inj hverified]
    · intro hset
      obtain ⟨stored, hstored, hread⟩ := hplan.normal.field verification_mem
      rw [if_neg hset, hstored, hread] at hverified
      rw [hstored, Except.ok.inj hverified]

/-- A new plan, checked and moved to another location: the plan before and after the update. -/
private def sampleMove : Except Exn (Dict × Dict) := do
  let payload := Dict.ofFields [("name", .str "Nightly"), ("group_ids", .arr [.str " g1 "]),
    ("location_id", .str "dc2"), ("assurance_status", .str "ASSURED")]
  let created ← payload.createPlan "p1" "2024-01-01T00:00:00+00:00"
  let existing := created.applyCheckResult [("ok", .bool true)] "2024-01-02T00:00:00+00:00" none
  let d ← (Dict.ofFields [("location_id", .str "dc3")]).updatePlan (some existing) "p1"
    "2024-01-03T00:00:00+00:00"
  return (existing, d)

/-- The locations before and after the move differ. -/
private def movesLocation (plans : Dict × Dict) : Bool :=
  match plans.1 "location_id", plans.2 "location_id" with
  | some (.str before), some (.str after) => before ≠ after
  | _, _ => false

private theorem movesLocation_ne {plans : Dict × Dict} (h : movesLocation plans = true) :
    plans.2 "location_id" ≠ plans.1 "location_id" := by
  intro hsame
  unfold movesLocation at h
  rw [hsame] at h
  split at h
  · next before after hbefore hafter =>
    obtain rfl := Json.str.inj (Option.some.inj (hbefore.symm.trans hafter))
    exact of_decide_eq_true h rfl
  · cases h

/-- Moving a verified plan to another location keeps its assurance and drops the verification. -/
theorem updatePlan_frame_moved :
    ∃ existing d : Dict, ProducedPlan "p1" existing ∧
      (Dict.ofFields [("location_id", .str "dc3")]).updatePlan (some existing) "p1"
        "2024-01-03T00:00:00+00:00" = .ok d ∧
      d "assurance_status" = existing "assurance_status" ∧
      d "verification" = some (.str "NEEDS_VERIFIED") := by
  have hmoved : (sampleMove.toOption.map movesLocation) = some true := by decide +kernel
  cases hrun : sampleMove with
  | error =>
    rw [hrun] at hmoved
    cases hmoved
  | ok plans =>
    rw [hrun] at hmoved
    obtain ⟨created, hcreated, hrun⟩ := of_bind_ok hrun
    obtain ⟨d, hupdate, hrun⟩ := of_bind_ok hrun
    obtain rfl := Except.ok.inj hrun
    have hplan : ProducedPlan "p1"
        (created.applyCheckResult [("ok", .bool true)] "2024-01-02T00:00:00+00:00" none) :=
      .check _ none (by decide) (.create (by decide) hcreated)
    have hframe := updatePlan_frame hplan hupdate
    have hmoves := movesLocation_ne (Option.some.inj hmoved)
    exact ⟨_, d, hplan, hupdate, hframe.1 _ rfl (by decide) (by decide),
      (hframe.2.2 rfl).1 (.inr hmoves)⟩

end RestoreEngine
