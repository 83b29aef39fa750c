import RestoreEngine.Model.Dicts

/-!
# The rules of the fields

Every rule by which `normalize_plan` makes a field gives a value that it maps to itself
(`FieldRule.Stable`), so that a second normalization changes nothing.
-/

namespace RestoreEngine

open Effects

variable {v x : Json}

/-! ### Stable rules -/

/-- **A stable rule** maps the values that it gives to themselves. -/
def FieldRule.Stable (rule : FieldRule) : Prop :=
  ∀ v x, rule v = .ok x → rule (some x) = .ok x

namespace FieldRule

theorem orDefault_of_truthy {default : Json} (h : v.truthy = true) :
    orDefault (some v) default = v := by
  rw [orDefault, Option.filter_some, if_pos h, Option.getD_some]

theorem orDefault_of_not_truthy {default : Json} (h : v.truthy = false) :
    orDefault (some v) default = default := by
  rw [orDefault, Option.filter_some, if_neg (by rw [h]; decide), Option.getD_none]

theorem truthy_str {text : String} (h : text ≠ "") : (Json.str text).truthy = true :=
  decide_eq_true h

theorem stripped_ok {text : String} (h : Dict.stripped v = .ok text) :
    Text.strip text = text := by
  cases v with
  | str s =>
    obtain rfl := Except.ok.inj h
    exact Text.strip_strip s
  | _ => cases h

/-- A stripped text that is not empty is read back. -/
theorem stripped_orDefault {text : String} (hstrip : Text.strip text = text) (hne : text ≠ "")
    (default : Json) : Dict.stripped (orDefault (some (.str text)) default) = .ok text := by
  rw [orDefault_of_truthy (truthy_str hne), Dict.stripped, hstrip]

private theorem required_stable (message : String) : (required message).Stable := by
  intro v x h
  obtain ⟨text, htext, h⟩ := of_bind_ok h
  obtain ⟨hne, h⟩ := of_ite_ok h
  obtain rfl := Except.ok.inj h
  rw [required, stripped_orDefault (stripped_ok htext) hne]
  exact if_neg hne

private theorem strippedTexts_ok {ids : List String} (h : strippedTexts v = .ok ids) :
    ∀ id ∈ ids, Text.strip id = id ∧ id ≠ "" := by
  rw [strippedTexts] at h
  split at h
  · cases h
  · next items =>
    obtain rfl := Except.ok.inj h
    intro id hid
    obtain ⟨hmap, hne⟩ := List.mem_filter.mp hid
    obtain ⟨g, -, rfl⟩ := List.mem_map.mp hmap
    exact ⟨Text.strip_strip _, of_decide_eq_true hne⟩

private theorem strippedTexts_arr {ids : List String}
    (h : ∀ id ∈ ids, Text.strip id = id ∧ id ≠ "") :
    strippedTexts (.arr (ids.map .str)) = .ok ids := by
  have hmap : (ids.map Json.str).map (fun g => Text.strip g.toText) = ids := by
    rw [List.map_map]
    exact (List.map_congr_left fun id hid => (h id hid).1).trans (List.map_id _)
  rw [strippedTexts, Json.iterate]
  simp only [hmap]
  rw [List.filter_eq_self.mpr fun id hid => decide_eq_true (h id hid).2]

private theorem groupIds_stable : groupIds.Stable := by
  intro v x h
  obtain ⟨ids, hids, h⟩ := of_bind_ok h
  obtain ⟨hne, h⟩ := of_ite_ok h
  obtain rfl := Except.ok.inj h
  have htruthy : (Json.arr (ids.map .str)).truthy = true := by
    cases ids with
    | nil => exact absurd rfl hne
    | cons id ids => rfl
  rw [groupIds, orDefault_of_truthy htruthy, strippedTexts_arr (strippedTexts_ok hids)]
  exact if_neg hne

private theorem verification_stable : verification.Stable := by
  intro v x h
  obtain ⟨text, htext, h⟩ := of_bind_ok h
  obtain ⟨hmem, h⟩ := of_ite_ok h
  obtain rfl := Except.ok.inj h
  have hne : text ≠ "" := by
    rintro rfl
    exact hmem (by decide)
  rw [verification, stripped_orDefault (stripped_ok htext) hne]
  exact if_neg hmem

private theorem assuranceStatus_stable : assuranceStatus.Stable := by
  intro v x h
  obtain ⟨text, htext, h⟩ := of_bind_ok h
  obtain rfl := Except.ok.inj h
  have hmem : (if text ∉ assurances then "UNKNOWN" else text) ∈ assurances := by
    by_cases h : text ∈ assurances
    · rwa [if_neg (not_not.mpr h)]
    · rw [if_pos h]
      exact (by decide : "UNKNOWN" ∈ assurances)
  have hstrip : ∀ t ∈ assurances, Text.strip t = t ∧ t ≠ "" := by decide
  generalize (if text ∉ assurances then "UNKNOWN" else text) = status at hmem
  rw [assuranceStatus, stripped_orDefault (hstrip status hmem).1 (hstrip status hmem).2]
  exact congrArg (fun t => Except.ok (Json.str t)) (if_neg (not_not.mpr hmem))

/-- A number is read back. -/
theorem toInt_orDefault (n : ℤ) : (orDefault (some (.int n)) (.int 0)).toInt = some n := by
  by_cases hn : n = 0
  · rw [hn]
    rfl
  · rw [orDefault_of_truthy (show (Json.int n).truthy = true from decide_eq_true hn), Json.toInt]

private theorem maxRto_stable : maxRto.Stable := by
  intro v x h
  obtain rfl := Except.ok.inj h
  rw [maxRto, toInt_orDefault, Option.getD_some, max_eq_right (le_max_left 0 _)]

private theorem hours_stable : hours.Stable := by
  intro v x h
  rw [hours] at h
  split at h
  · cases h
  · next n _ =>
    obtain rfl := Except.ok.inj h
    rw [hours, toInt_orDefault]
    simp only [max_eq_right (le_max_left 0 n)]

private theorem lastRto_stable : lastRto.Stable := by
  intro v x h
  have hshape : x = .null ∨ ∃ n, x = .int n := by
    unfold lastRto at h
    split at h
    · exact .inl (Except.ok.inj h).symm
    · exact .inl (Except.ok.inj h).symm
    · exact .inl (Except.ok.inj h).symm
    · next v _ _ =>
      cases hv : v.toInt with
      | none =>
        rw [hv] at h
        exact .inl (Except.ok.inj h).symm
      | some n =>
        rw [hv] at h
        exact .inr ⟨n, (Except.ok.inj h).symm⟩
  rcases hshape with rfl | ⟨n, rfl⟩ <;> rfl

private theorem flag_stable (default : Bool) : (flag default).Stable := by
  intro v x h
  obtain rfl := Except.ok.inj h
  rfl

/-- What is true or an empty text is what `or ""` gives. -/
private theorem orDefault_blank_stable (v : Option Json) :
    orDefault (some (orDefault v (.str ""))) (.str "") = orDefault v (.str "") := by
  by_cases h : (orDefault v (.str "")).truthy = true
  · exact orDefault_of_truthy h
  · rw [Bool.not_eq_true] at h
    rw [orDefault_of_not_truthy h]
    cases v with
    | none => rfl
    | some v =>
      by_cases hv : v.truthy = true
      · rw [orDefault_of_truthy hv, hv] at h
        cases h
      · rw [orDefault_of_not_truthy ((Bool.not_eq_true _).mp hv)]

/-- A text is read back, the empty one as the default. -/
theorem orBlank_text (text : String) : orBlank (some (.str text)) = .ok (.str text) := by
  by_cases htext : text = ""
  · rw [htext]
    rfl
  · rw [orBlank, orDefault_of_truthy (truthy_str htext)]

/-- A default that is read back is read back in the place of a value. -/
theorem orBlank_orDefault {default : Json} (v : Option Json)
    (h : orBlank (some default) = .ok default) :
    orBlank (some (orDefault v default)) = .ok (orDefault v default) := by
  unfold orDefault
  cases hv : v.filter Json.truthy with
  | none => exact h
  | some w =>
    rw [Option.getD_some, orBlank, orDefault_of_truthy (Option.filter_eq_some_iff.mp hv).2]

theorem orBlank_stable : orBlank.Stable := by
  intro v x h
  obtain rfl := Except.ok.inj h
  rw [orBlank, orDefault_blank_stable]

theorem detail_text (text : String) : detail (some (.str text)) = .ok (.str text) := by
  by_cases htext : text = ""
  · rw [htext]
    rfl
  · rw [detail, orDefault_of_truthy (truthy_str htext), Json.toText]

private theorem detail_stable : detail.Stable := by
  intro v x h
  obtain rfl := Except.ok.inj h
  exact detail_text _

private theorem lastCheck_stable : lastCheck.Stable := by
  intro v x h
  obtain rfl := Except.ok.inj h
  have hobj : ((v.filter Json.isObj).getD (.obj [])).isObj = true := by
    cases hv : v.filter Json.isObj with
    | none => rfl
    | some v' => exact (Option.filter_eq_some_iff.mp hv).2
  rw [lastCheck, Option.filter_some, if_pos hobj, Option.getD_some]

end FieldRule

/-- **Every rule of a plan is stable.** -/
theorem planRules_stable : ∀ e ∈ planRules, e.2.Stable := by
  simp only [planRules, List.forall_mem_cons]
  open FieldRule in
  exact ⟨required_stable _, groupIds_stable, required_stable _, verification_stable,
    assuranceStatus_stable, maxRto_stable, lastRto_stable, flag_stable _, flag_stable _,
    flag_stable _, hours_stable, flag_stable _, orBlank_stable, flag_stable _, flag_stable _,
    flag_stable _, orBlank_stable, orBlank_stable, detail_stable, orBlank_stable, orBlank_stable,
    lastCheck_stable, orBlank_stable, orBlank_stable, orBlank_stable, orBlank_stable,
    List.forall_mem_nil _⟩

end RestoreEngine
