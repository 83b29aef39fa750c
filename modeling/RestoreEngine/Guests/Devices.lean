import RestoreEngine.Guests.Config
import RestoreEngine.Texts.Split

/-!
# Network devices as property lists

`apply_network_isolation` edits the texts of the network devices: a substring test, an appended
property, a filter on the beginnings of properties. Read back as property lists (`properties`), a
device that is to be unlinked should have the one property `link_down=1`, and one that is to be
remapped the one property `bridge=` with the bridge of the lab, next to the properties it had
(`DeviceIsolated`). `deviceIsolated_iff` is about one device, `isolation_iff` about the function.
-/

namespace RestoreEngine

open Effects Prog Program

variable {mode lab text key : String} {cfg changes : GuestConfig} {w w' : World} {px : Client}
  {node : String} {v : ℤ} {g : Guest}

/-! ### Property lists -/

/-- The properties of a device. -/
def properties (text : String) : List String := (Text.split text ',').filter (· ≠ "")

/-- The name of a property, which ends at the first equals sign. -/
def propertyName (p : String) : String := String.ofList (p.toList.takeWhile (· ≠ '='))

/-- The properties of one name. -/
def propertiesNamed (name text : String) : List String :=
  (properties text).filter (propertyName · = name)

/-- The properties of all other names. -/
def otherProperties (name text : String) : List String :=
  (properties text).filter (propertyName · ≠ name)

/-- The name of the property by which a device is isolated. -/
def isolationName (mode : String) : String := if mode = "unlink" then "link_down" else "bridge"

/-- The property by which a device is isolated. -/
def isolationProperty (mode lab : String) : String :=
  if mode = "unlink" then "link_down=1" else "bridge=" ++ lab

/-- **An isolated device**: the property is there exactly once, and the others are unchanged. -/
structure DeviceIsolated (mode lab before after : String) : Prop where
  sole : propertiesNamed (isolationName mode) after = [isolationProperty mode lab]
  others : otherProperties (isolationName mode) after = otherProperties (isolationName mode) before

/-- **What it takes for a device to be isolated.** To be unlinked it has the property already,
once, or the text of the property does not occur in it and no property of that name is there. To
be remapped it has no `bridge` without a value, and the name of the new bridge has no comma. -/
structure DeviceReady (mode lab text : String) : Prop where
  unlink : mode = "unlink" → propertiesNamed "link_down" text =
    if Text.contains text "link_down=1" then ["link_down=1"] else []
  remap : mode = "remap" → ',' ∉ lab.toList ∧ "bridge" ∉ Text.split text ','

/-- The text of a device afterwards. -/
def deviceAfter (mode lab text : String) : String :=
  match isolatedDevice mode lab text with
  | .ok (some text') => text'
  | _ => text

private theorem properties_append (s p : String) :
    properties (s ++ "," ++ p) = properties s ++ properties p := by
  rw [properties, properties, properties, Text.split_append rfl, List.filter_append]

private theorem properties_singleton {p : String} (hp : ',' ∉ p.toList) (hne : p ≠ "") :
    properties p = [p] := by
  rw [properties, Text.split_of_not_mem hp]
  exact List.filter_cons_of_pos (decide_eq_true hne)

/-! ### Unlinking -/

private theorem deviceAfter_unlink_done (h : Text.contains text "link_down=1" = true) :
    deviceAfter "unlink" lab text = text := by
  rw [deviceAfter, isolatedDevice, if_pos rfl, if_pos h]

private theorem deviceAfter_unlink (h : Text.contains text "link_down=1" ≠ true) :
    deviceAfter "unlink" lab text =
      text ++ if text = "" then "link_down=1" else ",link_down=1" := by
  rw [deviceAfter, isolatedDevice, if_pos rfl, if_neg h]

private theorem properties_unlinked (text : String) :
    properties (text ++ if text = "" then "link_down=1" else ",link_down=1") =
      properties text ++ ["link_down=1"] := by
  have hone : properties "link_down=1" = ["link_down=1"] :=
    properties_singleton (by decide) (by decide)
  split_ifs with h
  · rw [h]
    exact hone
  · have hcomma : ",link_down=1" = "," ++ "link_down=1" := by decide
    rw [hcomma, ← String.append_assoc, properties_append, hone]

private theorem named_unlinked {text text' : String}
    (h : properties text' = properties text ++ ["link_down=1"]) :
    propertiesNamed "link_down" text' = propertiesNamed "link_down" text ++ ["link_down=1"] ∧
      otherProperties "link_down" text' = otherProperties "link_down" text := by
  have hname : propertyName "link_down=1" = "link_down" := by decide
  rw [propertiesNamed, otherProperties, h, List.filter_append, List.filter_append]
  constructor
  · exact congrArg _ (List.filter_cons_of_pos (decide_eq_true hname))
  · rw [List.filter_cons_of_neg (by simp [hname]), List.filter_nil, List.append_nil]
    rfl

/-- **When unlinking isolates a device.** -/
private theorem unlinked_iff (lab text : String) :
    DeviceIsolated "unlink" lab text (deviceAfter "unlink" lab text) ↔
      DeviceReady "unlink" lab text := by
  have hready : DeviceReady "unlink" lab text ↔ propertiesNamed "link_down" text =
      if Text.contains text "link_down=1" then ["link_down=1"] else [] :=
    ⟨fun h => h.unlink rfl, fun h => ⟨fun _ => h, fun hmode => absurd hmode (by decide)⟩⟩
  rw [hready]
  by_cases hthere : Text.contains text "link_down=1" = true
  · rw [deviceAfter_unlink_done hthere, if_pos hthere]
    exact ⟨fun h => h.sole, fun h => ⟨h, rfl⟩⟩
  · rw [deviceAfter_unlink hthere, if_neg hthere]
    obtain ⟨hnamed, hothers⟩ := named_unlinked (properties_unlinked text)
    constructor
    · intro h
      have hsole : propertiesNamed "link_down" _ = ["link_down=1"] := h.sole
      rw [hnamed] at hsole
      exact List.append_left_eq_self.mp hsole
    · intro h
      refine ⟨?_, hothers⟩
      change propertiesNamed "link_down" _ = ["link_down=1"]
      rw [hnamed, h, List.nil_append]

/-- A device is unlinked once. -/
private theorem unlinked_again (lab text : String) :
    deviceAfter "unlink" lab (deviceAfter "unlink" lab text) = deviceAfter "unlink" lab text := by
  refine deviceAfter_unlink_done ?_
  by_cases hthere : Text.contains text "link_down=1" = true
  · rwa [deviceAfter_unlink_done hthere]
  · rw [deviceAfter_unlink hthere]
    refine Text.contains_append_right text ?_
    split_ifs <;> decide

/-! ### Remapping -/

/-- The parts that stay when a device is remapped. -/
private def keptParts (text : String) : List String :=
  (Text.split text ',').filter fun p => p ≠ "" ∧ !Text.startsWith p "bridge="

private theorem deviceAfter_remap (hlab : lab ≠ "") (text : String) :
    deviceAfter "remap" lab text = Text.join "," (keptParts text ++ ["bridge=" ++ lab]) := by
  rw [deviceAfter, isolatedDevice, if_neg (by decide), if_pos rfl, if_neg hlab]
  rfl

/-- The name of a property is `bridge` if it begins with `bridge=`, or is that word alone. -/
private theorem propertyName_bridge_iff (p : String) :
    propertyName p = "bridge" ↔ p = "bridge" ∨ Text.startsWith p "bridge=" = true := by
  rw [Text.startsWith_iff, propertyName, ← String.toList_inj, String.toList_ofList]
  constructor
  · intro h
    have hsplit := List.takeWhile_append_dropWhile (p := fun c : Char => decide (c ≠ '='))
      (l := p.toList)
    rw [h] at hsplit
    cases hrest : p.toList.dropWhile (fun c : Char => decide (c ≠ '=')) with
    | nil =>
      rw [hrest, List.append_nil] at hsplit
      exact .inl (String.toList_inj.mp hsplit.symm)
    | cons c rest =>
      have hc : c = '=' := by
        have hhead := List.head?_dropWhile_not (fun c : Char => decide (c ≠ '=')) p.toList
        rw [hrest] at hhead
        simpa using hhead
      rw [hrest, hc] at hsplit
      exact .inr ⟨rest, by rw [← hsplit]; rfl⟩
  · rintro (rfl | ⟨rest, hrest⟩)
    · decide
    · rw [← hrest]
      rfl

private theorem keptParts_eq (text : String) :
    keptParts text = (properties text).filter fun p => !Text.startsWith p "bridge=" := by
  rw [keptParts, properties, List.filter_filter]
  refine List.filter_congr fun p _ => ?_
  rw [Bool.decide_and, Bool.and_comm, Bool.decide_eq_true]

private theorem mem_keptParts {p : String} : p ∈ keptParts text ↔
    p ∈ Text.split text ',' ∧ p ≠ "" ∧ Text.startsWith p "bridge=" = false := by
  rw [keptParts, List.mem_filter, decide_eq_true_iff, Bool.not_eq_true']

/-- The parts that stay are those of other names, and a `bridge` without a value. -/
private theorem keptParts_named (text : String) :
    (keptParts text).filter (propertyName · ≠ "bridge") = otherProperties "bridge" text ∧
      ((keptParts text).filter (propertyName · = "bridge") = [] ↔
        "bridge" ∉ Text.split text ',') := by
  constructor
  · rw [keptParts_eq, otherProperties, List.filter_filter]
    refine List.filter_congr fun p _ => ?_
    by_cases hbridge : propertyName p = "bridge"
    · simp [hbridge]
    · have hstart : Text.startsWith p "bridge=" = false := by
        rw [← Bool.not_eq_true]
        exact fun h => hbridge ((propertyName_bridge_iff p).mpr (.inr h))
      simp [hstart]
  · rw [List.filter_eq_nil_iff]
    constructor
    · intro h hmem
      exact h "bridge" (mem_keptParts.mpr ⟨hmem, by decide, by decide⟩) (by decide)
    · intro h p hp hbridge
      obtain ⟨hmem, -, hstart⟩ := mem_keptParts.mp hp
      rcases (propertyName_bridge_iff p).mp (of_decide_eq_true hbridge) with rfl | hstarts
      · exact h hmem
      · rw [hstart] at hstarts
        cases hstarts

private theorem properties_remapped (hlab : ',' ∉ lab.toList) :
    properties (Text.join "," (keptParts text ++ ["bridge=" ++ lab])) =
      keptParts text ++ ["bridge=" ++ lab] := by
  have hcommas : ∀ p ∈ keptParts text ++ ["bridge=" ++ lab], ',' ∉ p.toList := by
    intro p hp
    rcases List.mem_append.mp hp with hp | hp
    · exact Text.not_mem_of_mem_split (mem_keptParts.mp hp).1
    · rw [List.mem_singleton.mp hp, String.toList_append, List.mem_append]
      exact not_or.mpr ⟨by decide, hlab⟩
  rw [properties, Text.split_join rfl (List.append_ne_nil_of_right_ne_nil _ (by simp)) hcommas]
  refine List.filter_eq_self.mpr fun p hp => decide_eq_true ?_
  rcases List.mem_append.mp hp with hp | hp
  · exact (mem_keptParts.mp hp).2.1
  · rw [List.mem_singleton.mp hp, ne_eq, ← String.toList_inj, String.toList_append]
    exact List.append_ne_nil_of_left_ne_nil (by decide) _

/-- **When remapping isolates a device.** -/
private theorem remapped_iff (hlab : lab ≠ "") (text : String) :
    DeviceIsolated "remap" lab text (deviceAfter "remap" lab text) ↔
      DeviceReady "remap" lab text := by
  have hready : DeviceReady "remap" lab text ↔
      ',' ∉ lab.toList ∧ "bridge" ∉ Text.split text ',' :=
    ⟨fun h => h.remap rfl, fun h => ⟨fun hmode => absurd hmode (by decide), fun _ => h⟩⟩
  have hname : propertyName ("bridge=" ++ lab) = "bridge" :=
    (propertyName_bridge_iff _).mpr (.inr (Text.startsWith_iff.mpr
      (by rw [String.toList_append]; exact List.prefix_append _ _)))
  have hnew : ["bridge=" ++ lab].filter (propertyName · = "bridge") = ["bridge=" ++ lab] := by
    simp [hname]
  obtain ⟨hothers, hnone⟩ := keptParts_named text
  rw [hready, deviceAfter_remap hlab]
  constructor
  · rintro ⟨hsole, -⟩
    -- the one property is a piece between commas, so it has none itself
    have hmem : "bridge=" ++ lab ∈ propertiesNamed "bridge"
        (Text.join "," (keptParts text ++ ["bridge=" ++ lab])) := by
      rw [show propertiesNamed "bridge" _ = ["bridge=" ++ lab] from hsole]
      exact List.mem_singleton.mpr rfl
    have hcomma := Text.not_mem_of_mem_split (List.mem_filter.mp (List.mem_filter.mp hmem).1).1
    rw [String.toList_append, List.mem_append, not_or] at hcomma
    refine ⟨hcomma.2, hnone.mp ?_⟩
    have hsole : propertiesNamed "bridge" _ = ["bridge=" ++ lab] := hsole
    rw [propertiesNamed, properties_remapped hcomma.2, List.filter_append, hnew] at hsole
    exact List.append_left_eq_self.mp hsole
  · rintro ⟨hcomma, hbridge⟩
    constructor
    · change propertiesNamed "bridge" _ = ["bridge=" ++ lab]
      rw [propertiesNamed, properties_remapped hcomma, List.filter_append, hnone.mpr hbridge, hnew,
        List.nil_append]
    · change otherProperties "bridge" _ = otherProperties "bridge" text
      rw [otherProperties, properties_remapped hcomma, List.filter_append, hothers,
        List.filter_cons_of_neg (by simp [hname]), List.filter_nil, List.append_nil]

/-- A device is remapped once. -/
private theorem remapped_again (hlab : lab ≠ "") (hcomma : ',' ∉ lab.toList) (text : String) :
    deviceAfter "remap" lab (deviceAfter "remap" lab text) = deviceAfter "remap" lab text := by
  have hnew : Text.startsWith ("bridge=" ++ lab) "bridge=" = true :=
    Text.startsWith_iff.mpr (by rw [String.toList_append]; exact List.prefix_append _ _)
  have hkept : keptParts (Text.join "," (keptParts text ++ ["bridge=" ++ lab])) =
      keptParts text := by
    have hstay : (keptParts text).filter (fun p => !Text.startsWith p "bridge=") =
        keptParts text :=
      List.filter_eq_self.mpr fun p hp => by rw [(mem_keptParts.mp hp).2.2]; rfl
    rw [keptParts_eq, properties_remapped hcomma, List.filter_append, hstay,
      List.filter_cons_of_neg (by simp [hnew]), List.filter_nil, List.append_nil]
  rw [deviceAfter_remap hlab, deviceAfter_remap hlab, hkept]

/-! ### Both modes -/

/-- **When a device is isolated** by the treatment that it gets. -/
theorem deviceIsolated_iff {change : Option String} (hmode : mode ∈ ["unlink", "remap"])
    (h : isolatedDevice mode lab text = .ok change) :
    DeviceIsolated mode lab text (deviceAfter mode lab text) ↔ DeviceReady mode lab text := by
  rcases List.mem_cons.mp hmode with rfl | hmode
  · exact unlinked_iff lab text
  · obtain rfl := List.mem_singleton.mp hmode
    refine remapped_iff ?_ text
    rintro rfl
    cases h

/-- A device that is ready is treated once. -/
private theorem deviceAfter_again
    (hready : mode ∈ ["unlink", "remap"] → DeviceReady mode lab text) :
    deviceAfter mode lab (deviceAfter mode lab text) = deviceAfter mode lab text := by
  by_cases hunlink : mode = "unlink"
  · subst hunlink
    exact unlinked_again lab text
  by_cases hremap : mode = "remap"
  · subst hremap
    by_cases hlab : lab = ""
    · subst hlab
      rfl
    · exact remapped_again hlab ((hready (by decide)).remap rfl).1 text
  · have hother : ∀ s, deviceAfter mode lab s = s := by
      intro s
      rw [deviceAfter, isolatedDevice, if_neg hunlink, if_neg hremap]
    rw [hother]

/-! ### The function -/

/-- The options that name network devices. -/
def IsNetKey (key : String) : Prop := Text.startsWith key "net" = true

instance : Decidable (IsNetKey key) := inferInstanceAs (Decidable (_ = _))

/-- The changes are about network devices that are there, none twice. -/
private theorem isolationChanges_sublist (h : isolationChanges mode lab cfg = .ok changes) :
    (changes.map Prod.fst).Sublist (cfg.map Prod.fst) := by
  induction cfg generalizing changes with
  | nil =>
    obtain rfl := Except.ok.inj h
    exact .slnil
  | cons e rest ih =>
    obtain ⟨key, text⟩ := e
    rw [isolationChanges] at h
    split_ifs at h with hnet
    · obtain ⟨change, -, h⟩ := of_bind_ok h
      obtain ⟨others, hothers, h⟩ := of_bind_ok h
      obtain rfl := Except.ok.inj h
      cases change with
      | none => exact (ih hothers).cons key
      | some text' => exact (ih hothers).cons_cons key
    · exact (ih h).cons key

/-- **The options afterwards.** -/
private theorem isolationChanges_lookup (hkeyed : cfg.Keyed)
    (h : isolationChanges mode lab cfg = .ok changes) (key : String) :
    (changes.lookup key).or (cfg.lookup key) =
      if IsNetKey key then (cfg.lookup key).map (deviceAfter mode lab) else cfg.lookup key := by
  induction cfg generalizing changes with
  | nil =>
    obtain rfl := Except.ok.inj h
    split_ifs <;> rfl
  | cons e rest ih =>
    obtain ⟨k, text⟩ := e
    obtain ⟨hnew, hkeyed⟩ := List.nodup_cons.mp hkeyed
    rw [isolationChanges] at h
    rw [List.lookup_cons]
    by_cases hkey : key = k
    · subst hkey
      -- the rest has nothing to say about this option
      have hnone : ∀ {others}, isolationChanges mode lab rest = .ok others →
          others.lookup key = none := by
        intro others hothers
        rw [List.lookup_eq_none_iff]
        intro e he
        rw [bne_iff_ne]
        intro heq
        have hmem : e.1 ∈ others.map Prod.fst := List.mem_map_of_mem he
        exact hnew ((isolationChanges_sublist hothers).subset (heq ▸ hmem))
      rw [beq_self_eq_true]
      by_cases hnet : Text.startsWith key "net" = true
      · rw [if_pos hnet] at h
        obtain ⟨change, hchange, h⟩ := of_bind_ok h
        obtain ⟨others, hothers, h⟩ := of_bind_ok h
        obtain rfl := Except.ok.inj h
        simp only [IsNetKey, if_pos hnet, Option.map_some, deviceAfter, hchange]
        cases change with
        | none => rw [hnone hothers, Option.none_or]
        | some text' => rw [List.lookup_cons, beq_self_eq_true, Option.some_or]
      · rw [if_neg hnet] at h
        rw [hnone h, Option.none_or]
        exact (if_neg hnet).symm
    · rw [beq_false_of_ne hkey]
      by_cases hnet : Text.startsWith k "net" = true
      · rw [if_pos hnet] at h
        obtain ⟨change, -, h⟩ := of_bind_ok h
        obtain ⟨others, hothers, h⟩ := of_bind_ok h
        obtain rfl := Except.ok.inj h
        cases change with
        | none => exact ih hkeyed hothers
        | some text' =>
          rw [List.lookup_cons, beq_false_of_ne hkey]
          exact ih hkeyed hothers
      · rw [if_neg hnet] at h
        exact ih hkeyed h

/-- The devices that are there have been treated. -/
private theorem isolationChanges_device (h : isolationChanges mode lab cfg = .ok changes)
    (hnet : IsNetKey key) (htext : cfg.lookup key = some text) :
    ∃ change, isolatedDevice mode lab text = .ok change := by
  induction cfg generalizing changes with
  | nil => cases htext
  | cons e rest ih =>
    obtain ⟨k, text'⟩ := e
    rw [isolationChanges] at h
    rw [List.lookup_cons] at htext
    by_cases hkey : key = k
    · subst hkey
      rw [beq_self_eq_true] at htext
      obtain rfl := Option.some.inj htext
      rw [if_pos (show Text.startsWith key "net" = true from hnet)] at h
      obtain ⟨change, hchange, -⟩ := of_bind_ok h
      exact ⟨change, hchange⟩
    · rw [beq_false_of_ne hkey] at htext
      split_ifs at h
      · obtain ⟨change, -, hrest⟩ := of_bind_ok h
        obtain ⟨others, hothers, -⟩ := of_bind_ok hrest
        exact ih hothers htext
      · exact ih h htext

/-- The mode as the function reads it. -/
def isolationMode (mode : String) : String := Text.lower (Text.strip mode)

/-- The options of a guest after the isolation of its devices. -/
def isolatedOption (mode lab : String) (cfg : GuestConfig) (key : String) : Option String :=
  if isolationMode mode ∉ ["", "none", "off"] ∧ IsNetKey key then
    (cfg.lookup key).map (deviceAfter (isolationMode mode) (Text.strip lab))
  else cfg.lookup key

/-- **What a successful call leaves behind.** -/
private theorem applyNetworkIsolation_ok (hg : w.qemuAt node v = some g)
    (hkeyed : g.config.Keyed)
    (h : Ends environment (applyNetworkIsolation px node v mode lab) w (.ok ()) w') :
    ∃ g', w'.qemuAt node v = some g' ∧ g'.config.Keyed ∧
      (∀ key, g'.config.lookup key = isolatedOption mode lab g.config key) ∧
      (isolationMode mode ∉ ["", "none", "off"] → ∃ changes,
        isolationChanges (isolationMode mode) (Text.strip lab) g.config = .ok changes) := by
  have hsame : isolationMode mode ∈ ["", "none", "off"] → ∀ key,
      g.config.lookup key = isolatedOption mode lab g.config key := by
    intro hmode key
    rw [isolatedOption, if_neg fun h => h.1 hmode]
  simp only [applyNetworkIsolation] at h
  rw [← isolationMode] at h
  by_cases hmode : isolationMode mode ∈ ["", "none", "off"]
  · rw [if_pos hmode] at h
    cases h
    exact ⟨g, hg, hkeyed, hsame hmode, fun hnot => absurd hmode hnot⟩
  · -- the configuration is read, and the changes to it, if there are any, are written back
    rw [if_neg hmode] at h
    rcases ends_bind.mp h with ⟨cfg, w₁, hread, h⟩ | ⟨e, he, -⟩
    swap
    · cases he
    obtain ⟨rfl, g₁, hg₁, rfl⟩ := getQemuConfig_ok hread
    obtain rfl := Option.some.inj (hg.symm.trans hg₁)
    rcases ends_bind.mp h with ⟨changes, w₂, hlift, h⟩ | ⟨e, he, -⟩
    swap
    · cases he
    obtain ⟨hchanges, rfl⟩ : Except.ok changes = isolationChanges (isolationMode mode)
        (Text.strip lab) g.config ∧ w₁ = w₂ :=
      hlift.post (Q := fun out w' => out = isolationChanges (isolationMode mode) (Text.strip lab)
        g.config ∧ w₁ = w') (satisfies_ofExcept.mpr ⟨rfl, rfl⟩)
    have hlookup := isolationChanges_lookup hkeyed hchanges.symm
    have hoption : ∀ key, (changes.lookup key).or (g.config.lookup key) =
        isolatedOption mode lab g.config key := by
      intro key
      rw [hlookup, isolatedOption]
      simp only [hmode, not_false_eq_true, true_and]
    split_ifs at h with hnone
    · cases h
      subst hnone
      exact ⟨g, hg, hkeyed, hoption, fun _ => ⟨[], hchanges.symm⟩⟩
    · obtain ⟨g₂, hg₂, rfl⟩ := putQemuConfig_ok h
      obtain rfl := Option.some.inj (hg.symm.trans hg₂)
      have hkeyed' : GuestConfig.Keyed changes :=
        hkeyed.sublist (isolationChanges_sublist hchanges.symm)
      refine ⟨_, World.qemuAt_configure hg _, keyed_putOptions hkeyed _, fun key => ?_,
        fun _ => ⟨changes, hchanges.symm⟩⟩
      rw [← hoption]
      exact lookup_putOptions hkeyed' key

/-! ### When the isolation is as described -/

/-- **An isolated configuration**: every network device is isolated, and the other options are
unchanged. -/
structure ConfigIsolated (mode lab : String) (before after : GuestConfig) : Prop where
  devices : ∀ key, IsNetKey key →
    Option.Rel (DeviceIsolated mode lab) (before.lookup key) (after.lookup key)
  others : ∀ key, ¬ IsNetKey key → after.lookup key = before.lookup key

/-- The isolation of a guest, from `w` to `w'`, is as described: without a mode nothing changes,
after unlinking or remapping the configuration is isolated, and applying the isolation again changes
no option. -/
structure IsolatesGuest (px : Client) (node : String) (v : ℤ) (mode lab : String) (w w' : World) :
    Prop where
  untouched : isolationMode mode ∈ ["", "none", "off"] → w' = w
  isolated : isolationMode mode ∈ ["unlink", "remap"] → ∃ g g', w.qemuAt node v = some g ∧
    w'.qemuAt node v = some g' ∧
      ConfigIsolated (isolationMode mode) (Text.strip lab) g.config g'.config
  again : ∀ w'' g' g'', w'.qemuAt node v = some g' →
    Ends environment (applyNetworkIsolation px node v mode lab) w' (.ok ()) w'' →
    w''.qemuAt node v = some g'' → ∀ key, g''.config.lookup key = g'.config.lookup key

/-- Without a mode no call is made. -/
private theorem applyNetworkIsolation_untouched (hmode : isolationMode mode ∈ ["", "none", "off"])
    (h : Ends environment (applyNetworkIsolation px node v mode lab) w (.ok ()) w') : w' = w := by
  simp only [applyNetworkIsolation] at h
  rw [← isolationMode, if_pos hmode] at h
  cases h
  rfl

/-- Every network device of a configuration is ready for the isolation. -/
def ConfigReady (mode lab : String) (cfg : GuestConfig) : Prop :=
  isolationMode mode ∈ ["unlink", "remap"] → ∀ key text, IsNetKey key →
    cfg.lookup key = some text → DeviceReady (isolationMode mode) (Text.strip lab) text

/-- **When the isolation of a guest is as described**: exactly if every network device of it is
ready. -/
theorem isolation_iff (hg : w.qemuAt node v = some g) (hkeyed : g.config.Keyed)
    (h : Ends environment (applyNetworkIsolation px node v mode lab) w (.ok ()) w') :
    IsolatesGuest px node v mode lab w w' ↔ ConfigReady mode lab g.config := by
  obtain ⟨g', hg', hkeyed', hoption, hchanges⟩ := applyNetworkIsolation_ok hg hkeyed h
  have hactive : isolationMode mode ∈ ["unlink", "remap"] →
      isolationMode mode ∉ ["", "none", "off"] := by
    intro hmode
    rcases List.mem_cons.mp hmode with h | h
    · rw [h]
      decide
    · rw [List.mem_singleton.mp h]
      decide
  have hdevice : isolationMode mode ∈ ["unlink", "remap"] → ∀ key text, IsNetKey key →
      g.config.lookup key = some text → g'.config.lookup key =
          some (deviceAfter (isolationMode mode) (Text.strip lab) text) ∧
        ∃ change, isolatedDevice (isolationMode mode) (Text.strip lab) text = .ok change := by
    intro hmode key text hnet htext
    obtain ⟨changes, hok⟩ := hchanges (hactive hmode)
    refine ⟨?_, isolationChanges_device hok hnet htext⟩
    rw [hoption, isolatedOption, if_pos ⟨hactive hmode, hnet⟩, htext, Option.map_some]
  constructor
  · -- every device is isolated, so it was ready
    intro hisolates hmode key text hnet htext
    obtain ⟨hafter, change, hchange⟩ := hdevice hmode key text hnet htext
    obtain ⟨g₀, g₁, hg₀, hg₁, hconfig⟩ := hisolates.isolated hmode
    obtain rfl := Option.some.inj (hg.symm.trans hg₀)
    obtain rfl := Option.some.inj (hg'.symm.trans hg₁)
    have hrel := hconfig.devices key hnet
    rw [htext, hafter, Option.rel_some_some] at hrel
    exact (deviceIsolated_iff hmode hchange).mp hrel
  · intro hready
    refine ⟨fun hmode => applyNetworkIsolation_untouched hmode h,
      fun hmode => ⟨g, g', hg, hg', fun key hnet => ?_, fun key hnet => ?_⟩, ?_⟩
    · cases htext : g.config.lookup key with
      | none =>
        rw [hoption, isolatedOption, htext, Option.map_none, ite_self]
        exact .none
      | some text =>
        obtain ⟨hafter, change, hchange⟩ := hdevice hmode key text hnet htext
        rw [hafter, Option.rel_some_some]
        exact (deviceIsolated_iff hmode hchange).mpr (hready hmode key text hnet htext)
    · rw [hoption, isolatedOption, if_neg fun h => hnet h.2]
    · -- a device that is isolated is rewritten to itself
      intro w'' g₁ g'' hg₁ hagain hg'' key
      obtain rfl := Option.some.inj (hg'.symm.trans hg₁)
      obtain ⟨g₂, hg₂, -, hoption₂, -⟩ := applyNetworkIsolation_ok hg' hkeyed' hagain
      obtain rfl := Option.some.inj (hg''.symm.trans hg₂)
      rw [hoption₂, isolatedOption, hoption, isolatedOption]
      split_ifs with hactive
      · cases htext : g.config.lookup key with
        | none => rfl
        | some text =>
          have hagain : deviceAfter (isolationMode mode) (Text.strip lab)
                (deviceAfter (isolationMode mode) (Text.strip lab) text) =
              deviceAfter (isolationMode mode) (Text.strip lab) text :=
            deviceAfter_again fun hmode => hready hmode key text hactive.2 htext
          rw [Option.map_some, Option.map_some, hagain]
      · rfl

/-- A world with one guest, which has one network device. -/
private def oneDevice (text : String) : World :=
  { guests := (∅ : AList _).insert 100 { kind := .qemu, node := "pve", config := [("net0", text)] } }

private theorem oneDevice_guest (text : String) : (oneDevice text).qemuAt "pve" 100 =
    some { kind := .qemu, node := "pve", config := [("net0", text)] } := rfl

private theorem oneDevice_runs (text text' : String)
    (h : ((applyNetworkIsolation (.job 0) "pve" 100 "unlink" "").run environment []
      (oneDevice text)).any (fun e => e.1 == .ok () &&
        (e.2.qemuAt "pve" 100).any (·.config == [("net0", text')])) = true) :
    ∃ w' g', Ends environment (applyNetworkIsolation (.job 0) "pve" 100 "unlink" "")
        (oneDevice text) (.ok ()) w' ∧ w'.qemuAt "pve" 100 = some g' ∧
      g'.config = [("net0", text')] := by
  obtain ⟨⟨out, w'⟩, hrun, hrest⟩ := (Option.any_eq_true _ _).mp h
  obtain ⟨hout, hguest⟩ := Bool.and_eq_true_iff.mp hrest
  obtain ⟨g', hg', hconfig⟩ := (Option.any_eq_true _ _).mp hguest
  obtain rfl : out = .ok () := eq_of_beq hout
  exact ⟨w', g', ends_of_run hrun, hg', eq_of_beq hconfig⟩

/-- A device without the property is unlinked. -/
theorem isolation_iff_unlinked : ∃ w',
    Ends environment (applyNetworkIsolation (.job 0) "pve" 100 "unlink" "")
      (oneDevice "virtio=BC:24:11:00:00:01,bridge=vmbr0") (.ok ()) w' ∧
    IsolatesGuest (.job 0) "pve" 100 "unlink" ""
      (oneDevice "virtio=BC:24:11:00:00:01,bridge=vmbr0") w' := by
  obtain ⟨w', g', hends, -, -⟩ := oneDevice_runs "virtio=BC:24:11:00:00:01,bridge=vmbr0"
    "virtio=BC:24:11:00:00:01,bridge=vmbr0,link_down=1" (by decide +kernel)
  refine ⟨w', hends, (isolation_iff (oneDevice_guest _) (List.nodup_singleton "net0")
    hends).mpr ?_⟩
  intro _ key text _ htext
  obtain ⟨-, rfl⟩ : key = "net0" ∧ text = "virtio=BC:24:11:00:00:01,bridge=vmbr0" := by
    rw [List.lookup_cons] at htext
    split at htext
    · next hkey => exact ⟨eq_of_beq hkey, (Option.some.inj htext).symm⟩
    · cases htext
  exact ⟨fun _ => by decide +kernel, fun hmode => absurd hmode (by decide)⟩

/-- **A device whose link is up by name** has two `link_down` properties afterwards. -/
theorem link_down_twice : ∃ w',
    Ends environment (applyNetworkIsolation (.job 0) "pve" 100 "unlink" "")
      (oneDevice "virtio=BC:24:11:00:00:01,bridge=vmbr0,link_down=0") (.ok ()) w' ∧
    ¬ IsolatesGuest (.job 0) "pve" 100 "unlink" ""
      (oneDevice "virtio=BC:24:11:00:00:01,bridge=vmbr0,link_down=0") w' := by
  obtain ⟨w', g', hends, hg', hconfig⟩ := oneDevice_runs
    "virtio=BC:24:11:00:00:01,bridge=vmbr0,link_down=0"
    "virtio=BC:24:11:00:00:01,bridge=vmbr0,link_down=0,link_down=1" (by decide +kernel)
  refine ⟨w', hends, fun hisolates => ?_⟩
  obtain ⟨g, g₁, hg, hg₁, hisolated⟩ := hisolates.isolated (by decide +kernel)
  obtain rfl := Option.some.inj ((oneDevice_guest _).symm.trans hg)
  obtain rfl := Option.some.inj (hg'.symm.trans hg₁)
  have hrel := hisolated.devices "net0" (by decide)
  rw [hconfig, List.lookup_cons, List.lookup_cons, beq_self_eq_true,
    Option.rel_some_some] at hrel
  have hsole := hrel.sole
  revert hsole
  decide +kernel

end RestoreEngine
