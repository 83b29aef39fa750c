import RestoreEngine.Effects.Trace
import RestoreEngine.Model.Allocation
import RestoreEngine.Model.Readiness

/-!
# Readiness checks fail closed

A readiness check asks many questions, and skips some of them if earlier ones were not answered.
Yet a check that passes has asked them all and has had a good answer to each (`Ready`): an
answer that is missing or bad leaves an error among the items. What was asked and answered is read
off the trace of the check.
-/

namespace RestoreEngine

open Effects Prog Program

/-- The command was issued and got the reply. -/
abbrev Replied (h : List (Event commands)) (o : Op) (r : o.Res) : Prop :=
  (⟨o, r⟩ : Event commands) ∈ h

variable {mt : Matching} {plan : Plan} {location : Location} {cutoff : String}
  {h : List (Event commands)}

/-! ### What a passing check has found -/

/-- The storage of the node is there, holds VM disks and is enabled. -/
def StorageFit (h : List (Event commands)) (location : Location) (node : String) : Prop :=
  ∃ storages sid found, Replied h (.probe (.storages node)) (.ok storages) ∧
    location.storageOn node = .ok sid ∧ found ∈ storages ∧ found.id = sid ∧
      found.usableForVmDisks = true ∧ found.enabled = true

/-- The cluster node names of a reply. -/
def nodeNames (names : List String) : List String := (names.map Text.strip).filter (· ≠ "")

/-- Every node of the location is one of the cluster, as far as that lists any, and has its
storage. -/
structure NodesFit (h : List (Event commands)) (location : Location) : Prop where
  known : ∃ names, Replied h (.probe .nodes) (.ok names) ∧
    ∀ node ∈ location.checkedNodes, nodeNames names = [] ∨ node ∈ nodeNames names
  storages : ∀ node ∈ location.checkedNodes, StorageFit h location node

/-- The tags are those that were read, or there are none. -/
def TagsRead (h : List (Event commands)) (tags : TagMap) : Prop :=
  (∃ candidates node errors,
      Replied h (.probe (.tags candidates node)) (.ok (tags, errors))) ∨ tags = []

/-- Every group comes down to backups of the listing. -/
def MembersFound (h : List (Event commands)) (mt : Matching) (groups : List Group)
    (cutoff : String) (groupRows : List (List Row)) : Prop :=
  ∃ backups tags, Replied h (.probe .backups) (.ok backups) ∧ TagsRead h tags ∧
    List.Forall₂ (fun group rows =>
      resolveGroupRows mt group backups cutoff tags = .ok rows ∧ rows ≠ []) groups groupRows

/-- There are VMIDs for the rows: in DR mode their own, which differ and are free, in normal mode
as many free ones. -/
def VmidsFit (inUse : Finset ℤ) (location : Location) (rows : List Row) : Prop :=
  (location.mode = "dr" → (sourceIds rows).Nodup ∧ ∀ v ∈ sourceIds rows, v ∉ inUse) ∧
    (location.mode ≠ "dr" → ∃ vmids,
      Allocated inUse (orElse location.vmidStart 100) rows.length vmids)

/-- **What a passing check has found.** -/
structure Ready (mt : Matching) (plan : Plan) (cutoff : String) (h : List (Event commands)) :
    Prop where
  pbs : ∃ results, Replied h (.probe .pbs) (.ok (true, results))
  pve : ∃ text, Replied h (.probe .pve) (.ok (true, text))
  session : Replied h (.probe .session) (.ok true)
  place : ∃ location groups groupRows inUse,
    Replied h (.getLocation plan.locationId) (some location) ∧
    plan.groupIds ≠ [] ∧
    List.Forall₂ (fun id group => Replied h (.getGroup id) (some group)) plan.groupIds groups ∧
    NodesFit h location ∧
    MembersFound h mt groups (normalizeCutoff cutoff) groupRows ∧
    Replied h (.probe .vmids) (.ok inUse) ∧ VmidsFit inUse location groupRows.flatten

/-! ### Items without errors -/

@[simp] theorem noErrors_nil : noErrors [] = true := rfl

@[simp] theorem noErrors_cons {item : CheckItem} {items : List CheckItem} :
    noErrors (item :: items) = true ↔ item.level ≠ .error ∧ noErrors items = true := by
  simp [noErrors]

@[simp] theorem noErrors_append {items items' : List CheckItem} :
    noErrors (items ++ items') = true ↔ noErrors items = true ∧ noErrors items' = true := by
  simp [noErrors]

@[simp] theorem failed_level {code message detail : String} :
    (failed code message detail).level = .error := rfl

@[simp] theorem passed_level {code message detail : String} :
    (passed code message detail).level = .ok := rfl

@[simp] theorem warned_level {code message detail : String} :
    (warned code message detail).level = .warn := rfl

/-! ### Questions and answers -/

/-- A command and its reply are part of the history. -/
private theorem finds_issue (o : Op) :
    Finds h (issue o) fun r h' => Replied h' o r :=
  finds_perform fun _ => List.mem_append_right _ List.mem_cons_self

/-- A probe that answers. -/
private theorem ask_finds (p : Probe) : Finds h (ask p) fun r h' => Replied h' (.probe p) (.ok r) :=
  (finds_issue (.probe p)).bind fun _ _ _ hx => finds_ofExcept fun _ ha => ha ▸ hx

/-- A probe that is asked once, with whatever outcome. -/
private theorem try_finds (p : Probe) :
    Finds h (ask p).attempt fun r h' => ∀ a, r = .ok a → Replied h' (.probe p) (.ok a) := by
  refine (ask_finds p).attempt ?_ ?_
  · intro a h' ha b hb
    obtain rfl := Except.ok.inj hb
    exact ha
  · intro e h' _ b hb
    cases hb

/-! ### The parts of the check -/

private theorem checkGroups_finds (ids : List Uuid) :
    Finds h (checkGroups ids) fun found h' => noErrors found.2 = true → found.2 = [] ∧
      List.Forall₂ (fun id group => Replied h' (.getGroup id) (some group)) ids found.1 := by
  induction ids generalizing h with
  | nil => exact finds_ret fun _ => ⟨rfl, .nil⟩
  | cons id rest ih =>
    refine (finds_issue (.getGroup id)).bind fun found h₁ _ hfound => ?_
    refine ih.bind fun others h₂ hsub hothers => finds_ret ?_
    obtain ⟨groups, items⟩ := others
    cases found with
    | none => simp
    | some group => exact fun hok => ⟨(hothers hok).1, .cons (hsub hfound) (hothers hok).2⟩

private theorem checkPlan_finds :
    Finds h (checkPlan plan) fun found h' => noErrors found.2.2 = true →
      found.2.2 = [] ∧ ∃ location, found.1 = some location ∧
        Replied h' (.getLocation plan.locationId) (some location) ∧ plan.groupIds ≠ [] ∧
        List.Forall₂ (fun id group => Replied h' (.getGroup id) (some group)) plan.groupIds
          found.2.1 := by
  refine (finds_issue (.getLocation plan.locationId)).bind fun found h₁ _ hfound => ?_
  refine (checkGroups_finds plan.groupIds).bind fun read h₂ hsub hread => finds_ret ?_
  obtain ⟨groups, missing⟩ := read
  intro hok
  simp only [noErrors_append] at hok
  have hgroups : plan.groupIds ≠ [] := fun hnil => by simp [hnil] at hok
  cases found with
  | none => simp at hok
  | some location =>
    obtain ⟨hmissing, hgroupsRead⟩ := hread hok.2
    have hmissing : missing = [] := hmissing
    exact ⟨by simp [hgroups, hmissing], location, rfl, hsub hfound, hgroups, hgroupsRead⟩

private theorem checkPbs_finds :
    Finds h checkPbs fun item h' => item.code ≠ "group.empty" ∧ (item.level ≠ .error →
      ∃ results, Replied h' (.probe .pbs) (.ok (true, results))) := by
  refine (try_finds .pbs).bind fun r h₁ _ hr => ?_
  rcases r with exc | ⟨_ | _, results⟩
  · exact finds_ret ⟨by simp [failed], fun hok => absurd rfl hok⟩
  · exact finds_ret ⟨by simp [failed], fun hok => absurd rfl hok⟩
  · exact finds_ret ⟨by simp [passed], fun _ => ⟨results, hr _ rfl⟩⟩

private theorem checkPve_finds :
    Finds h checkPve fun found h' => noErrors found.2 = true →
      (∀ item ∈ found.2, item.code ≠ "group.empty") ∧
        (∃ text, Replied h' (.probe .pve) (.ok (true, text))) ∧
        Replied h' (.probe .session) (.ok found.1) := by
  refine (try_finds .pve).bind fun r h₁ _ hr => ?_
  rcases r with exc | ⟨_ | _, text⟩
  · exact finds_ret fun hok => by simp at hok
  · exact finds_ret fun hok => by simp at hok
  · refine (try_finds .session).bind fun s h₂ hsub hs => ?_
    cases s with
    | error exc => exact finds_ret fun hok => by simp at hok
    | ok session =>
      refine finds_ret fun _ => ⟨fun item hitem => ?_, ⟨text, hsub (hr _ rfl)⟩, hs _ rfl⟩
      obtain rfl := List.mem_singleton.mp hitem
      simp [passed]

private theorem knownNodes_finds :
    Finds h knownNodes fun found h' => noErrors found.2 = true →
      ∃ names, Replied h' (.probe .nodes) (.ok names) ∧ found.1 = nodeNames names := by
  refine (try_finds .nodes).bind fun r h₁ _ hr => ?_
  cases r with
  | error exc => exact finds_ret fun hok => by simp at hok
  | ok names => exact finds_ret fun _ => ⟨names, hr _ rfl, rfl⟩

/-- A storage without a complaint is fit. -/
private theorem storageItem_fit {node : String} {storages : List NodeStorage}
    (hreplied : Replied h (.probe (.storages node)) (.ok storages))
    (hok : (storageItem location node storages).level ≠ .error) : StorageFit h location node := by
  rw [storageItem] at hok
  cases hsid : location.storageOn node with
  | error exc => simp [hsid] at hok
  | ok sid =>
    rw [hsid] at hok
    dsimp only at hok
    cases hfound : storages.reverse.find? (·.id = sid) with
    | none => simp [hfound] at hok
    | some found =>
      rw [hfound] at hok
      have hid : found.id = sid := by simpa using List.find?_some hfound
      have hmem : found ∈ storages := List.mem_reverse.mp (List.mem_of_find?_eq_some hfound)
      have husable : found.usableForVmDisks = true := by
        by_contra hnot
        rw [Bool.not_eq_true] at hnot
        simp [hnot] at hok
      have henabled : found.enabled = true := by
        by_contra hnot
        rw [Bool.not_eq_true] at hnot
        simp [husable, hnot] at hok
      exact ⟨storages, sid, found, hreplied, hsid, hmem, hid, husable, henabled⟩

private theorem checkNode_finds (known : List String) (node : String) :
    Finds h (checkNode location known node) fun item h' => item.level ≠ .error →
      (known = [] ∨ node ∈ known) ∧ StorageFit h' location node := by
  refine Finds.ite (fun _ => finds_ret fun hok => absurd rfl hok) fun hknown => ?_
  have hnode : known = [] ∨ node ∈ known := by
    by_contra hnot
    push Not at hnot
    exact hknown hnot
  refine (try_finds (.storages node)).bind fun r h₁ _ hr => ?_
  cases r with
  | error exc => exact finds_ret fun hok => absurd rfl hok
  | ok storages => exact finds_ret fun hok => ⟨hnode, storageItem_fit (hr _ rfl) hok⟩

/-- What was found out about a storage stays known. -/
private theorem StorageFit.mono {h' : List (Event commands)} {node : String}
    (hfit : StorageFit h location node) (hsub : h ⊆ h') : StorageFit h' location node := by
  obtain ⟨storages, sid, found, hreplied, hrest⟩ := hfit
  exact ⟨storages, sid, found, hsub hreplied, hrest⟩

private theorem checkNodes_finds (known nodes : List String) :
    Finds h (checkNodes location known nodes) fun items h' => noErrors items = true →
      ∀ node ∈ nodes, (known = [] ∨ node ∈ known) ∧ StorageFit h' location node := by
  induction nodes generalizing h with
  | nil => exact finds_ret fun _ node hnode => (List.not_mem_nil hnode).elim
  | cons node rest ih =>
    refine (checkNode_finds known node).bind fun item h₁ _ hitem => ?_
    refine ih.bind fun items h₂ hsub hitems => finds_ret ?_
    intro hok
    rw [noErrors_cons] at hok
    intro n hn
    rcases List.mem_cons.mp hn with rfl | hn
    · exact ⟨(hitem hok.1).1, (hitem hok.1).2.mono hsub⟩
    · exact hitems hok.2 n hn

private theorem listBackups_finds :
    Finds h listBackups fun found h' => noErrors found.2 = true →
      Replied h' (.probe .backups) (.ok found.1) := by
  refine (try_finds .backups).bind fun r h₁ _ hr => ?_
  cases r with
  | error exc => exact finds_ret fun hok => by simp at hok
  | ok backups => exact finds_ret fun _ => hr _ rfl

private theorem checkTags_finds (groups : List Group) (backups : List Row) :
    Finds h (checkTags location groups backups cutoff) fun found h' =>
      TagsRead h' found.1 := by
  refine Finds.ite (fun _ => ?_) fun _ => finds_ret (.inr rfl)
  refine (finds_ofExcept (P := fun _ _ => True) fun _ _ => trivial).bind fun cands h₁ _ _ => ?_
  refine Finds.ite (fun _ => finds_ret (.inr rfl)) fun _ => ?_
  refine (try_finds (.tags cands _)).bind fun r h₂ _ hr => ?_
  rcases r with exc | ⟨tags, errors⟩
  · exact finds_ret (.inr rfl)
  · have hread : TagsRead h₂ tags := .inl ⟨cands, _, errors, hr _ rfl⟩
    exact Finds.ite (fun _ => finds_ret hread) fun _ => finds_ret hread

/-! ### VMIDs -/

private theorem duplicateItems_ok {seen vmids : List ℤ}
    (hok : noErrors (duplicateItems seen vmids) = true) :
    vmids.Nodup ∧ ∀ v ∈ vmids, v ∉ seen := by
  induction vmids generalizing seen with
  | nil => exact ⟨List.nodup_nil, fun v hv => (List.not_mem_nil hv).elim⟩
  | cons src rest ih =>
    rw [duplicateItems] at hok
    by_cases hsrc : src ∈ seen
    · simp [hsrc] at hok
    · rw [if_neg hsrc] at hok
      obtain ⟨hnodup, hfresh⟩ := ih hok
      refine ⟨List.nodup_cons.mpr ⟨fun hmem => hfresh src hmem List.mem_cons_self, hnodup⟩, ?_⟩
      intro v hv
      rcases List.mem_cons.mp hv with rfl | hv
      · exact hsrc
      · exact fun hseen => hfresh v hv (List.mem_cons_of_mem _ hseen)

private theorem vmidItems_ok {inUse : Finset ℤ} {rows : List Row}
    (hok : noErrors (vmidItems location inUse rows) = true) : VmidsFit inUse location rows := by
  rw [vmidItems] at hok
  constructor
  · intro hdr
    rw [if_pos hdr, drItems, noErrors_append] at hok
    obtain ⟨hnodup, -⟩ := duplicateItems_ok hok.1
    refine ⟨hnodup, fun v hv hused => ?_⟩
    have hconflict : (sourceIds rows).filter (· ∈ inUse) ≠ [] :=
      List.ne_nil_of_mem (List.mem_filter.mpr ⟨hv, decide_eq_true hused⟩)
    rw [if_pos hconflict] at hok
    simp at hok
  · intro hnormal
    rw [if_neg hnormal, normalItem] at hok
    cases hallocate : allocateSequentialFreeVmids inUse (orElse location.vmidStart 100)
        rows.length with
    | error exc => simp [hallocate] at hok
    | ok found =>
      obtain ⟨vmids, next⟩ := found
      exact ⟨vmids, allocated_of_ok hallocate⟩

private theorem checkVmids_finds (rows : List Row) (hrows : rows ≠ []) :
    Finds h (checkVmids location rows) fun items h' => noErrors items = true →
      ∃ inUse, Replied h' (.probe .vmids) (.ok inUse) ∧ VmidsFit inUse location rows := by
  refine Finds.ite (fun hnil => absurd hnil hrows) fun _ => ?_
  refine (try_finds .vmids).bind fun r h₁ _ hr => ?_
  cases r with
  | error exc => exact finds_ret fun hok => by simp at hok
  | ok inUse => exact finds_ret fun hok => ⟨inUse, hr _ rfl, vmidItems_ok hok⟩

/-! ### The placement -/

/-- Groups without a complaint have rows. -/
private theorem memberItems_ok {groups : List Group} {groupRows : List (List Row)}
    {resolve : Group → Except Exn (List Row)} (hmap : groups.mapM resolve = .ok groupRows)
    (hok : noErrors (groups.zipWith memberItem groupRows) = true) :
    List.Forall₂ (fun group rows => resolve group = .ok rows ∧ rows ≠ []) groups groupRows := by
  induction mapM_ok_iff.mp hmap with
  | nil => exact .nil
  | cons hgroup hrest ih =>
    rw [List.zipWith_cons_cons, noErrors_cons] at hok
    exact .cons ⟨hgroup, fun hnil => by simp [memberItem, hnil] at hok⟩
      (ih (mapM_ok_iff.mpr hrest) hok.2)

private theorem checkPlacement_finds (groups : List Group) (hgroups : groups ≠ []) :
    Finds h (checkPlacement mt location groups cutoff) fun found h' => noErrors found.2 = true →
      NodesFit h' location ∧ MembersFound h' mt groups cutoff found.1 ∧
        ∃ inUse, Replied h' (.probe .vmids) (.ok inUse) ∧
          VmidsFit inUse location found.1.flatten := by
  refine knownNodes_finds.bind fun nodes h₁ _ hnodes => ?_
  obtain ⟨known, nodesItems⟩ := nodes
  refine (checkNodes_finds known _).bind fun nodeItems h₂ hsub₂ hstorages => ?_
  refine listBackups_finds.bind fun listed h₃ hsub₃ hlisted => ?_
  obtain ⟨backups, backupsItems⟩ := listed
  refine (checkTags_finds groups backups).bind fun read h₄ hsub₄ htags => ?_
  obtain ⟨tags, tagsItems⟩ := read
  refine (finds_ofExcept (P := fun groupRows _ => groups.mapM (fun group =>
    resolveGroupRows mt group backups cutoff tags) = .ok groupRows) fun _ hrows => hrows).bind
      fun groupRows h₅ hsub₅ hmap => ?_
  by_cases hempty : groupRows.flatten = []
  · -- a group without rows is an error of its own
    refine Finds.bind (P := fun _ _ => True)
      (Finds.ite (fun _ => finds_ret trivial) fun hnot => absurd hempty hnot)
      fun vmidsItems h₆ _ _ => finds_ret fun hok => ?_
    simp only [noErrors_append] at hok
    have hmembers := memberItems_ok hmap hok.1.2
    cases hmembers with
    | nil => exact absurd rfl hgroups
    | cons hfirst _ => exact absurd (List.append_eq_nil_iff.mp hempty).1 hfirst.2
  · refine (checkVmids_finds groupRows.flatten hempty).bind fun vmidsItems h₆ hsub₆ hvmids =>
      finds_ret fun hok => ?_
    simp only [noErrors_append] at hok
    obtain ⟨⟨⟨⟨⟨hok₁, hok₂⟩, hok₃⟩, -⟩, hok₅⟩, hok₆⟩ := hok
    have hlater : h₂ ⊆ h₆ := fun e he => hsub₆ (hsub₅ (hsub₄ (hsub₃ he)))
    obtain ⟨names, hnames, rfl⟩ := hnodes hok₁
    refine ⟨⟨⟨names, hlater (hsub₂ hnames), fun node hnode => (hstorages hok₂ node hnode).1⟩,
      fun node hnode => (hstorages hok₂ node hnode).2.mono hlater⟩, ?_, hvmids hok₆⟩
    refine ⟨backups, tags, hsub₆ (hsub₅ (hsub₄ (hlisted hok₃))), ?_, memberItems_ok hmap hok₅⟩
    rcases htags with ⟨candidates, node, errors, hread⟩ | hnone
    · exact .inl ⟨candidates, node, errors, hsub₆ (hsub₅ hread)⟩
    · exact .inr hnone

/-! ### The check as a whole -/

/-- What was found out before stays known. -/
private theorem NodesFit.mono {h' : List (Event commands)} (hfit : NodesFit h location)
    (hsub : h ⊆ h') : NodesFit h' location := by
  obtain ⟨⟨names, hnames, hknown⟩, hstorages⟩ := hfit
  exact ⟨⟨names, hsub hnames, hknown⟩, fun node hnode => (hstorages node hnode).mono hsub⟩

private theorem MembersFound.mono {h' : List (Event commands)} {groups : List Group}
    {groupRows : List (List Row)} (hfound : MembersFound h mt groups cutoff groupRows)
    (hsub : h ⊆ h') : MembersFound h' mt groups cutoff groupRows := by
  obtain ⟨backups, tags, hbackups, htags, hrows⟩ := hfound
  refine ⟨backups, tags, hsub hbackups, ?_, hrows⟩
  rcases htags with ⟨candidates, node, errors, hread⟩ | hnone
  · exact .inl ⟨candidates, node, errors, hsub hread⟩
  · exact .inr hnone

private theorem Ready.mono {h' : List (Event commands)} (hready : Ready mt plan cutoff h)
    (hsub : h ⊆ h') : Ready mt plan cutoff h' := by
  obtain ⟨⟨results, hpbs⟩, ⟨text, hpve⟩, hsession, location, groups, groupRows, inUse, hlocation,
    hids, hgroups, hnodes, hmembers, hused, hfit⟩ := hready
  refine ⟨⟨results, hsub hpbs⟩, ⟨text, hsub hpve⟩, hsub hsession, ?_⟩
  exact ⟨location, groups, groupRows, inUse, hsub hlocation, hids,
    hgroups.imp fun _ _ hgroup => hsub hgroup, hnodes.mono hsub, hmembers.mono hsub, hsub hused,
    hfit⟩

/-- Whatever a program does, it has a history. -/
private theorem finds_any {α : Type} (p : Prog α) : Finds h p fun _ _ => True := by
  induction p generalizing h with
  | ret a => exact finds_ret trivial
  | raise e => exact finds_raise
  | call o k ih => exact (finds_issue o).bind fun r h' _ _ => ih r

/-- A plan whose groups were not even looked up does not pass. -/
private theorem emptyItems_failed {groups : List Group} {items : List CheckItem}
    (hok : noErrors items = true) (hgroups : groups ≠ [])
    (hcodes : ∀ item ∈ items, item.code ≠ "group.empty") :
    emptyItems (some location) groups 0 items =
      [failed "plan.empty" "Plan resolved to zero backups"] := by
  rw [emptyItems, if_pos]
  refine ⟨hok, rfl, rfl, hgroups, ?_⟩
  simpa using hcodes

private theorem readinessCheck_finds :
    Finds h (readinessCheck mt plan cutoff) fun check h' =>
      check.ok = true → Ready mt plan cutoff h' := by
  refine (finds_any _).bind fun checkedAt h₁ _ _ => ?_
  refine checkPlan_finds.bind fun found h₂ _ hplan => ?_
  obtain ⟨place, groups, planItems⟩ := found
  refine checkPbs_finds.bind fun pbsItem h₃ hsub₃ hpbs => ?_
  refine checkPve_finds.bind fun connected h₄ hsub₄ hpve => ?_
  obtain ⟨session, pveItems⟩ := connected
  -- the items of the first three parts, if the check passes
  have hfirst : ∀ {items : List CheckItem}, noErrors (planItems ++ pbsItem :: pveItems ++ items) =
      true → noErrors planItems = true ∧ pbsItem.level ≠ .error ∧ noErrors pveItems = true ∧
        noErrors items = true := by
    intro items hok
    simp only [noErrors_append, noErrors_cons] at hok
    exact ⟨hok.1.1, hok.1.2.1, hok.1.2.2, hok.2⟩
  cases place with
  | none =>
    refine (finds_any _).bind fun placed h₅ _ _ => (finds_any _).bind fun sizes h₆ _ _ => ?_
    refine finds_ret fun hok => ?_
    rw [checkOf, noErrors_append, List.append_assoc] at hok
    obtain ⟨-, location, hnone, -⟩ := hplan (hfirst hok.1).1
    cases hnone
  | some location =>
    cases session with
    | false =>
      -- nothing was looked up on the cluster, and that alone is an error
      refine (finds_ret (P := fun placed _ => placed = ([], [])) rfl).bind fun placed h₅ _ hp => ?_
      obtain rfl := hp
      refine (finds_ret (P := fun sizes _ => sizes = none) rfl).bind fun sizes h₆ _ hnone => ?_
      subst hnone
      refine finds_ret fun hok => ?_
      simp only [checkOf, List.append_nil, Option.map_none, Option.toList_none] at hok
      rw [noErrors_append] at hok
      obtain ⟨hok, hempty⟩ := hok
      have hpadded : noErrors (planItems ++ pbsItem :: pveItems ++ []) = true := by
        rwa [List.append_nil]
      obtain ⟨hok₁, -, hok₃, -⟩ := hfirst hpadded
      obtain ⟨hnil, location', -, -, hids, hread⟩ := hplan hok₁
      have hgroups : groups ≠ [] := by
        rintro rfl
        exact hids (List.forall₂_nil_right_iff.mp hread)
      have hnil : planItems = [] := hnil
      have hcodes : ∀ item ∈ planItems ++ pbsItem :: pveItems, item.code ≠ "group.empty" := by
        intro item hitem
        rw [hnil, List.nil_append] at hitem
        rcases List.mem_cons.mp hitem with rfl | hitem
        · exact hpbs.1
        · exact (hpve hok₃).1 item hitem
      rw [List.flatten_nil, List.length_nil, emptyItems_failed hok hgroups hcodes] at hempty
      simp at hempty
    | true =>
      have hpart : Finds h₄ (checkPlacement mt location groups (normalizeCutoff cutoff))
          fun found h' => noErrors found.2 = true → groups ≠ [] →
            NodesFit h' location ∧ MembersFound h' mt groups (normalizeCutoff cutoff) found.1 ∧
              ∃ inUse, Replied h' (.probe .vmids) (.ok inUse) ∧
                VmidsFit inUse location found.1.flatten := by
        by_cases hgroups : groups = []
        · exact (finds_any _).mono fun _ _ _ _ _ hne => absurd hgroups hne
        · exact (checkPlacement_finds groups hgroups).mono fun _ _ _ hfound hok _ => hfound hok
      refine hpart.bind fun placed h₅ hsub₅ hplacement => ?_
      obtain ⟨groupRows, placementItems⟩ := placed
      refine (finds_any _).bind fun sizes h₆ hsub₆ _ => finds_ret fun hok => ?_
      rw [checkOf, noErrors_append, List.append_assoc] at hok
      obtain ⟨hok₁, hok₂, hok₃, hok₄⟩ := hfirst hok.1
      rw [noErrors_append] at hok₄
      obtain ⟨-, location', hlocation, hread, hids, hgroupsRead⟩ := hplan hok₁
      obtain rfl := Option.some.inj hlocation
      have hgroups : groups ≠ [] := by
        rintro rfl
        exact hids (List.forall₂_nil_right_iff.mp hgroupsRead)
      obtain ⟨results, hresults⟩ := hpbs.2 hok₂
      obtain ⟨-, ⟨text, htext⟩, hsession⟩ := hpve hok₃
      obtain ⟨hnodes, hmembers, inUse, hused, hfit⟩ := hplacement hok₄.1 hgroups
      have hlater : h₄ ⊆ h₆ := fun e he => hsub₆ (hsub₅ he)
      have hearly : h₂ ⊆ h₆ := fun e he => hlater (hsub₄ (hsub₃ he))
      refine ⟨⟨results, hlater (hsub₄ hresults)⟩, ⟨text, hlater htext⟩, hlater hsession, ?_⟩
      exact ⟨location, groups, groupRows, inUse, hearly hread, hids,
        hgroupsRead.imp fun _ _ hgroup => hearly hgroup, hnodes.mono hsub₆, hmembers.mono hsub₆,
        hsub₆ hused, hfit⟩

/-! ### The stored result -/

/-- The plans that were stored, one after the other. -/
def plansStored (h : List (Event commands)) : List Plan :=
  h.filterMap fun e => match e.op with
    | .setPlan plan => some plan
    | _ => none

/-- The record last stored under an id. -/
def lastStored (h : List (Event commands)) (id : Uuid) : Option Plan :=
  (plansStored h).reverse.find? (·.id = id)

private theorem lastStored_append {stored : Plan} :
    lastStored (h ++ [⟨.setPlan stored, ()⟩]) stored.id = some stored := by
  simp [lastStored, plansStored]

private theorem applyCheckResult_finds {cfg : Config} {check : Check} :
    Finds h (applyCheckResult cfg plan check) fun _ h' => ∃ stored,
      lastStored h' plan.id = some stored ∧
        (stored.verification = .VERIFIED ↔ check.ok = true) := by
  refine (finds_any _).bind fun _ h₁ _ _ => (finds_any _).bind fun rep h₂ _ _ => ?_
  refine Finds.bind (P := fun _ h' => ∃ stored, lastStored h' plan.id = some stored ∧
    (stored.verification = .VERIFIED ↔ check.ok = true)) (finds_perform fun _ => ?_)
    fun _ h₃ _ hstored => finds_ret hstored
  refine ⟨{ plan.checked check with lastCheckReportId := some rep.id }, lastStored_append, ?_⟩
  change (if check.ok then PlanVerification.VERIFIED else .NOT_VERIFIED) = .VERIFIED ↔ _
  cases check.ok <;> simp

/-- **Readiness checks fail closed.** A check that passes has had a good answer to everything
that it has to ask; and if its result is stored, the plan is VERIFIED exactly if it passed. -/
theorem readiness_fails_closed {cfg : Config} {persist : Bool} {returned : Plan} {check : Check}
    (htrace : Traces (runPlanReadiness cfg mt plan cutoff persist) h
      (some (.ok (returned, check)))) :
    (check.ok = true → Ready mt plan cutoff h) ∧
      (persist = true → ∃ stored, lastStored h plan.id = some stored ∧
        (stored.verification = .VERIFIED ↔ check.ok = true)) := by
  have hfinds : Finds [] (runPlanReadiness cfg mt plan cutoff persist) fun result h' =>
      (result.2.ok = true → Ready mt plan cutoff h') ∧
        (persist = true → ∃ stored, lastStored h' plan.id = some stored ∧
          (stored.verification = .VERIFIED ↔ result.2.ok = true)) := by
    refine readinessCheck_finds.bind fun check h₁ _ hready => ?_
    refine Finds.ite (fun _ => ?_) fun hnot => finds_ret ⟨hready, fun h => absurd h hnot⟩
    refine applyCheckResult_finds.bind fun saved h₂ hsub hstored => finds_ret ⟨?_, fun _ => hstored⟩
    exact fun hok => (hready hok).mono hsub
  exact hfinds.of_traces htrace

/-- A plan of one group, which is due to be checked. -/
private def sampledPlan : Plan := { id := 1, name := "P1", groupIds := [2], locationId := 3 }

/-- Surroundings in which the plan is ready. -/
private def sampleAnswer : (o : Op) → Option o.Res
  | .utcNow => some 0
  | .uuid4 => some 9
  | .getLocation id =>
    some (some { id, node := "pve", nodes := ["pve"], storage := "local-lvm", vmidStart := 3500 })
  | .getGroup id => some (some { id, name := "g1", vmids := [109] })
  | .probe .pbs => some (.ok (true, []))
  | .probe .pve => some (.ok (true, ""))
  | .probe .session => some (.ok true)
  | .probe .nodes => some (.ok ["pve"])
  | .probe (.storages _) => some (.ok [{ id := "local-lvm", usableForVmDisks := true }])
  | .probe .backups =>
    some (.ok [{ backupId := "main|vm/109/1", vmid := some 109, timestamp := "2026-08-07T10:00:00Z"
                 pveStorage := "pbs", voltail := "vm/109/1" }])
  | .probe .vmids => some (.ok ∅)
  | .probe (.size _) => some (.ok (some 400))
  | .setPlan _ => some ()
  | .addReport _ => some ()
  | .reportIds => some []
  | _ => none

/-- A check that passes. -/
theorem readiness_fails_closed_sample :
    ∃ h, Ready Matching.unused sampledPlan "" h ∧
      ∃ stored, lastStored h 1 = some stored ∧ stored.verification = .VERIFIED := by
  have hplay : ((runPlanReadiness {} Matching.unused sampledPlan "").play sampleAnswer).2.bind
      (fun out => out.toOption.map (·.2.ok)) = some true := by decide +kernel
  have htrace := (runPlanReadiness {} Matching.unused sampledPlan "").play_traces sampleAnswer
  obtain ⟨out, hout, hcheck⟩ := Option.bind_eq_some_iff.mp hplay
  rw [hout] at htrace
  cases out with
  | error e => cases hcheck
  | ok result =>
    obtain ⟨returned, check⟩ := result
    have hok : check.ok = true := Option.some.inj hcheck
    obtain ⟨hready, hstored⟩ := readiness_fails_closed htrace
    obtain ⟨stored, hlast, hverified⟩ := hstored rfl
    exact ⟨_, hready hok, stored, hlast, hverified.mpr hok⟩

end RestoreEngine
