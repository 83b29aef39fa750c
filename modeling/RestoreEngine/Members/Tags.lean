import RestoreEngine.Members.Select
import RestoreEngine.Readiness.Asks

/-!
# Members by tags

The tags of guests are read for one snapshot of every VMID: the newest of all sources. A group
may restrict its sources, and then selects among the newest snapshots of those. Where the two
choices differ, the tags of the selected snapshot were not read, and a member that the group has
by its tags alone is lost. `resolves_as_tagged_iff` says that this is the only loss, for all three
ways in which the rows of a plan are resolved.
-/

namespace RestoreEngine

open Effects Prog Program

variable {w w' : World} {mt : Matching} {groups : List Group} {backups : List Row}
  {cutoff : String} {tagOf : String → List String}

/-! ### Tag maps -/

/-- The tags of the snapshots `rows`. -/
def tagsOf (tagOf : String → List String) (rows : List Row) : TagMap :=
  rows.map fun row => (row.backupId, tagOf row.backupId)

private theorem lookup_tagsOf {rows : List Row} {id : String} :
    (tagsOf tagOf rows).lookup id =
      if ∃ row ∈ rows, row.backupId = id then some (tagOf id) else none := by
  induction rows with
  | nil => simp [tagsOf]
  | cons row rest ih =>
    rw [tagsOf, List.map_cons, List.lookup_cons, ← tagsOf, ih]
    by_cases hid : row.backupId = id
    · subst hid
      simp
    · have hne : (id == row.backupId) = false := by
        simpa using Ne.symm hid
      simp [hne, hid]

/-- The tags of a backup that is among the rows. -/
private theorem rowTags_of_mem {rows : List Row} {row : Row}
    (h : ∃ r ∈ rows, r.backupId = row.backupId) :
    rowTags mt (tagsOf tagOf rows) row = (tagOf row.backupId).map mt.lower := by
  rw [rowTags, lookup_tagsOf, if_pos h, Option.getD_some]

private theorem rowTags_of_not_mem {rows : List Row} {row : Row}
    (h : ¬ ∃ r ∈ rows, r.backupId = row.backupId) : rowTags mt (tagsOf tagOf rows) row = [] := by
  rw [rowTags, lookup_tagsOf, if_neg h]
  rfl

/-! ### What a group resolves to -/

private theorem tagCandidates_ok (hvmids : HaveVmids backups) :
    tagCandidates backups cutoff = .ok (latestPerVmid backups cutoff) := by
  rw [tagCandidates, requireVmids_ok hvmids]
  rfl

/-- The rows of all groups. -/
def resolvedRows (mt : Matching) (groups : List Group) (backups : List Row) (cutoff : String)
    (tags : TagMap) : List (List Row) :=
  groups.map fun group => group.rows mt backups cutoff tags

theorem mapM_resolveGroupRows (hvmids : HaveVmids backups) (tags : TagMap) :
    (groups.mapM fun group => resolveGroupRows mt group backups cutoff tags) =
      .ok (resolvedRows mt groups backups cutoff tags) := by
  induction groups with
  | nil => rfl
  | cons group rest ih =>
    rw [List.mapM_cons, ih, resolveGroupRows_ok hvmids]
    rfl

/-- The tags of every snapshot at or before the cutoff. -/
def allTags (tagOf : String → List String) (backups : List Row) (cutoff : String) : TagMap :=
  tagsOf tagOf (backups.filter fun row => row.timestamp ≤ cutoff)

/-- The tags that are read. -/
def readTagsOf (tagOf : String → List String) (backups : List Row) (cutoff : String) : TagMap :=
  tagsOf tagOf (latestPerVmid backups cutoff)

namespace Group

/-- The group has the member by its tags alone. -/
def HasByTags (mt : Matching) (group : Group) (tagOf : String → List String) (row : Row) :
    Prop :=
  group.picks mt row = false ∧ group.excludes mt row = false ∧ group.wantedTags mt ≠ [] ∧
    ∀ t ∈ group.wantedTags mt, t ∈ (tagOf row.backupId).map mt.lower

/-- Whoever is a member by tags alone has had the tags of its newest snapshot read. -/
def TagsReach (mt : Matching) (group : Group) (backups : List Row) (cutoff : String)
    (tagOf : String → List String) : Prop :=
  ∀ row ∈ group.best mt backups cutoff, group.HasByTags mt tagOf row →
    ∃ newest ∈ latestPerVmid backups cutoff, newest.backupId = row.backupId

/-- The newest backups of the group's sources are at or before the cutoff. -/
private theorem best_listed {group : Group} {row : Row} (h : row ∈ group.best mt backups cutoff) :
    ∃ r ∈ backups.filter fun r => r.timestamp ≤ cutoff, r.backupId = row.backupId := by
  obtain ⟨hmem, hle⟩ := mem_latestPerVmid h
  exact ⟨row, List.mem_filter.mpr ⟨(List.mem_filter.mp hmem).1, decide_eq_true hle⟩, rfl⟩

/-- Whether the read tags select a backup as all tags do. -/
private theorem selects_eq_iff {group : Group} {row : Row}
    (hbest : row ∈ group.best mt backups cutoff) :
    group.selects mt (readTagsOf tagOf backups cutoff) row =
        group.selects mt (allTags tagOf backups cutoff) row ↔
      (group.HasByTags mt tagOf row →
        ∃ newest ∈ latestPerVmid backups cutoff, newest.backupId = row.backupId) := by
  have hall : rowTags mt (allTags tagOf backups cutoff) row = (tagOf row.backupId).map mt.lower :=
    rowTags_of_mem (best_listed hbest)
  by_cases hread : ∃ newest ∈ latestPerVmid backups cutoff, newest.backupId = row.backupId
  · have hrow : rowTags mt (readTagsOf tagOf backups cutoff) row =
        (tagOf row.backupId).map mt.lower := rowTags_of_mem hread
    have hsame : group.selects mt (readTagsOf tagOf backups cutoff) row =
        group.selects mt (allTags tagOf backups cutoff) row := by
      rw [selects, selects, taggedBy, taggedBy, hall, hrow]
    exact ⟨fun _ _ => hread, fun _ => hsame⟩
  · have hnone : group.taggedBy mt (readTagsOf tagOf backups cutoff) row = false := by
      rw [taggedBy, readTagsOf, rowTags_of_not_mem hread, decide_eq_false_iff_not]
      rintro ⟨hwanted, hmem⟩
      obtain ⟨t, ht⟩ := List.exists_mem_of_ne_nil _ hwanted
      exact List.not_mem_nil (hmem t ht)
    have htagged : group.taggedBy mt (allTags tagOf backups cutoff) row = true ↔
        group.wantedTags mt ≠ [] ∧
          ∀ t ∈ group.wantedTags mt, t ∈ (tagOf row.backupId).map mt.lower := by
      rw [taggedBy, hall, decide_eq_true_iff]
    rw [selects, selects, hnone, Bool.or_false]
    constructor
    · intro hsame hmember
      obtain ⟨hpicks, hexcludes, hwanted⟩ := hmember
      rw [hpicks, hexcludes, htagged.mpr hwanted] at hsame
      cases hsame
    · intro hreach
      cases hpicks : group.picks mt row with
      | true => rw [Bool.true_or]
      | false =>
        cases hexcludes : group.excludes mt row with
        | true => rw [Bool.not_true, Bool.and_false, Bool.and_false]
        | false =>
          have hnot : group.taggedBy mt (allTags tagOf backups cutoff) row = false :=
            eq_false_of_ne_true fun htag => hread (hreach ⟨hpicks, hexcludes, htagged.mp htag⟩)
          rw [hnot]
          rfl

/-- **When a group loses nothing.** -/
private theorem rows_eq_iff {group : Group} :
    group.rows mt backups cutoff (readTagsOf tagOf backups cutoff) =
        group.rows mt backups cutoff (allTags tagOf backups cutoff) ↔
      group.TagsReach mt backups cutoff tagOf := by
  constructor
  · intro hrows row hbest
    refine (selects_eq_iff hbest).mp ?_
    have hmem : ∀ tags, row ∈ group.rows mt backups cutoff tags ↔
        group.selects mt tags row = true := by
      intro tags
      rw [rows, List.mem_mergeSort, List.mem_filter]
      exact ⟨fun h => h.2, fun h => ⟨hbest, h⟩⟩
    rw [Bool.eq_iff_iff, ← hmem, ← hmem, hrows]
  · intro hreach
    have hfilter : (group.best mt backups cutoff).filter
          (group.selects mt (readTagsOf tagOf backups cutoff)) =
        (group.best mt backups cutoff).filter (group.selects mt (allTags tagOf backups cutoff)) :=
      List.filter_congr fun row hbest => (selects_eq_iff hbest).mpr (hreach row hbest)
    rw [rows, rows, hfilter]

/-- A group without tags needs none. -/
private theorem rows_of_no_tags {group : Group} (htags : group.tags = []) (tags tags' : TagMap) :
    group.rows mt backups cutoff tags = group.rows mt backups cutoff tags' := by
  have hnone : ∀ tags row, group.taggedBy mt tags row = false := by
    intro tags row
    simp [taggedBy, wantedTags, htags]
  have hselects : ∀ row, group.selects mt tags row = group.selects mt tags' row := by
    intro row
    rw [selects, selects, hnone, hnone]
  rw [rows, rows, List.filter_congr fun row _ => hselects row]

end Group

/-- The tags that are read, if there is a group that asks for some. -/
def neededTags (groups : List Group) (tagOf : String → List String) (backups : List Row)
    (cutoff : String) : TagMap :=
  if needTags groups then readTagsOf tagOf backups cutoff else []

/-- **When no group loses anything.** -/
private theorem resolvedRows_eq_iff :
    resolvedRows mt groups backups cutoff (neededTags groups tagOf backups cutoff) =
        resolvedRows mt groups backups cutoff (allTags tagOf backups cutoff) ↔
      ∀ group ∈ groups, group.TagsReach mt backups cutoff tagOf := by
  rw [resolvedRows, resolvedRows, List.map_inj_left]
  refine forall₂_congr fun group hgroup => ?_
  rw [neededTags]
  split_ifs with hneed
  · exact Group.rows_eq_iff
  · have htags : group.tags = [] := by
      by_contra hnot
      exact hneed (List.any_eq_true.mpr ⟨group, hgroup, decide_eq_true hnot⟩)
    rw [Group.rows_of_no_tags htags [] (readTagsOf tagOf backups cutoff)]
    exact Group.rows_eq_iff

/-! ### The three ways to resolve the rows of a plan -/

/-- Who resolves the rows of a plan. -/
inductive RowResolver
  /-- `_resolve_plan_group_rows`, for a run or a preview. -/
  | request (node : String)
  /-- `run_plan_readiness`. -/
  | readiness (location : Location)
  /-- `_start_scheduled`. -/
  | scheduled (location : Location)

/-- The rows that the resolver obtains for the groups. -/
def RowResolver.program (mt : Matching) (groupIds : List Uuid) (cutoff : String) :
    RowResolver → Prog (List (List Row))
  | request node => resolvePlanGroupRows mt groupIds cutoff node
  | readiness location => do
    let (groups, _) ← checkGroups groupIds
    Prod.fst <$> checkPlacement mt location groups cutoff
  | scheduled location => resolveScheduledRows mt groupIds cutoff location

/-- The location names a node, as every stored location does. -/
def Location.NamesNode (location : Location) : Prop :=
  Text.strip location.node ≠ "" ∧ ∀ node ∈ location.nodes, node ≠ ""

/-- There is a node to read tags on. -/
def RowResolver.HasNode : RowResolver → Prop
  | request _ => True
  | readiness location | scheduled location => location.NamesNode

/-- The inventory and the tags that are read. -/
structure World.Shows (w : World) (backups : List Row) (tagOf : String → List String) : Prop where
  backups : ∀ a, w.answers .backups a = .ok backups
  tags : ∀ rows node a, w.answers (.tags rows node) a = .ok (tagsOf tagOf rows, [])

/-- The groups are stored under the ids. -/
def World.HasGroups (w : World) (groupIds : List Uuid) (groups : List Group) : Prop :=
  List.Forall₂ (fun id group => w.group id = some group) groupIds groups

section Programs

variable {groupIds : List Uuid} {resolver : RowResolver}

/-- A probe with a determined answer. -/
private theorem satisfies_ask {p : Probe} {r : p.Reply} (h : ∀ a, w.answers p a = .ok r)
    {Q : Except Exn p.Reply → World → Prop} :
    Satisfies environment.machine Q w (ask p) ↔ Q (.ok r) w := by
  rw [ask, satisfies_bind, satisfies_issue_iff]
  constructor
  · intro hall
    have hone := hall .ok (.ok r) w (by simp only [environment, h])
    simpa using hone
  · intro hQ a x w' ha
    simp only [environment, h, Option.some.injEq, Prod.mk.injEq] at ha
    obtain ⟨rfl, rfl⟩ := ha
    simpa using hQ

private theorem loadGroups_spec {missing : Uuid → Exn} (h : w.HasGroups groupIds groups) :
    Satisfies environment.machine (fun out w' => out = .ok groups ∧ w' = w) w
      (loadGroups missing groupIds) := by
  induction h with
  | nil => exact satisfies_ret.mpr ⟨rfl, rfl⟩
  | cons hgroup _ ih =>
    rw [loadGroups, satisfies_bind, satisfies_getGroup, hgroup, then_ok, satisfies_bind]
    refine ih.mono ?_
    rintro out w' ⟨rfl, rfl⟩
    exact then_ok.mpr (satisfies_ret.mpr ⟨rfl, rfl⟩)

theorem checkGroups_spec (h : w.HasGroups groupIds groups) :
    Satisfies environment.machine (fun out w' => out = .ok (groups, []) ∧ w' = w) w
      (checkGroups groupIds) := by
  induction h with
  | nil => exact satisfies_ret.mpr ⟨rfl, rfl⟩
  | cons hgroup _ ih =>
    rw [checkGroups, satisfies_bind, satisfies_getGroup, hgroup, then_ok, satisfies_bind]
    refine ih.mono ?_
    rintro out w' ⟨rfl, rfl⟩
    exact then_ok.mpr (satisfies_ret.mpr ⟨rfl, rfl⟩)

/-- The rows that are resolved with the tags that are read. -/
private theorem satisfies_resolved (hvmids : HaveVmids backups) {tags : TagMap}
    {Q : Except Exn (List (List Row)) → World → Prop} :
    Satisfies environment.machine Q w (Program.ofExcept
        (groups.mapM fun group => resolveGroupRows mt group backups cutoff tags)) ↔
      Q (.ok (resolvedRows mt groups backups cutoff tags)) w := by
  rw [satisfies_ofExcept, mapM_resolveGroupRows hvmids]

private theorem request_spec (hshows : w.Shows backups tagOf) (hvmids : HaveVmids backups)
    (hgroups : w.HasGroups groupIds groups) (node : String) :
    Satisfies environment.machine (fun out _ => out = .ok (resolvedRows mt groups backups cutoff
      (neededTags groups tagOf backups cutoff))) w
      (resolvePlanGroupRows mt groupIds cutoff node) := by
  rw [resolvePlanGroupRows, satisfies_bind, satisfies_ask hshows.backups, then_ok, satisfies_bind]
  refine (loadGroups_spec hgroups).mono ?_
  rintro out w' ⟨rfl, rfl⟩
  rw [then_ok, neededTags]
  split_ifs with hneed
  · rw [tagCandidates_ok hvmids]
    simp only [Program.ofExcept_ok, ret_bind, map_eq_bind]
    rw [satisfies_bind, satisfies_bind, satisfies_ask (hshows.tags _ _), then_ok, satisfies_ret,
      then_ok, satisfies_resolved hvmids]
    rfl
  · exact (satisfies_resolved hvmids).mpr rfl

/-- A probe that is tried leaves the world as it was. -/
theorem satisfies_tried (p : Probe) :
    Satisfies environment.machine (fun out w' => (∃ x, out = .ok x) ∧ w' = w) w
      (ask p).attempt := by
  rw [ask, satisfies_attempt, satisfies_bind]
  refine (satisfies_issue_iff (.probe p)).mpr fun a r w' ha => ?_
  have hw : w = w' := congrArg Prod.snd (Option.some.inj ha)
  subst hw
  rw [then_ok, satisfies_ofExcept]
  exact ⟨⟨_, rfl⟩, rfl⟩

private theorem knownNodes_quiet :
    Satisfies environment.machine (fun out w' => (∃ x, out = .ok x) ∧ w' = w) w knownNodes := by
  rw [knownNodes, satisfies_bind]
  refine (satisfies_tried .nodes).mono ?_
  rintro out w' ⟨⟨x, rfl⟩, rfl⟩
  rw [then_ok]
  cases x <;> exact satisfies_ret.mpr ⟨⟨_, rfl⟩, rfl⟩

private theorem checkNode_quiet (location : Location) (known : List String) (node : String) :
    Satisfies environment.machine (fun out w' => (∃ x, out = .ok x) ∧ w' = w) w
      (checkNode location known node) := by
  rw [checkNode]
  refine Satisfies.ite (fun _ => satisfies_ret.mpr ⟨⟨_, rfl⟩, rfl⟩) fun _ => ?_
  rw [satisfies_bind]
  refine (satisfies_tried (.storages node)).mono ?_
  rintro out w' ⟨⟨x, rfl⟩, rfl⟩
  rw [then_ok]
  cases x <;> exact satisfies_ret.mpr ⟨⟨_, rfl⟩, rfl⟩

private theorem checkNodes_quiet (location : Location) (known nodes : List String) :
    Satisfies environment.machine (fun out w' => (∃ x, out = .ok x) ∧ w' = w) w
      (checkNodes location known nodes) := by
  induction nodes with
  | nil => exact satisfies_ret.mpr ⟨⟨_, rfl⟩, rfl⟩
  | cons node rest ih =>
    rw [checkNodes, satisfies_bind]
    refine (checkNode_quiet location known node).mono ?_
    rintro out w' ⟨⟨item, rfl⟩, rfl⟩
    rw [then_ok, satisfies_bind]
    refine ih.mono ?_
    rintro out w' ⟨⟨items, rfl⟩, rfl⟩
    exact then_ok.mpr (satisfies_ret.mpr ⟨⟨_, rfl⟩, rfl⟩)

private theorem checkVmids_quiet (location : Location) (rows : List Row) :
    Satisfies environment.machine (fun out w' => (∃ x, out = .ok x) ∧ w' = w) w
      (checkVmids location rows) := by
  rw [checkVmids]
  refine Satisfies.ite (fun _ => satisfies_ret.mpr ⟨⟨_, rfl⟩, rfl⟩) fun _ => ?_
  rw [satisfies_bind]
  refine (satisfies_tried .vmids).mono ?_
  rintro out w' ⟨⟨x, rfl⟩, rfl⟩
  rw [then_ok]
  cases x <;> exact satisfies_ret.mpr ⟨⟨_, rfl⟩, rfl⟩

/-- A probe with a determined answer that is tried. -/
theorem satisfies_tried_answer {p : Probe} {r : p.Reply}
    (h : ∀ a, w.answers p a = .ok r) {Q : Except Exn (Except Exn p.Reply) → World → Prop} :
    Satisfies environment.machine Q w (ask p).attempt ↔ Q (.ok (.ok r)) w := by
  rw [satisfies_attempt, satisfies_ask h]

private theorem listBackups_spec (hshows : w.Shows backups tagOf) :
    Satisfies environment.machine (fun out w' => out = .ok (backups, []) ∧ w' = w) w
      listBackups := by
  rw [listBackups, satisfies_bind, satisfies_tried_answer hshows.backups, then_ok]
  exact satisfies_ret.mpr ⟨rfl, rfl⟩

/-- A node to read tags on is found. -/
private theorem checkTagNode_ne {location : Location} (hnode : location.NamesNode) :
    checkTagNode location ≠ "" := by
  have hfallback : location.node ≠ "" := by
    intro hempty
    refine hnode.1 ?_
    rw [hempty]
    decide
  rw [checkTagNode, Location.checkedNodes]
  split_ifs with hnone
  · exact hfallback
  · cases hnodes : location.nodes with
    | nil => exact hfallback
    | cons node rest => exact hnode.2 node (hnodes ▸ List.mem_cons_self)

private theorem neededTags_nil : neededTags groups tagOf [] cutoff = [] := by
  rw [neededTags]
  split_ifs <;> rfl

private theorem checkTags_spec {location : Location} (hshows : w.Shows backups tagOf)
    (hvmids : HaveVmids backups) (hnode : location.NamesNode) :
    Satisfies environment.machine
      (fun out w' => out = .ok (neededTags groups tagOf backups cutoff, []) ∧ w' = w) w
      (checkTags location groups backups cutoff) := by
  rw [checkTags]
  refine Satisfies.ite (fun hneed => ?_) fun hneed => ?_
  · rw [tagCandidates_ok hvmids]
    simp only [Program.ofExcept_ok, ret_bind]
    rw [readTags, if_neg (checkTagNode_ne hnode), satisfies_bind,
      satisfies_tried_answer (hshows.tags _ _), then_ok]
    refine satisfies_ret.mpr ⟨?_, rfl⟩
    rw [neededTags, if_pos hneed.1]
    rfl
  · refine satisfies_ret.mpr ⟨?_, rfl⟩
    by_cases hbackups : backups = []
    · rw [hbackups, neededTags_nil]
    · rw [neededTags, if_neg fun h => hneed ⟨h, hbackups⟩]

theorem checkPlacement_spec {location : Location} (hshows : w.Shows backups tagOf)
    (hvmids : HaveVmids backups) (hnode : location.NamesNode) :
    Satisfies environment.machine (fun out _ => ∃ items, out = .ok (resolvedRows mt groups backups
      cutoff (neededTags groups tagOf backups cutoff), items)) w
      (checkPlacement mt location groups cutoff) := by
  rw [checkPlacement, satisfies_bind]
  refine knownNodes_quiet.mono ?_
  rintro out w' ⟨⟨⟨known, nodesItems⟩, rfl⟩, rfl⟩
  rw [then_ok, satisfies_bind]
  refine (checkNodes_quiet location known _).mono ?_
  rintro out w' ⟨⟨nodeItems, rfl⟩, rfl⟩
  rw [then_ok, satisfies_bind]
  refine (listBackups_spec hshows).mono ?_
  rintro out w' ⟨rfl, rfl⟩
  rw [then_ok, satisfies_bind]
  refine (checkTags_spec hshows hvmids hnode).mono ?_
  rintro out w' ⟨rfl, rfl⟩
  rw [then_ok, satisfies_bind, satisfies_resolved hvmids, then_ok, satisfies_bind]
  refine (checkVmids_quiet location _).mono ?_
  rintro out w' ⟨⟨vmidsItems, rfl⟩, rfl⟩
  exact then_ok.mpr (satisfies_ret.mpr ⟨_, rfl⟩)

private theorem tagNode_ne {location : Location} (hnode : location.NamesNode) :
    tagNode location ≠ "" := by
  rw [tagNode]
  cases hfound : (location.nodes.map Text.strip).find? (· ≠ "") with
  | none => exact hnode.1
  | some node => simpa using List.find?_some hfound

private theorem scheduledTags_spec {location : Location} (hshows : w.Shows backups tagOf)
    (hvmids : HaveVmids backups) (hnode : location.NamesNode) :
    Satisfies environment.machine
      (fun out w' => out = .ok (readTagsOf tagOf backups cutoff) ∧ w' = w) w
      (scheduledTags backups cutoff location) := by
  have hall : backups.filter (·.vmid.isSome) = backups := List.filter_eq_self.mpr hvmids
  rw [scheduledTags, hall]
  refine Satisfies.ite (fun hempty => absurd hempty (tagNode_ne hnode)) fun _ => ?_
  refine Satisfies.ite (fun hnone => ?_) fun _ => ?_
  · refine satisfies_ret.mpr ⟨?_, rfl⟩
    rw [readTagsOf, hnone]
    rfl
  · rw [map_eq_bind, satisfies_bind, satisfies_ask (hshows.tags _ _), then_ok]
    exact satisfies_ret.mpr ⟨rfl, rfl⟩

private theorem scheduled_spec {location : Location} (hshows : w.Shows backups tagOf)
    (hvmids : HaveVmids backups) (hgroups : w.HasGroups groupIds groups)
    (hnode : location.NamesNode) :
    Satisfies environment.machine (fun out _ => out = .ok (resolvedRows mt groups backups cutoff
      (neededTags groups tagOf backups cutoff))) w
      (resolveScheduledRows mt groupIds cutoff location) := by
  rw [resolveScheduledRows, satisfies_bind, satisfies_ask hshows.backups, then_ok, satisfies_bind]
  refine (loadGroups_spec hgroups).mono ?_
  rintro out w' ⟨rfl, rfl⟩
  rw [then_ok, neededTags]
  split_ifs with hneed
  · rw [satisfies_bind]
    refine (scheduledTags_spec hshows hvmids hnode).mono ?_
    rintro out w' ⟨rfl, rfl⟩
    rw [then_ok, satisfies_resolved hvmids]
  · exact (satisfies_resolved hvmids).mpr rfl

/-- **What every resolver obtains**: the rows with the tags that are read. -/
theorem program_spec (hshows : w.Shows backups tagOf) (hvmids : HaveVmids backups)
    (hgroups : w.HasGroups groupIds groups) (hnode : resolver.HasNode) :
    Satisfies environment.machine (fun out _ => out = .ok (resolvedRows mt groups backups cutoff
      (neededTags groups tagOf backups cutoff))) w
      (resolver.program mt groupIds cutoff) := by
  cases resolver with
  | request node => exact request_spec hshows hvmids hgroups node
  | readiness location =>
    rw [RowResolver.program, satisfies_bind]
    refine (checkGroups_spec hgroups).mono ?_
    rintro out w' ⟨rfl, rfl⟩
    rw [then_ok]
    dsimp only
    rw [map_eq_bind, satisfies_bind]
    refine (checkPlacement_spec hshows hvmids hnode).mono ?_
    rintro out w' ⟨items, rfl⟩
    exact then_ok.mpr (satisfies_ret.mpr rfl)
  | scheduled location => exact scheduled_spec hshows hvmids hgroups hnode

private theorem program_asks : (resolver.program mt groupIds cutoff).Only Op.Asks := by
  cases resolver with
  | request node => exact resolvePlanGroupRows_asks groupIds node
  | readiness location =>
    refine Only.bind (checkGroups_asks groupIds) fun read => ?_
    obtain ⟨groups, items⟩ := read
    dsimp only
    rw [map_eq_bind]
    exact Only.bind (checkPlacement_asks _) fun _ => only_ret
  | scheduled location => exact resolveScheduledRows_asks groupIds

/-- **Members by tags.** The rows that a resolver obtains are those that the tags of every snapshot
give, exactly if every group finds the tags of its members by tags alone among those that are
read. -/
theorem resolves_as_tagged_iff (hshows : w.Shows backups tagOf) (hvmids : HaveVmids backups)
    (hgroups : w.HasGroups groupIds groups) (hnode : resolver.HasNode) :
    (∀ out w', Ends environment (resolver.program mt groupIds cutoff) w out w' →
        out = groups.mapM fun group =>
          resolveGroupRows mt group backups cutoff (allTags tagOf backups cutoff)) ↔
      ∀ group ∈ groups, group.TagsReach mt backups cutoff tagOf := by
  have hspec : ∀ out w', Ends environment (resolver.program mt groupIds cutoff) w out w' →
      out = .ok (resolvedRows mt groups backups cutoff
        (neededTags groups tagOf backups cutoff)) :=
    satisfies_iff_ends.mp (program_spec hshows hvmids hgroups hnode)
  rw [mapM_resolveGroupRows hvmids, ← resolvedRows_eq_iff]
  constructor
  · intro hall
    obtain ⟨out, w', hends⟩ := exists_run (program_asks.mono fun o ho => ho.ne_park) w
    have hread := hspec out w' hends
    rw [hall out w' hends] at hread
    exact (Except.ok.inj hread).symm
  · intro hsame out w' hends
    rw [hspec out w' hends, hsame]

end Programs

/-! ### A replicated backup -/

/-- One guest on two sources, where the second has the newer snapshot. -/
private def twoSources : List Row :=
  [{ backupId := "a|vm/109/1", vmid := some 109, timestamp := "2026-08-06T10:00:00Z"
     pveStorage := "pbs-a", voltail := "vm/109/1", sourceId := "a" },
   { backupId := "b|vm/109/2", vmid := some 109, timestamp := "2026-08-07T10:00:00Z"
     pveStorage := "pbs-b", voltail := "vm/109/2", sourceId := "b" }]

/-- The cutoff of the examples. -/
private def replicaCutoff : String := "2026-08-08T00:00:00Z"

/-- A group of tagged guests, of the sources. -/
private def taggedGroup (sourceIds : List String) : Group :=
  { id := 2, name := "g1", tags := ["prod"], sourceIds }

/-- A world with one group, whose backups all have the tag. -/
private def taggedWorld (group : Group) : World where
  groups := (∅ : AList fun _ : Uuid => Group).insert 2 group
  answers
    | .backups, _ => .ok twoSources
    | .tags rows _, _ => .ok (tagsOf (fun _ => ["prod"]) rows, [])
    | _, _ => .error (.api "no answer")

private theorem taggedWorld_shows (group : Group) :
    (taggedWorld group).Shows twoSources fun _ => ["prod"] :=
  ⟨fun _ => rfl, fun _ _ _ => rfl⟩

private theorem twoSources_vmids : HaveVmids twoSources := by
  decide

/-- A guest that is lost: its newest snapshot is on the other source. -/
theorem resolve_loses_replica :
    ∃ (mt : Matching) (w : World) (group : Group) (backups : List Row) (cutoff : String)
      (tagOf : String → List String) (groupRows : List (List Row)) (w' : World),
      w.Shows backups tagOf ∧ HaveVmids backups ∧ w.HasGroups [2] [group] ∧
        Ends environment (resolvePlanGroupRows mt [2] cutoff "pve") w (.ok groupRows) w' ∧
        groupRows = [[]] ∧
        resolveGroupRows mt group backups cutoff (allTags tagOf backups cutoff) ≠ .ok [] := by
  have hrun : ((resolvePlanGroupRows Matching.unused [2] replicaCutoff "pve").run environment []
      (taggedWorld (taggedGroup ["a"]))).map (fun end_ => end_.1.toOption) =
        some (some [[]]) := by decide +kernel
  obtain ⟨out, w', hends, hout⟩ := exists_ends_of_run hrun
  cases out with
  | error e => cases hout
  | ok groupRows =>
    refine ⟨Matching.unused, taggedWorld (taggedGroup ["a"]), taggedGroup ["a"], twoSources,
      replicaCutoff, fun _ => ["prod"], groupRows, w', taggedWorld_shows _, twoSources_vmids,
      .cons rfl .nil, hends, Option.some.inj hout, ?_⟩
    decide +kernel

/-- A group without sources loses nothing. -/
theorem resolves_as_tagged_all_sources :
    HaveVmids twoSources ∧ ∀ out w',
      Ends environment ((RowResolver.request "pve").program Matching.unused [2] replicaCutoff)
        (taggedWorld (taggedGroup [])) out w' →
      out = [taggedGroup []].mapM fun group =>
        resolveGroupRows Matching.unused group twoSources replicaCutoff
          (allTags (fun _ => ["prod"]) twoSources replicaCutoff) := by
  have hnode : (RowResolver.request "pve").HasNode := trivial
  refine ⟨twoSources_vmids, ?_⟩
  refine (resolves_as_tagged_iff (taggedWorld_shows _) twoSources_vmids (.cons rfl .nil)
    hnode).mpr fun group hgroup row hrow _ => ?_
  obtain rfl := List.mem_singleton.mp hgroup
  have hbest : (taggedGroup []).best .unused twoSources replicaCutoff =
      latestPerVmid twoSources replicaCutoff := by decide +kernel
  exact ⟨row, hbest ▸ hrow, rfl⟩

end RestoreEngine
