import Mathlib.Data.String.Basic
import RestoreEngine.Lists.Newest
import RestoreEngine.Model.Registry

/-!
# The members of a group

What `resolveGroupRows` returns, in terms of the inventory: of every VMID, the first of the newest
snapshots that the group's sources have at or before the cutoff, if the group wants that snapshot
(`resolveGroupRows_spec`). Stored groups have gone through `normalizeGroup`, which leaves no blank
tags and no ranges that cannot be read (`normalizeGroup_normalized`).
-/

namespace RestoreEngine

open RestoreEngine.Lists

variable {mt : Matching} {group : Group} {backups : List Row} {cutoff : String} {tags : TagMap}
  {row : Row}

/-! ### The newest backups -/

private theorem enterNewest_eq (row : Row) (best : List Row) :
    enterNewest row best = enter (·.vmid) (·.timestamp) row best := by
  induction best with
  | nil => rfl
  | cons cur rest ih => rw [enterNewest, enter, ih]

/-- **The newest backups** at or before the cutoff, one for each VMID. -/
theorem latestPerVmid_eq (backups : List Row) (cutoff : String) :
    latestPerVmid backups cutoff =
      newest (·.vmid) (·.timestamp) (backups.filter fun row => row.timestamp ≤ cutoff) := by
  rw [latestPerVmid, newest, List.foldl_filter]
  congr 1
  funext best row
  by_cases hlate : cutoff < row.timestamp
  · rw [if_pos hlate, if_neg (mt of_decide_eq_true (not_le.mpr hlate))]
  · rw [if_neg hlate, if_pos (decide_eq_true (not_lt.mp hlate)), enterNewest_eq]

theorem mem_latestPerVmid_iff : row ∈ latestPerVmid backups cutoff ↔
    IsFirstNewest (·.vmid) (·.timestamp) (backups.filter fun row => row.timestamp ≤ cutoff) row := by
  rw [latestPerVmid_eq, mem_newest]

/-- The newest backups are among the backups, and not after the cutoff. -/
theorem mem_latestPerVmid (h : row ∈ latestPerVmid backups cutoff) :
    row ∈ backups ∧ row.timestamp ≤ cutoff := by
  have hmem := List.mem_filter.mp (mem_latestPerVmid_iff.mp h).mem
  exact ⟨hmem.1, of_decide_eq_true hmem.2⟩

/-! ### Stored groups -/

/-- What `normalize_group` makes sure of. -/
structure Group.Normalized (group : Group) : Prop where
  tags : ∀ tag ∈ group.tags, Text.strip tag ≠ ""
  ranges : ∀ r ∈ group.vmidRanges, 0 ≤ r.first ∧ r.first ≤ r.last

private theorem normalizeVmidRanges_spec {ranges out : List VmidRange}
    (h : normalizeVmidRanges ranges = .ok out) : ∀ r ∈ out, 0 ≤ r.first ∧ r.first ≤ r.last := by
  induction ranges generalizing out with
  | nil =>
    obtain rfl := Except.ok.inj h
    exact fun r hr => (List.not_mem_nil hr).elim
  | cons r rest ih =>
    rw [normalizeVmidRanges] at h
    obtain ⟨hpos, h⟩ := Effects.of_ite_ok h
    obtain ⟨others, hothers, h⟩ := Effects.of_bind_ok h
    obtain rfl := Except.ok.inj h
    intro r' hr'
    rcases List.mem_cons.mp hr' with rfl | hr'
    · exact ⟨not_lt.mp hpos, min_le_max⟩
    · exact ih hothers r' hr'

/-- Ranges that can be read stay as they are. -/
private theorem normalizeVmidRanges_eq {ranges : List VmidRange}
    (h : ∀ r ∈ ranges, 0 ≤ r.first ∧ r.first ≤ r.last) : normalizeVmidRanges ranges = .ok ranges := by
  induction ranges with
  | nil => rfl
  | cons r rest ih =>
    obtain ⟨hpos, hle⟩ := h r List.mem_cons_self
    rw [normalizeVmidRanges, min_eq_left hle, max_eq_right hle, if_neg (not_lt.mpr hpos),
      ih fun r' hr' => h r' (List.mem_cons_of_mem _ hr')]
    rfl

/-- **Stored groups.** -/
theorem normalizeGroup_normalized {payload : GroupPayload} {data : Uuid → Group} {id : Uuid}
    (h : normalizeGroup mt payload = .ok data) : (data id).Normalized := by
  rw [normalizeGroup] at h
  obtain ⟨-, h⟩ := Effects.of_ite_ok h
  obtain ⟨namePatterns, -, h⟩ := Effects.of_bind_ok h
  obtain ⟨vmidRanges, hranges, h⟩ := Effects.of_bind_ok h
  obtain ⟨excludeNamePatterns, -, h⟩ := Effects.of_bind_ok h
  obtain ⟨-, h⟩ := Effects.of_ite_ok h
  obtain rfl := Except.ok.inj h
  constructor
  · intro tag htag
    obtain ⟨hmem, hne⟩ := List.mem_filter.mp htag
    obtain ⟨raw, -, rfl⟩ := List.mem_map.mp hmem
    rw [Text.strip_strip]
    exact of_decide_eq_true hne
  · exact normalizeVmidRanges_spec hranges

/-! ### Selectors -/

/-- The snapshot that the group has of a VMID: the first of the newest ones at or before the
cutoff. -/
def Group.HasSnapshot (mt : Matching) (group : Group) (backups : List Row) (cutoff : String)
    (row : Row) : Prop :=
  IsFirstNewest (·.vmid) (·.timestamp)
    (backups.filter fun row => group.admits mt row ∧ row.timestamp ≤ cutoff) row

/-- The group wants the snapshot, of the VMID `vmid`. -/
structure Group.Wants (mt : Matching) (group : Group) (tags : TagMap) (vmid : ℤ) (row : Row) :
    Prop where
  selected : vmid ∈ group.vmids ∨ (∃ r ∈ group.vmidRanges, r.first ≤ vmid ∧ vmid ≤ r.last) ∨
    guestNameMatches mt row.name group.namePatterns = true ∨
    (group.tags ≠ [] ∧ ∀ tag ∈ group.tags, mt.lower tag ∈ rowTags mt tags row)
  vmid_kept : vmid ∉ group.excludeVmids
  name_kept : guestNameMatches mt row.name group.excludeNamePatterns = false

/-- Blank patterns match nothing, and blanks around a pattern do not matter. -/
private theorem guestNameMatches_patterns (name : String) (raw : List String) :
    guestNameMatches mt name (Group.patterns raw) = guestNameMatches mt name raw := by
  induction raw with
  | nil => rfl
  | cons p rest ih =>
    rw [Group.patterns] at ih
    rw [Group.patterns, List.map_cons, List.filter_cons]
    by_cases hblank : Text.strip p = ""
    · rw [if_neg (by simp [hblank]), ih]
      simp [guestNameMatches, hblank]
    · rw [if_pos (decide_eq_true hblank)]
      simp only [guestNameMatches, List.any_cons, Text.strip_strip] at ih ⊢
      rw [ih]

private theorem Group.Normalized.wantedTags_eq (h : group.Normalized) :
    group.wantedTags mt = group.tags.map mt.lower := by
  rw [Group.wantedTags, List.filter_eq_self.mpr fun tag htag => decide_eq_true (h.tags tag htag)]

/-- **What a group selects.** -/
private theorem Group.Normalized.selects_iff (h : group.Normalized) {vmid : ℤ}
    (hvmid : row.vmid = some vmid) :
    group.selects mt tags row = true ↔ group.Wants mt tags vmid row := by
  have htags : group.taggedBy mt tags row = true ↔
      group.tags ≠ [] ∧ ∀ tag ∈ group.tags, mt.lower tag ∈ rowTags mt tags row := by
    rw [Group.taggedBy, decide_eq_true_iff, h.wantedTags_eq, List.forall_mem_map, Ne,
      List.map_eq_nil_iff]
  have hranges : vmidInRanges vmid ((normalizeVmidRanges group.vmidRanges).toOption.getD []) =
      true ↔ ∃ r ∈ group.vmidRanges, r.first ≤ vmid ∧ vmid ≤ r.last := by
    rw [normalizeVmidRanges_eq h.ranges]
    simp [vmidInRanges, Except.toOption]
  rw [Group.selects, Bool.and_eq_true, Bool.or_eq_true, Bool.not_eq_true', Group.picks,
    Group.excludes, Bool.or_eq_false_iff, guestNameMatches_patterns, guestNameMatches_patterns,
    hvmid]
  simp only [Option.getD_some, Bool.or_eq_true, decide_eq_true_iff, decide_eq_false_iff_not,
    hranges, htags, or_assoc]
  exact ⟨fun ⟨hin, hvm, hname⟩ => ⟨hin, hvm, hname⟩, fun ⟨hin, hvm, hname⟩ => ⟨hin, hvm, hname⟩⟩

/-! ### The rows of a group -/

/-- The rows that `resolve_group_rows` returns. -/
def Group.rows (mt : Matching) (group : Group) (backups : List Row) (cutoff : String)
    (tags : TagMap) : List Row :=
  ((group.best mt backups cutoff).filter (group.selects mt tags)).mergeSort
    fun a b => a.vmid.getD 0 ≤ b.vmid.getD 0

/-- Every backup of the inventory names its VMID. -/
def HaveVmids (backups : List Row) : Prop := ∀ row ∈ backups, row.vmid.isSome = true

instance : Decidable (HaveVmids backups) := inferInstanceAs (Decidable (∀ row ∈ backups, _))

theorem requireVmids_ok {p : Row → Bool} (hvmids : HaveVmids backups) :
    requireVmids (backups.filter p) = .ok () := by
  rw [requireVmids, if_pos]
  exact List.all_eq_true.mpr fun row hrow => hvmids row (List.mem_filter.mp hrow).1

theorem resolveGroupRows_ok (hvmids : HaveVmids backups) (group : Group) (tags : TagMap) :
    resolveGroupRows mt group backups cutoff tags = .ok (group.rows mt backups cutoff tags) := by
  rw [resolveGroupRows, requireVmids_ok hvmids]
  rfl

theorem Group.mem_best :
    row ∈ group.best mt backups cutoff ↔ group.HasSnapshot mt backups cutoff row := by
  rw [Group.best, mem_latestPerVmid_iff, List.filter_filter, Group.HasSnapshot]
  have hfilter :
      (backups.filter fun row => decide (row.timestamp ≤ cutoff) && group.admits mt row) =
        backups.filter fun row => group.admits mt row ∧ row.timestamp ≤ cutoff := by
    refine List.filter_congr fun row _ => ?_
    rw [Bool.decide_and, Bool.and_comm, Bool.decide_eq_true]
  rw [hfilter]

theorem Group.nodup_best (mt : Matching) (group : Group) (backups : List Row) (cutoff : String) :
    ((group.best mt backups cutoff).map (·.vmid)).Nodup := by
  rw [Group.best, latestPerVmid_eq]
  exact nodup_newest

/-- The rows are in the order of their VMIDs, none of which occurs twice. -/
private theorem Group.rows_sorted
    (hvmids : ∀ row ∈ group.rows mt backups cutoff tags, row.vmid.isSome = true) :
    ∃ vmids : List ℤ, (group.rows mt backups cutoff tags).map (·.vmid) = vmids.map some ∧
      vmids.Pairwise (· < ·) := by
  have hsome : (group.rows mt backups cutoff tags).map (·.vmid) =
      ((group.rows mt backups cutoff tags).map fun row => row.vmid.getD 0).map some := by
    rw [List.map_map]
    refine List.map_congr_left fun row hrow => ?_
    obtain ⟨vmid, hvmid⟩ := Option.isSome_iff_exists.mp (hvmids row hrow)
    rw [Function.comp_apply, hvmid, Option.getD_some]
  refine ⟨_, hsome, ?_⟩
  have hle : ((group.rows mt backups cutoff tags).map fun row => row.vmid.getD 0).Pairwise
      (· ≤ ·) := by
    refine List.pairwise_map.mpr ?_
    have hsorted : (group.rows mt backups cutoff tags).Pairwise
        fun a b => decide (a.vmid.getD 0 ≤ b.vmid.getD 0) = true := by
      refine List.pairwise_mergeSort (fun a b c hab hbc => ?_) (fun a b => ?_) _
      · exact decide_eq_true (le_trans (of_decide_eq_true hab) (of_decide_eq_true hbc))
      · simpa using le_total (a.vmid.getD 0) (b.vmid.getD 0)
    exact hsorted.imp fun h => of_decide_eq_true h
  have hnodup : ((group.rows mt backups cutoff tags).map (·.vmid)).Nodup := by
    have hperm := List.mergeSort_perm ((group.best mt backups cutoff).filter (group.selects mt tags))
      fun a b => decide (a.vmid.getD 0 ≤ b.vmid.getD 0)
    refine (hperm.map _).nodup_iff.mpr ?_
    exact (group.nodup_best mt backups cutoff).sublist (List.filter_sublist.map _)
  rw [hsome] at hnodup
  exact hle.imp₂ (fun _ _ h hne => lt_of_le_of_ne h hne) (List.Nodup.of_map _ hnodup)

/-- **`resolve_group_rows`.** The rows are sorted by VMID, none of which occurs twice, and they are
the snapshots that the group has and wants. -/
theorem resolveGroupRows_spec (mt : Matching) (backups : List Row) (cutoff : String)
    (tags : TagMap) (hgroup : group.Normalized) :
    (HaveVmids backups → ∃ rows, resolveGroupRows mt group backups cutoff tags = .ok rows) ∧
      ∀ rows, resolveGroupRows mt group backups cutoff tags = .ok rows →
        ∃ vmids : List ℤ, rows.map (·.vmid) = vmids.map some ∧ vmids.Pairwise (· < ·) ∧
          ∀ row, row ∈ rows ↔ group.HasSnapshot mt backups cutoff row ∧
            ∃ vmid, row.vmid = some vmid ∧ group.Wants mt tags vmid row := by
  refine ⟨fun hvmids => ⟨_, resolveGroupRows_ok hvmids group tags⟩, fun rows hrows => ?_⟩
  rw [resolveGroupRows] at hrows
  obtain ⟨_, hrequired, hrows⟩ := Effects.of_bind_ok hrows
  obtain rfl : group.rows mt backups cutoff tags = rows := Except.ok.inj hrows
  have hmem : ∀ row, row ∈ group.rows mt backups cutoff tags ↔
      group.HasSnapshot mt backups cutoff row ∧ group.selects mt tags row = true := by
    intro row
    rw [Group.rows, List.mem_mergeSort, List.mem_filter, Group.mem_best]
  have hvmids : ∀ row, group.HasSnapshot mt backups cutoff row → ∃ vmid, row.vmid = some vmid := by
    intro row hrow
    rw [requireVmids] at hrequired
    split_ifs at hrequired with hall
    exact Option.isSome_iff_exists.mp (List.all_eq_true.mp hall row hrow.mem)
  obtain ⟨vmids, hmap, hsorted⟩ := Group.rows_sorted fun row hrow =>
    Option.isSome_iff_exists.mpr (hvmids row ((hmem row).mp hrow).1)
  refine ⟨vmids, hmap, hsorted, fun row => (hmem row).trans (and_congr_right fun hsnapshot => ?_)⟩
  obtain ⟨vmid, hvmid⟩ := hvmids row hsnapshot
  rw [hgroup.selects_iff hvmid]
  constructor
  · intro hwants
    exact ⟨vmid, hvmid, hwants⟩
  · rintro ⟨vmid', hvmid', hwants⟩
    obtain rfl := Option.some.inj (hvmid.symm.trans hvmid')
    exact hwants

/-- Two guests, the first of which has two snapshots. -/
private def twoGuests : List Row :=
  [{ backupId := "a|vm/109/1", vmid := some 109, timestamp := "2026-08-06T10:00:00Z"
     pveStorage := "pbs-a", voltail := "vm/109/1", sourceId := "a" },
   { backupId := "a|vm/101/1", vmid := some 101, timestamp := "2026-08-06T11:00:00Z"
     pveStorage := "pbs-a", voltail := "vm/101/1", sourceId := "a" },
   { backupId := "a|vm/109/2", vmid := some 109, timestamp := "2026-08-07T10:00:00Z"
     pveStorage := "pbs-a", voltail := "vm/109/2", sourceId := "a" }]

/-- All guests from 100 to 199 but one. -/
private def rangeGroup : Group :=
  { id := 2, name := "g1", vmidRanges := [⟨100, 199⟩], excludeVmids := [101] }

/-- The rows of a group with a range. -/
theorem resolveGroupRows_range :
    ∃ rows, resolveGroupRows .unused rangeGroup twoGuests "9999-12-31T23:59:59Z" [] = .ok rows ∧
      ∀ row, row ∈ rows ↔ rangeGroup.HasSnapshot .unused twoGuests "9999-12-31T23:59:59Z" row ∧
        ∃ vmid, row.vmid = some vmid ∧ rangeGroup.Wants .unused [] vmid row := by
  have hgroup : rangeGroup.Normalized := by
    constructor
    · exact fun tag htag => (List.not_mem_nil htag).elim
    · intro r hr
      obtain rfl := List.mem_singleton.mp hr
      decide
  obtain ⟨hreturns, hspec⟩ :=
    resolveGroupRows_spec .unused twoGuests "9999-12-31T23:59:59Z" [] hgroup
  obtain ⟨rows, hrows⟩ := hreturns (by decide)
  obtain ⟨vmids, -, -, hmem⟩ := hspec rows hrows
  exact ⟨rows, hrows, hmem⟩

end RestoreEngine
