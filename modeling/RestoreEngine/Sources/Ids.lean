import RestoreEngine.Backups.Refs

/-!
# Source ids

A source id is a server id, a datastore and a namespace with slashes between them, and `root` for
the root namespace. Distinct mounts get distinct ids exactly if none shadows another
(`distinct_ids_iff`): a slash in a server id or a datastore may stand where another mount's id has
the separator, and a namespace may itself be called `root`.
-/

namespace RestoreEngine

open RestoreEngine.Lists

/-- What the id of a source is put together from. -/
structure MountKey where
  serverId : String
  datastore : String
  ns : String
  deriving DecidableEq

namespace MountKey

variable {a b : MountKey}

/-- The id of a mount. -/
def sourceId (a : MountKey) : String := makeSourceId a.serverId a.datastore a.ns

/-- What the id says about the place on the server. -/
def place (a : MountKey) : String := a.datastore ++ "/" ++ nsOrRoot a.ns

/-- The mount's id can be read as another one's: the root namespace as the namespace `root`, the
datastore as the beginning of a longer one, or the server id as the beginning of a longer one. -/
def Shadows (a b : MountKey) : Prop :=
  (a.serverId = b.serverId ∧ a.datastore = b.datastore ∧ a.ns = "" ∧ b.ns = "root") ∨
  (a.serverId = b.serverId ∧ ∃ x, b.datastore = a.datastore ++ "/" ++ x ∧
    nsOrRoot a.ns = x ++ "/" ++ nsOrRoot b.ns) ∨
  ∃ x, b.serverId = a.serverId ++ "/" ++ x ∧ a.place = x ++ "/" ++ b.place

private theorem sourceId_eq (a : MountKey) : a.sourceId = a.serverId ++ "/" ++ a.place := by
  have hstring : ∀ s : String, toString s = s := fun _ => rfl
  rw [← String.toList_inj]
  simp [sourceId, place, makeSourceId, hstring]

theorem toList_slash (s t : String) :
    (s ++ "/" ++ t).toList = s.toList ++ '/' :: t.toList := by
  simp

/-- A text that goes on after a slash. -/
private theorem exists_slash {s s' r r' : String} :
    (∃ x, s'.toList = s.toList ++ '/' :: x ∧ r.toList = x ++ '/' :: r'.toList) ↔
      ∃ x, s' = s ++ "/" ++ x ∧ r = x ++ "/" ++ r' := by
  constructor
  · rintro ⟨x, hs, hr⟩
    refine ⟨String.ofList x, String.toList_inj.mp ?_, String.toList_inj.mp ?_⟩
    · rw [toList_slash, String.toList_ofList, hs]
    · rw [toList_slash, String.toList_ofList, hr]
  · rintro ⟨x, rfl, rfl⟩
    exact ⟨x.toList, toList_slash s x, toList_slash x r'⟩

/-- Texts with a slash between them. -/
private theorem slash_eq_iff {s s' r r' : String} : s ++ "/" ++ r = s' ++ "/" ++ r' ↔
    (s = s' ∧ r = r') ∨ (∃ x, s' = s ++ "/" ++ x ∧ r = x ++ "/" ++ r') ∨
      ∃ x, s = s' ++ "/" ++ x ∧ r' = x ++ "/" ++ r := by
  rw [← String.toList_inj, toList_slash, toList_slash, join_eq_join_iff, exists_slash, exists_slash,
    String.toList_inj, String.toList_inj]

private theorem nsOrRoot_eq_iff {m n : String} :
    nsOrRoot m = nsOrRoot n ↔ m = n ∨ (m = "" ∧ n = "root") ∨ (n = "" ∧ m = "root") := by
  rw [nsOrRoot, nsOrRoot]
  by_cases hm : m = ""
  · by_cases hn : n = ""
    · simp [hm, hn]
    · rw [if_pos hm, if_neg hn, hm]
      constructor
      · rintro rfl
        exact Or.inr (Or.inl ⟨rfl, rfl⟩)
      · rintro (h | ⟨-, h⟩ | ⟨h, -⟩)
        · exact absurd h.symm hn
        · exact h.symm
        · exact absurd h hn
  · by_cases hn : n = ""
    · rw [if_neg hm, if_pos hn, hn]
      constructor
      · rintro rfl
        exact Or.inr (Or.inr ⟨rfl, rfl⟩)
      · rintro (h | ⟨h, -⟩ | ⟨-, h⟩)
        · exact absurd h hm
        · exact absurd h hm
        · exact h
    · rw [if_neg hm, if_neg hn]
      constructor
      · exact Or.inl
      · rintro (h | ⟨h, -⟩ | ⟨h, -⟩)
        · exact h
        · exact absurd h hm
        · exact absurd h hn

/-- **When two mounts have the same id.** -/
theorem sourceId_eq_iff : a.sourceId = b.sourceId ↔ a = b ∨ a.Shadows b ∨ b.Shadows a := by
  have hsame : a = b ↔ a.serverId = b.serverId ∧ a.datastore = b.datastore ∧ a.ns = b.ns := by
    rw [← MountKey.mk.injEq]
  have hplace : a.place = b.place ↔ (a.datastore = b.datastore ∧ nsOrRoot a.ns = nsOrRoot b.ns) ∨
      (∃ x, b.datastore = a.datastore ++ "/" ++ x ∧ nsOrRoot a.ns = x ++ "/" ++ nsOrRoot b.ns) ∨
      ∃ x, a.datastore = b.datastore ++ "/" ++ x ∧ nsOrRoot b.ns = x ++ "/" ++ nsOrRoot a.ns :=
    slash_eq_iff
  rw [sourceId_eq, sourceId_eq, slash_eq_iff, hplace, nsOrRoot_eq_iff, hsame]
  constructor
  · rintro (⟨hs, ⟨hd, hn | ⟨ha, hb⟩ | ⟨hb, ha⟩⟩ | hx | hx⟩ | hx | hx)
    · exact Or.inl ⟨hs, hd, hn⟩
    · exact Or.inr (Or.inl (Or.inl ⟨hs, hd, ha, hb⟩))
    · exact Or.inr (Or.inr (Or.inl ⟨hs.symm, hd.symm, hb, ha⟩))
    · exact Or.inr (Or.inl (Or.inr (Or.inl ⟨hs, hx⟩)))
    · exact Or.inr (Or.inr (Or.inr (Or.inl ⟨hs.symm, hx⟩)))
    · exact Or.inr (Or.inl (Or.inr (Or.inr hx)))
    · exact Or.inr (Or.inr (Or.inr (Or.inr hx)))
  · rintro (⟨hs, hd, hn⟩ | (⟨hs, hd, ha, hb⟩ | ⟨hs, hx⟩ | hx) | (⟨hs, hd, ha, hb⟩ | ⟨hs, hx⟩ | hx))
    · exact Or.inl ⟨hs, Or.inl ⟨hd, Or.inl hn⟩⟩
    · exact Or.inl ⟨hs, Or.inl ⟨hd, Or.inr (Or.inl ⟨ha, hb⟩)⟩⟩
    · exact Or.inl ⟨hs, Or.inr (Or.inl hx)⟩
    · exact Or.inr (Or.inl hx)
    · exact Or.inl ⟨hs.symm, Or.inl ⟨hd.symm, Or.inr (Or.inr ⟨ha, hb⟩)⟩⟩
    · exact Or.inl ⟨hs.symm, Or.inr (Or.inr hx)⟩
    · exact Or.inr (Or.inr hx)

end MountKey

/-! ### The mounts of a configuration -/

/-- The key of a mount. -/
def ServerEntry.key (server : ServerEntry) (index : ℕ) (mount : MountEntry) : MountKey where
  serverId := server.effectiveId index
  datastore := mount.datastore.stripped
  ns := normNs mount.ns.orBlank

/-- The keys of the usable mounts. -/
def mountKeys (servers : List (Option ServerEntry)) : List MountKey :=
  (servers.mapIdx fun index entry => entry.elim [] fun server =>
    (server.mounts.filter fun m => m.Usable).map (server.key index)).flatten

/-- Servers have different ids, and mounts differ in the server, the datastore or the
namespace. -/
structure SourceConfig.Distinct (cfg : SourceConfig) : Prop where
  servers : (cfg.pbsServers.mapIdx fun index entry =>
    entry.map fun server => server.effectiveId index).reduceOption.Nodup
  mounts : (mountKeys cfg.pbsServers).Nodup

/-- **No mount shadows another one.** -/
def SourceConfig.Unshadowed (cfg : SourceConfig) : Prop :=
  ∀ a ∈ mountKeys cfg.pbsServers, ∀ b ∈ mountKeys cfg.pbsServers, ¬ a.Shadows b

/-- The key of a source. -/
def Source.key (src : Source) : MountKey := ⟨src.serverId, src.datastore, src.ns⟩

/-- **Sources are known by their ids**: different sources have different ids, the backup ids that
come from different sources differ, and a source is found by its id. -/
structure SourceConfig.Identified (cfg : SourceConfig) : Prop where
  ids : ((loadSources cfg).map (·.sourceId)).Nodup
  backupIds : ∀ src ∈ loadSources cfg, ∀ src' ∈ loadSources cfg, src ≠ src' →
    ∀ vmid vmid' t t', InRange t → InRange t' →
      makeBackupId src.sourceId (makeVoltail vmid (secondText t)) ≠
        makeBackupId src'.sourceId (makeVoltail vmid' (secondText t'))
  found : ∀ src ∈ loadSources cfg, sourceById cfg src.sourceId = some src

/-! ### The ids of a configuration -/

variable {cfg : SourceConfig} {a b : MountKey}

/-- No mount shadows itself. -/
private theorem MountKey.Shadows.ne (h : a.Shadows b) : a ≠ b := by
  rintro rfl
  have hlong : ∀ s x : String, s ≠ s ++ "/" ++ x := by
    intro s x hsame
    have hlength := congrArg List.length (congrArg String.toList hsame)
    rw [toList_slash, List.length_append, List.length_cons] at hlength
    omega
  rcases h with ⟨-, -, hroot, hnamed⟩ | ⟨-, x, hx, -⟩ | ⟨x, hx, -⟩
  · rw [hroot] at hnamed
    exact absurd hnamed (by decide)
  · exact hlong _ x hx
  · exact hlong _ x hx

private theorem sourceId_source (server : ServerEntry) (index : ℕ) (mount : MountEntry) :
    (server.source index mount).sourceId = (server.source index mount).key.sourceId := by
  rw [MountKey.sourceId, Source.key, ServerEntry.source]

private theorem key_source (server : ServerEntry) (index : ℕ) (mount : MountEntry) :
    (server.source index mount).key = server.key index mount := by
  rw [Source.key, ServerEntry.source, ServerEntry.key]

private theorem map_key_serverSources (servers : List (Option ServerEntry)) :
    (serverSources servers).map Source.key = mountKeys servers := by
  have hentry : ∀ (index : ℕ) (entry : Option ServerEntry),
      (entry.elim [] fun server => sourcesFromServer server index).map Source.key =
        entry.elim [] fun server =>
          (server.mounts.filter fun m => m.Usable).map (server.key index) := by
    intro index entry
    cases entry with
    | none => rfl
    | some server =>
      rw [Option.elim_some, Option.elim_some, sourcesFromServer, List.map_map]
      exact List.map_congr_left fun mount _ => key_source server index mount
  rw [serverSources, mountKeys, List.map_flatten, List.mapIdx_eq_zipIdx_map,
    List.mapIdx_eq_zipIdx_map, List.map_map]
  simp only [Function.comp_def, hentry]

private theorem sourceId_serverSources {servers : List (Option ServerEntry)} {src : Source}
    (h : src ∈ serverSources servers) : src.sourceId = src.key.sourceId := by
  obtain ⟨sources, hsources, hsrc⟩ := List.mem_flatten.mp h
  obtain ⟨index, hindex, rfl⟩ := List.mem_mapIdx.mp hsources
  cases hentry : servers[index] with
  | none => simp [hentry] at hsrc
  | some server =>
    rw [hentry, Option.elim_some] at hsrc
    obtain ⟨mount, -, rfl⟩ := List.mem_map.mp hsrc
    exact sourceId_source _ _ mount

private theorem length_legacySources (cfg : SourceConfig) : (legacySources cfg).length ≤ 1 := by
  rw [legacySources]
  split_ifs
  · exact Nat.zero_le 1
  · rw [sourcesFromServer, List.length_map]
    exact List.length_filter_le _ _

/-- A source is found by its id if no other source has the id. -/
private theorem find_of_nodup {sources : List Source} (h : (sources.map (·.sourceId)).Nodup)
    {src : Source} (hsrc : src ∈ sources) :
    (sources.find? fun other => other.sourceId = src.sourceId) = some src := by
  induction sources with
  | nil => cases hsrc
  | cons first rest ih =>
    rw [List.map_cons, List.nodup_cons] at h
    rcases List.mem_cons.mp hsrc with rfl | hsrc
    · exact List.find?_cons_of_pos (decide_eq_true rfl)
    · have hne : first.sourceId ≠ src.sourceId := fun hsame =>
        h.1 (hsame ▸ List.mem_map_of_mem hsrc)
      rw [List.find?_cons_of_neg (by simpa using hne), ih h.2 hsrc]

/-- There is no bar in the number of a guest. -/
private theorem bar_not_mem_vmid (vmid : ℤ) : '|' ∉ (toString vmid).toList := by
  have hnat : ∀ n : ℕ, '|' ∉ (toString n).toList := by
    intro n hmem
    rw [Nat.toString_eq_repr, Nat.toList_repr] at hmem
    exact absurd (Nat.isDigit_of_mem_toDigits (by omega) (by omega) hmem) (by decide)
  cases vmid with
  | ofNat n => exact hnat n
  | negSucc n =>
    have htext : (toString (Int.negSucc n)).toList = '-' :: (toString (n + 1)).toList := by
      change ("-" ++ Nat.repr (n + 1)).toList = _
      rw [String.toList_append]
      rfl
    rw [htext]
    exact List.not_mem_cons_of_ne_of_not_mem (by decide) (hnat (n + 1))

private theorem bar_not_mem {t : ℤ} (ht : InRange t) (vmid : ℤ) :
    '|' ∉ 'v' :: 'm' :: '/' :: ((toString vmid).toList ++ '/' :: (secondText t).toList) := by
  have htext : '|' ∉ (secondText t).toList := by
    rw [secondText_eq ht, String.toList_ofList]
    exact fun hmem => ((plain_text (stampOf t)).2 '|' hmem).2.1 rfl
  have hvmid := bar_not_mem_vmid vmid
  simp only [List.mem_cons, List.mem_append, not_or]
  exact ⟨by decide, by decide, by decide, hvmid, by decide, htext⟩

/-- Backup ids of sources with different ids differ: their last bar comes before the guest. -/
private theorem sourceId_of_backupId {s s' : String} {vmid vmid' t t' : ℤ} (ht : InRange t)
    (ht' : InRange t') (h : makeBackupId s (makeVoltail vmid (secondText t)) =
      makeBackupId s' (makeVoltail vmid' (secondText t'))) : s = s' := by
  have hlists := congrArg String.toList h
  rw [toList_backupId, toList_backupId] at hlists
  have hplain := bar_not_mem ht vmid
  have hplain' := bar_not_mem ht' vmid'
  exact String.toList_inj.mp ((join_inj_right hplain hplain').mp hlists).1

/-- **Different ids suffice.** -/
private theorem identified_of_nodup (h : ((loadSources cfg).map (·.sourceId)).Nodup) :
    cfg.Identified where
  ids := h
  backupIds _ hsrc _ hsrc' hne _ _ _ _ ht ht' hsame :=
    hne (List.inj_on_of_nodup_map h hsrc hsrc' (sourceId_of_backupId ht ht' hsame))
  found _ hsrc := find_of_nodup h hsrc

/-- Without slashes in server ids and datastores, and without a namespace called `root`, no mount
shadows another one. -/
theorem unshadowed_of_plain (h : ∀ a ∈ mountKeys cfg.pbsServers,
    '/' ∉ a.serverId.toList ∧ '/' ∉ a.datastore.toList ∧ a.ns ≠ "root") : cfg.Unshadowed := by
  intro a ha b hb hshadows
  obtain ⟨hserver, hdatastore, hns⟩ := h b hb
  have hslash : ∀ s x : String, '/' ∈ (s ++ "/" ++ x).toList := by
    intro s x
    rw [MountKey.toList_slash]
    exact List.mem_append_right _ List.mem_cons_self
  rcases hshadows with ⟨-, -, -, hroot⟩ | ⟨-, x, hx, -⟩ | ⟨x, hx, -⟩
  · exact hns hroot
  · exact hdatastore (hx ▸ hslash _ x)
  · exact hserver (hx ▸ hslash _ x)

/-- **Distinct mounts have distinct ids** exactly if none shadows another: then backup ids of
different sources differ, and `source_by_id` finds the source that a backup comes from. -/
theorem distinct_ids_iff (h : cfg.Distinct) : cfg.Identified ↔ cfg.Unshadowed := by
  by_cases hempty : serverSources cfg.pbsServers = []
  · -- the old format has one source
    have hkeys : mountKeys cfg.pbsServers = [] := by
      rw [← map_key_serverSources, hempty, List.map_nil]
    refine ⟨fun _ a ha => ?_, fun _ => identified_of_nodup ?_⟩
    · rw [hkeys] at ha
      cases ha
    · rw [loadSources, if_pos hempty]
      have hlength := length_legacySources cfg
      match hlist : legacySources cfg with
      | [] => exact List.nodup_nil
      | [src] => exact List.nodup_singleton _
      | _ :: _ :: _ =>
        rw [hlist] at hlength
        simp at hlength
  · have hload : loadSources cfg = serverSources cfg.pbsServers := if_neg hempty
    have hids : (loadSources cfg).map (·.sourceId) =
        (mountKeys cfg.pbsServers).map MountKey.sourceId := by
      rw [hload, ← map_key_serverSources, List.map_map]
      exact List.map_congr_left fun src hsrc => sourceId_serverSources hsrc
    constructor
    · intro hidentified a ha b hb hshadows
      have hnodup := hidentified.ids
      rw [hids] at hnodup
      have hsame : a.sourceId = b.sourceId :=
        MountKey.sourceId_eq_iff.mpr (Or.inr (Or.inl hshadows))
      exact hshadows.ne (List.inj_on_of_nodup_map hnodup ha hb hsame)
    · intro hclear
      refine identified_of_nodup ?_
      rw [hids]
      refine List.Nodup.map_on (fun a ha b hb hsame => ?_) h.mounts
      rcases MountKey.sourceId_eq_iff.mp hsame with heq | hshadows | hshadows
      · exact heq
      · exact absurd hshadows (hclear a ha b hb)
      · exact absurd hshadows (hclear b hb a ha)

/-- A configuration with two servers, as in the documentation. -/
private def twoServers : SourceConfig where
  pbsServers :=
    [some { id := .text "main", host := .text "10.0.0.10", mounts :=
        [{ datastore := .text "main", ns := .text "", pveStorage := .text "pbs-main" },
         { datastore := .text "main", ns := .text "team-a",
           pveStorage := .text "pbs-main-teamA" }] },
     some { id := .text "dr", host := .text "10.0.0.30", mounts :=
        [{ datastore := .text "backup", pveStorage := .text "pbs-dr" }] }]

/-- The sources of the two servers are known by their ids. -/
theorem distinct_ids_two_servers : twoServers.Identified := by
  have hdistinct : twoServers.Distinct := ⟨by decide, by decide⟩
  refine (distinct_ids_iff hdistinct).mpr (unshadowed_of_plain ?_)
  decide

/-- One datastore with its root namespace and a namespace that is called `root`. -/
private def rootTwice : SourceConfig where
  pbsServers :=
    [some { id := .text "main", host := .text "10.0.0.10", mounts :=
        [{ datastore := .text "main", ns := .text "", pveStorage := .text "pbs-main" },
         { datastore := .text "main", ns := .text "root",
           pveStorage := .text "pbs-main-root" }] }]

/-- The two mounts have one id, and a backup of the second is looked up at the first. -/
theorem root_namespace_shadowed : rootTwice.Distinct ∧ ¬ rootTwice.Identified ∧
    (loadSources rootTwice).map (·.sourceId) = ["main/main/root", "main/main/root"] ∧
    (sourceById rootTwice "main/main/root").map (·.pveStorage) = some "pbs-main" := by
  refine ⟨⟨by decide, by decide⟩, fun hidentified => ?_, by decide, by decide⟩
  exact absurd hidentified.ids (by decide)

end RestoreEngine
