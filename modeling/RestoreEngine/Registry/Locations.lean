import RestoreEngine.Enqueue.Placement
import RestoreEngine.Readiness.Locations
import RestoreEngine.Registry.Rules

/-!
# The nodes and storages of a location

`normalize_location` reconciles a node, a list of nodes, a storage and a storage for each node,
all of which may be given or not. What it accepts is settled (`SettledLocation`): the nodes are
distinct, each has a storage, and the node and the storage are those of the first. A second
normalization changes nothing, and `enqueue_restores` with these nodes and storages finds the
storage of each node (`normalizeLocation_settles`).
-/

namespace RestoreEngine

open Effects Prog Program

/-! ### Nodes -/

variable {nodes : List String} {storages : List (String × String)} {node storage : String}

private theorem dedupeFrom_nodup (seen names : List String) :
    (dedupeFrom seen names).Nodup ∧ ∀ n ∈ dedupeFrom seen names, n ∉ seen := by
  induction names generalizing seen with
  | nil => exact ⟨List.nodup_nil, nofun⟩
  | cons raw rest ih =>
    rw [dedupeFrom]
    split_ifs with hskip
    · exact ih seen
    · obtain ⟨hnodup, hfresh⟩ := ih (Text.strip raw :: seen)
      refine ⟨List.nodup_cons.mpr ⟨fun hmem => hfresh _ hmem List.mem_cons_self, hnodup⟩, ?_⟩
      intro n hn
      rcases List.mem_cons.mp hn with rfl | hn
      · exact fun hseen => hskip (.inr hseen)
      · exact fun hseen => hfresh n hn (List.mem_cons_of_mem _ hseen)

/-- Names that are trimmed, distinct and new are all kept. -/
private theorem dedupeFrom_eq {seen names : List String} (htrimmed : ∀ n ∈ names, Text.Trimmed n)
    (hnodup : names.Nodup) (hnew : ∀ n ∈ names, n ∉ seen) : dedupeFrom seen names = names := by
  induction names generalizing seen with
  | nil => rfl
  | cons n rest ih =>
    obtain ⟨hstrip, hne⟩ := htrimmed n List.mem_cons_self
    obtain ⟨hnot, hrest⟩ := List.nodup_cons.mp hnodup
    have hkeep : ¬ (n = "" ∨ n ∈ seen) := by
      rintro (hempty | hseen)
      · exact hne hempty
      · exact hnew n List.mem_cons_self hseen
    rw [dedupeFrom, hstrip, if_neg hkeep,
      ih (fun m hm => htrimmed m (List.mem_cons_of_mem _ hm)) hrest]
    intro m hm hmem
    rcases List.mem_cons.mp hmem with rfl | hseen
    · exact hnot hm
    · exact hnew m (List.mem_cons_of_mem _ hm) hseen

/-- **The nodes of a location**: there is one, and they are trimmed and distinct. -/
structure SettledNodes (nodes : List String) : Prop where
  ne_nil : nodes ≠ []
  trimmed : ∀ n ∈ nodes, Text.Trimmed n
  nodup : nodes.Nodup

private theorem normalizeNodes_nodup {names : List String}
    (h : normalizeNodes node names = .ok nodes) : nodes.Nodup := by
  have hnames := (dedupeFrom_nodup [] names).1
  unfold normalizeNodes at h
  split at h
  · cases h
  · obtain rfl := Except.ok.inj h
    exact hnames
  · obtain rfl := Except.ok.inj h
    refine List.nodup_cons.mpr ⟨fun hmem => ?_, hnames.filter _⟩
    exact of_decide_eq_true (List.mem_filter.mp hmem).2 rfl

theorem normalizeNodes_settled {names : List String} (hnode : Text.strip node = node)
    (h : normalizeNodes node names = .ok nodes) : SettledNodes nodes := by
  obtain ⟨hne, htrimmed⟩ := normalizeNodes_ok hnode h
  exact ⟨hne, htrimmed, normalizeNodes_nodup h⟩

namespace SettledNodes

theorem head_mem (h : SettledNodes nodes) : nodes.headD "" ∈ nodes := by
  cases nodes with
  | nil => exact absurd rfl h.ne_nil
  | cons n rest => exact List.mem_cons_self

/-- Settled nodes are their own normal form. -/
theorem normalizeNodes_eq (h : SettledNodes nodes) :
    normalizeNodes (nodes.headD "") nodes = .ok nodes := by
  have hdedupe : dedupeNodes nodes = nodes :=
    dedupeFrom_eq h.trimmed h.nodup fun _ _ => List.not_mem_nil
  cases nodes with
  | nil => exact absurd rfl h.ne_nil
  | cons n rest =>
    obtain ⟨hnot, -⟩ := List.nodup_cons.mp h.nodup
    have hne : n ≠ "" := (h.trimmed n List.mem_cons_self).2
    have hrest : (n :: rest).filter (· ≠ n) = rest := by
      rw [List.filter_cons_of_neg (by simp)]
      refine List.filter_eq_self.mpr fun m hm => decide_eq_true ?_
      rintro rfl
      exact hnot hm
    rw [normalizeNodes, hdedupe]
    · exact congrArg (fun l => Except.ok (n :: l)) hrest
    · exact hne
    · exact fun _ => hne

end SettledNodes

/-! ### Storages -/

/-- Entries with new keys are appended. -/
private theorem foldl_setEntry (entries d : List (String × String))
    (h : ((d ++ entries).map Prod.fst).Nodup) :
    entries.foldl (fun d e => setEntry e.1 e.2 d) d = d ++ entries := by
  have hset : ∀ (key val : String) (d : List (String × String)), key ∉ d.map Prod.fst →
      setEntry key val d = d ++ [(key, val)] := by
    intro key val d
    induction d with
    | nil => exact fun _ => rfl
    | cons e rest ih =>
      intro hnot
      rw [List.map_cons, List.mem_cons, not_or] at hnot
      rw [setEntry, if_neg (Ne.symm hnot.1), ih hnot.2, List.cons_append]
  induction entries generalizing d with
  | nil => exact (List.append_nil d).symm
  | cons e rest ih =>
    have hnew : e.1 ∉ d.map Prod.fst := by
      intro hmem
      rw [List.map_append, List.map_cons] at h
      exact (List.nodup_append.mp h).2.2 _ hmem _ List.mem_cons_self rfl
    rw [List.foldl_cons, hset e.1 e.2 d hnew]
    have hcons : d ++ e :: rest = d ++ [(e.1, e.2)] ++ rest := by simp
    rw [hcons] at h ⊢
    exact ih _ h

/-- **The storages of a location**: the entries are trimmed under distinct keys, and each node has
one. -/
structure SettledStorages (nodes : List String) (storages : List (String × String)) : Prop where
  entries : StorageEntries storages
  covers : ∀ n ∈ nodes, n ∈ storages.map Prod.fst

theorem normalizeStorages_settled {raw : List (String × String)}
    (hnodes : SettledNodes nodes) (hstorage : Text.strip storage = storage)
    (h : checkStorages nodes (normalizeStorages nodes raw storage) = .ok ()) :
    SettledStorages nodes (normalizeStorages nodes raw storage) := by
  refine ⟨normalizeStorages_entries raw hnodes.trimmed hstorage, fun n hn => ?_⟩
  by_contra hmissing
  have hmem : n ∈ nodes.filter fun n => n ∉ (normalizeStorages nodes raw storage).map Prod.fst :=
    List.mem_filter.mpr ⟨hn, decide_eq_true hmissing⟩
  unfold checkStorages at h
  dsimp only at h
  rw [if_pos (List.ne_nil_of_mem hmem)] at h
  cases h

namespace SettledStorages

/-- Settled storages are their own normal form. -/
theorem normalizeStorages_eq (h : SettledStorages nodes storages) (storage : String) :
    normalizeStorages nodes storages storage = storages := by
  have hmap : storages.map (fun e => (Text.strip e.1, Text.strip e.2)) = storages := by
    refine (List.map_congr_left fun e he => ?_).trans (List.map_id _)
    exact Prod.ext (h.entries.trimmed e he).1.1 (h.entries.trimmed e he).2.1
  have hgiven : normalizeStorageByNode storages = storages := by
    rw [normalizeStorageByNode, hmap]
    exact List.filter_eq_self.mpr fun e he =>
      decide_eq_true ⟨(h.entries.trimmed e he).1.2, (h.entries.trimmed e he).2.2⟩
  have hfill : ∀ ns : List String, (∀ n ∈ ns, n ∈ storages.map Prod.fst) →
      ns.foldl (fun d n => if n ∈ d.map Prod.fst then d else setEntry n storage d) storages =
        storages := by
    intro ns
    induction ns with
    | nil => exact fun _ => rfl
    | cons n rest ih =>
      intro hns
      rw [List.foldl_cons, if_pos (hns n List.mem_cons_self)]
      exact ih fun m hm => hns m (List.mem_cons_of_mem _ hm)
  have hfirst : storages.foldl (fun d e => setEntry e.1 e.2 d) [] = storages :=
    foldl_setEntry storages [] (by simpa using h.entries.keys)
  rw [normalizeStorages, hgiven, hfirst, hfill nodes h.covers, ite_self]

/-- Each node has a storage. -/
theorem lookup (h : SettledStorages nodes storages) (hnode : node ∈ nodes) :
    ∃ s, storages.lookup node = some s ∧ Text.Trimmed s := by
  cases hlookup : storages.lookup node with
  | none =>
    obtain ⟨e, he, rfl⟩ := List.mem_map.mp (h.covers node hnode)
    rw [List.lookup_eq_none_iff] at hlookup
    exact absurd rfl (bne_iff_ne.mp (hlookup e he))
  | some s =>
    obtain ⟨l₁, l₂, rfl, -⟩ := List.lookup_eq_some_iff.mp hlookup
    exact ⟨s, rfl, (h.entries.trimmed (node, s) (by simp)).2⟩

theorem checkStorages_eq (h : SettledStorages nodes storages) :
    checkStorages nodes storages = .ok () := by
  have hnone : nodes.filter (fun n => n ∉ storages.map Prod.fst) = [] := by
    refine List.filter_eq_nil_iff.mpr fun n hn => ?_
    simpa using h.covers n hn
  rw [checkStorages, hnone]
  rfl

end SettledStorages

/-! ### The normalization -/

variable {payload d : Dict} {locationId : String}

/-- What `normalize_location` reads of a payload that it accepts, and what it asks of this. -/
private structure Accepted (payload : Dict) (name node storage : String) (nodes : List String)
    (vmidStart bwlimit : ℤ) : Prop where
  name_ok : payload.stripOr "name" = .ok name
  name_ne : name ≠ ""
  node_ok : payload.stripOr "node" = .ok node
  storage_ok : payload.stripOr "storage" = .ok storage
  nodes_ok : normalizeNodes node payload.givenNodes = .ok nodes
  vmidStart_ok : (payload.getD "vmid_start" (.int 100)).toInt = some vmidStart
  vmidStart_le : 100 ≤ vmidStart
  bwlimit_ok : (payload.getOr "bwlimit" (.int 0)).toInt = some bwlimit
  bwlimit_le : 0 ≤ bwlimit
  mode : payload.restoreMode ∈ ["normal", "dr"]
  storages_ok : checkStorages nodes (normalizeStorages nodes payload.givenStorages storage) = .ok ()
  storage_ne :
    ((normalizeStorages nodes payload.givenStorages storage).lookup (nodes.headD "")).getD
      storage ≠ ""
  bridge : payload.networkMode = "remap" → payload.textOr "lab_bridge" ≠ ""

private theorem normalizeLocation_ok_iff :
    payload.normalizeLocation locationId = .ok d ↔
      ∃ name node storage nodes vmidStart bwlimit,
        Accepted payload name node storage nodes vmidStart bwlimit ∧
        d = payload.locationData locationId name nodes
          (normalizeStorages nodes payload.givenStorages storage)
          (((normalizeStorages nodes payload.givenStorages storage).lookup
            (nodes.headD "")).getD storage) vmidStart bwlimit := by
  constructor
  · intro h
    obtain ⟨name, hname, h⟩ := of_bind_ok h
    obtain ⟨node, hnode, h⟩ := of_bind_ok h
    obtain ⟨storage, hstorage, h⟩ := of_bind_ok h
    obtain ⟨hnameNe, h⟩ := of_ite_ok h
    obtain ⟨nodes, hnodes, h⟩ := of_bind_ok h
    split at h
    · cases h
    · next vmidStart hvmid =>
      obtain ⟨hvmidLe, h⟩ := of_ite_ok h
      split at h
      · cases h
      · next bwlimit hbwlimit =>
        obtain ⟨hbwlimitLe, h⟩ := of_ite_ok h
        obtain ⟨hmode, h⟩ := of_ite_ok h
        obtain ⟨_, hstorages, h⟩ := of_bind_ok h
        obtain ⟨hstorageNe, h⟩ := of_ite_ok h
        obtain ⟨hbridge, h⟩ := of_ite_ok h
        exact ⟨name, node, storage, nodes, vmidStart, bwlimit,
          ⟨hname, hnameNe, hnode, hstorage, hnodes, hvmid, not_lt.mp hvmidLe, hbwlimit,
            not_lt.mp hbwlimitLe, not_not.mp hmode, hstorages, hstorageNe,
            fun hremap hempty => hbridge ⟨hremap, hempty⟩⟩, (Except.ok.inj h).symm⟩
  · rintro ⟨name, node, storage, nodes, vmidStart, bwlimit, h, rfl⟩
    have hbridge : ¬ (payload.networkMode = "remap" ∧ payload.textOr "lab_bridge" = "") :=
      fun hboth => h.bridge hboth.1 hboth.2
    unfold Dict.normalizeLocation
    simp only [h.name_ok, h.node_ok, h.storage_ok, h.nodes_ok, h.vmidStart_ok, h.bwlimit_ok,
      h.storages_ok, bind, Except.bind, if_neg h.name_ne, if_neg (not_lt.mpr h.vmidStart_le),
      if_neg (not_lt.mpr h.bwlimit_le), if_neg (not_not.mpr h.mode), if_neg h.storage_ne,
      if_neg hbridge]
    rfl

/-! ### The second normalization -/

section again

variable {key text : String} {mode : String}

private theorem stripOr_text (hd : d key = some (.str text)) (htext : Text.Trimmed text) :
    d.stripOr key = .ok text := by
  have hstripped := FieldRule.stripped_orDefault htext.1 htext.2 (.str "")
  rwa [← hd] at hstripped

private theorem textOr_text (hd : d key = some (.str text)) (hstrip : Text.strip text = text) :
    d.textOr key = text := by
  by_cases htext : text = ""
  · subst htext
    rw [Dict.textOr, Dict.getOr, hd]
    decide
  · rw [Dict.textOr, Dict.getOr, hd, Option.filter_some, if_pos (FieldRule.truthy_str htext),
      Option.getD_some, Json.toText, hstrip]

private theorem restoreMode_text (hd : d "restore_mode" = some (.str mode))
    (hmode : mode ∈ ["normal", "dr"]) : d.restoreMode = mode := by
  rw [Dict.restoreMode, Dict.getOr, hd]
  simp only [List.mem_cons, List.not_mem_nil, or_false] at hmode
  rcases hmode with rfl | rfl <;> decide

private theorem networkMode_mem (payload : Dict) :
    payload.networkMode ∈ ["none", "unlink", "remap"] := by
  rw [Dict.networkMode]
  unfold normalizeNetworkMode
  extract_lets mode
  by_cases hmem : mode ∈ ["none", "unlink", "remap"]
  · rwa [if_pos hmem]
  · rw [if_neg hmem]
    decide

private theorem networkMode_text (hd : d "network_mode" = some (.str mode))
    (hmode : mode ∈ ["none", "unlink", "remap"]) : d.networkMode = mode := by
  rw [Dict.networkMode, Dict.getOr, hd]
  simp only [List.mem_cons, List.not_mem_nil, or_false] at hmode
  rcases hmode with rfl | rfl | rfl <;> decide

private theorem safeQgaSec_int (hd : d "qga_wait_sec" = some (.int payload.safeQgaSec)) :
    d.safeQgaSec = payload.safeQgaSec := by
  have hread : (d.getOr "qga_wait_sec" (.int 0)).toInt = some payload.safeQgaSec := by
    rw [Dict.getOr, hd]
    exact FieldRule.toInt_orDefault _
  have hrange : 0 ≤ payload.safeQgaSec ∧ payload.safeQgaSec ≤ 3600 := by
    unfold Dict.safeQgaSec
    omega
  rw [Dict.safeQgaSec, hread, Option.getD_some]
  omega

private theorem getOr_again (hd : d key = some (payload.getOr key (.str ""))) :
    d.getOr key (.str "") = payload.getOr key (.str "") := by
  have hread := FieldRule.orBlank_stable (payload key) _ rfl
  rw [Dict.getOr, hd]
  exact Except.ok.inj hread

/-- **A normal form is its own**: what `normalize_location` gives, it gives again. -/
private theorem normalizeLocation_again {name node storage : String} {nodes : List String}
    {vmidStart bwlimit : ℤ} (h : Accepted payload name node storage nodes vmidStart bwlimit)
    (hnodes : SettledNodes nodes) {storages : List (String × String)}
    (hstorages : SettledStorages nodes storages) {first : String}
    (hfirst : storages.lookup (nodes.headD "") = some first) (hfirstTrimmed : Text.Trimmed first)
    (hd : d = payload.locationData locationId name nodes storages first vmidStart bwlimit) :
    d.normalizeLocation locationId = .ok d := by
  have hgivenNodes : d.givenNodes = nodes := by
    have hget : d "nodes" = some (.arr (nodes.map .str)) := by rw [hd]; rfl
    rw [Dict.givenNodes, hget]
    dsimp only
    rw [List.map_map]
    exact List.map_id _
  have hgivenStorages : d.givenStorages = storages := by
    have hget : d "storage_by_node" = some (.obj (storages.map fun e => (e.1, .str e.2))) := by
      rw [hd]; rfl
    rw [Dict.givenStorages, hget]
    dsimp only
    rw [List.map_map]
    exact List.map_id _
  have hmode : d.restoreMode = payload.restoreMode :=
    restoreMode_text (by rw [hd]; rfl) h.mode
  have hnetwork : d.networkMode = payload.networkMode :=
    networkMode_text (by rw [hd]; rfl) (networkMode_mem payload)
  have hbridge : d.textOr "lab_bridge" = payload.textOr "lab_bridge" :=
    textOr_text (by rw [hd]; rfl) (Text.strip_strip _)
  have hbwlimit : (d.getOr "bwlimit" (.int 0)).toInt = some bwlimit := by
    have hget : d "bwlimit" = some (.int bwlimit) := by rw [hd]; rfl
    rw [Dict.getOr, hget]
    exact FieldRule.toInt_orDefault bwlimit
  have hnormal : normalizeStorages nodes d.givenStorages first = storages := by
    rw [hgivenStorages, hstorages.normalizeStorages_eq]
  have hstrip : Text.strip name = name := by
    exact FieldRule.stripped_ok h.name_ok
  refine normalizeLocation_ok_iff.mpr ⟨name, nodes.headD "", first, nodes, vmidStart, bwlimit,
    ⟨stripOr_text (by rw [hd]; rfl) ⟨hstrip, h.name_ne⟩, h.name_ne,
      stripOr_text (by rw [hd]; rfl) (hnodes.trimmed _ hnodes.head_mem),
      stripOr_text (by rw [hd]; rfl) hfirstTrimmed, ?_, ?_, h.vmidStart_le, hbwlimit, h.bwlimit_le,
      ?_, ?_, ?_, ?_⟩, ?_⟩
  · rw [hgivenNodes, hnodes.normalizeNodes_eq]
  · have hget : d "vmid_start" = some (.int vmidStart) := by rw [hd]; rfl
    rw [Dict.getD, hget, Option.getD_some, Json.toInt]
  · rw [hmode]
    exact h.mode
  · rw [hnormal, hstorages.checkStorages_eq]
  · rw [hnormal, hfirst]
    exact hfirstTrimmed.2
  · rw [hnetwork, hbridge]
    exact h.bridge
  · have hlive : (d.getD "live_restore" (.bool false)).truthy =
        (payload.getD "live_restore" (.bool false)).truthy := by rw [hd]; rfl
    have hpower : (d.getD "power_on" (.bool false)).truthy =
        (payload.getD "power_on" (.bool false)).truthy := by rw [hd]; rfl
    have hisolated : (d.getD "isolated" (.bool false)).truthy =
        ((payload.getD "isolated" (.bool false)).truthy ||
          payload.networkMode ∈ ["unlink", "remap"]) := by rw [hd]; rfl
    have hqga : d.safeQgaSec = payload.safeQgaSec := safeQgaSec_int (by rw [hd]; rfl)
    have hurl : d.textOr "http_check_url" = payload.textOr "http_check_url" :=
      textOr_text (by rw [hd]; rfl) (Text.strip_strip _)
    have hcreated : d.getOr "created_at" (.str "") = payload.getOr "created_at" (.str "") :=
      getOr_again (by rw [hd]; rfl)
    have hupdated : d.getOr "updated_at" (.str "") = payload.getOr "updated_at" (.str "") :=
      getOr_again (by rw [hd]; rfl)
    rw [hnormal, hfirst, Option.getD_some, Dict.locationData, hmode, hnetwork, hbridge, hlive,
      hpower, hisolated, hqga, hurl, hcreated, hupdated, Bool.or_assoc, Bool.or_self]
    exact hd

end again

/-! ### What is accepted -/

/-- **A settled location**: the nodes are distinct, each has a storage, the node is the first of
them and the storage is that of the node. -/
structure SettledLocation (d : Dict) (nodes : List String) (storages : List (String × String))
    (storage : String) : Prop where
  nodes_eq : d "nodes" = some (.arr (nodes.map .str))
  node_eq : d "node" = some (.str (nodes.headD ""))
  storageByNode_eq : d "storage_by_node" = some (.obj (storages.map fun e => (e.1, .str e.2)))
  storage_eq : d "storage" = some (.str storage)
  nodes_ne : nodes ≠ []
  nodes_nodup : nodes.Nodup
  covered : ∀ n ∈ nodes, ∃ s, storages.lookup n = some s ∧ s ≠ ""
  first : storages.lookup (nodes.headD "") = some storage
  vmidStart : ∃ n ≥ 100, d "vmid_start" = some (.int n)
  bridge : d "network_mode" = some (.str "remap") →
    ∃ bridge, d "lab_bridge" = some (.str bridge) ∧ bridge ≠ ""
  isolated : ∀ mode ∈ ["unlink", "remap"], d "network_mode" = some (.str mode) →
    d "isolated" = some (.bool true)

/-- The request is for these nodes and storages. -/
structure EnqueueRequest.Targets (req : EnqueueRequest) (nodes : List String)
    (storages : List (String × String)) (storage : String) : Prop where
  nodes_eq : req.nodes = nodes
  storageByNode_eq : req.storageByNode = storages
  targetStorage_eq : req.targetStorage = storage

/-- The job is for one of these nodes, with the storage mapped to it. -/
def Job.MappedBy (job : Job) (nodes : List String) (storages : List (String × String)) : Prop :=
  ∃ node ∈ nodes, ∃ storage, job.proxmoxNode = some node ∧ job.proxmoxStorage = some storage ∧
    storages.lookup node = some storage

section targets

variable {req : EnqueueRequest}

private theorem candidates_targets (hnodes : SettledNodes nodes)
    (hreq : req.Targets nodes storages storage) : req.candidates = nodes := by
  have hmap : nodes.map Text.strip = nodes :=
    (List.map_congr_left fun n hn => (hnodes.trimmed n hn).1).trans (List.map_id _)
  have hfilter : nodes.filter (· ≠ "") = nodes :=
    List.filter_eq_self.mpr fun n hn => decide_eq_true (hnodes.trimmed n hn).2
  rw [EnqueueRequest.candidates, hreq.nodes_eq, hmap, hfilter]
  split
  · exact absurd rfl hnodes.ne_nil
  · rfl

private theorem storageFor_targets (hstorages : SettledStorages nodes storages)
    (hreq : req.Targets nodes storages storage) (hnode : node ∈ nodes) :
    ∃ s, req.storageFor node = .ok s ∧ storages.lookup node = some s := by
  obtain ⟨s, hlookup, htrimmed⟩ := hstorages.lookup hnode
  have hmap : storages.map (fun e => (Text.strip e.1, Text.strip e.2)) = storages := by
    refine (List.map_congr_left fun e he => ?_).trans (List.map_id _)
    exact Prod.ext (hstorages.entries.trimmed e he).1.1 (hstorages.entries.trimmed e he).2.1
  have hfilter : storages.filter (fun e => e.1 ≠ "" ∧ e.2 ≠ "") = storages :=
    List.filter_eq_self.mpr fun e he => decide_eq_true
      ⟨(hstorages.entries.trimmed e he).1.2, (hstorages.entries.trimmed e he).2.2⟩
  refine ⟨s, ?_, hlookup⟩
  rw [EnqueueRequest.storageFor, EnqueueRequest.byNode, hreq.storageByNode_eq, hmap, hfilter,
    resolveStorageForNode, lookup_reverse hstorages.entries.keys, hlookup, Option.getD_some,
    htrimmed.1]
  exact if_pos htrimmed.2

end targets

/-- **What `normalize_location` accepts is settled.** Its normal form is that of a settled location
and is not changed by another normalization. An enqueueing for these nodes and storages is refused
only for its restore mode, places its rows, and gives each job a node of the location and the
storage that the location has for this node. -/
theorem normalizeLocation_settles (h : payload.normalizeLocation locationId = .ok d) :
    ∃ nodes storages storage, SettledLocation d nodes storages storage ∧
      d.normalizeLocation locationId = .ok d ∧
      ∀ req : EnqueueRequest, req.Targets nodes storages storage →
        (∀ node ∈ req.candidates,
          ∃ s, req.storageFor node = .ok s ∧ storages.lookup node = some s) ∧
        (req.mode ∈ ["normal", "dr"] → req.check = .ok ()) ∧
        (∀ counts, ∃ placed, req.place counts = .ok placed) ∧
        ∀ w out w', Ends environment (enqueueRestores req) w out w' →
          (∀ id, w'.job id = w.job id ∨
            ∃ job, w'.job id = some job ∧ job.MappedBy nodes storages) ∧
          ∀ result, out = .ok result → ∀ id ∈ result.jobIds,
            ∃ job, w'.job id = some job ∧ job.MappedBy nodes storages := by
  obtain ⟨name, node, storage, nodes, vmidStart, bwlimit, haccepted, hd⟩ :=
    normalizeLocation_ok_iff.mp h
  have hnodes := normalizeNodes_settled (FieldRule.stripped_ok haccepted.node_ok)
    haccepted.nodes_ok
  have hstorages := normalizeStorages_settled hnodes (FieldRule.stripped_ok haccepted.storage_ok)
    haccepted.storages_ok
  generalize hgiven : normalizeStorages nodes payload.givenStorages storage = storages
    at hd hstorages
  obtain ⟨first, hfirst, hfirstTrimmed⟩ := hstorages.lookup hnodes.head_mem
  rw [hfirst, Option.getD_some] at hd
  refine ⟨nodes, storages, first, ?_, normalizeLocation_again haccepted hnodes hstorages hfirst
    hfirstTrimmed hd, fun req hreq => ?_⟩
  · subst hd
    refine ⟨rfl, rfl, rfl, rfl, hnodes.ne_nil, hnodes.nodup, fun n hn => ?_, hfirst,
      ⟨vmidStart, haccepted.vmidStart_le, rfl⟩, fun hremap => ?_, fun mode hmode hnetwork => ?_⟩
    · obtain ⟨s, hs, htrimmed⟩ := hstorages.lookup hn
      exact ⟨s, hs, htrimmed.2⟩
    · have hmode : payload.networkMode = "remap" := Json.str.inj (Option.some.inj hremap)
      exact ⟨_, rfl, haccepted.bridge hmode⟩
    · have hmodeEq : payload.networkMode = mode := Json.str.inj (Option.some.inj hnetwork)
      have hmem : payload.networkMode ∈ ["unlink", "remap"] := hmodeEq ▸ hmode
      refine congrArg (fun b => some (Json.bool b)) ?_
      rw [decide_eq_true hmem, Bool.or_true]
  · have hcandidates := candidates_targets hnodes hreq
    have hresolves : ∀ node ∈ req.candidates,
        ∃ s, req.storageFor node = .ok s ∧ storages.lookup node = some s := by
      intro node hnode
      exact storageFor_targets hstorages hreq (hcandidates ▸ hnode)
    have hmapped : ∀ job, req.PlacedJob job → job.MappedBy nodes storages := by
      rintro job ⟨node, storage', hjobNode, hnode, hjobStorage, hstorage⟩
      obtain ⟨s, hs, hlookup⟩ := hresolves node hnode
      obtain rfl := Except.ok.inj (hs.symm.trans hstorage)
      exact ⟨node, hcandidates ▸ hnode, s, hjobNode, hjobStorage, hlookup⟩
    refine ⟨hresolves, fun hmode => ?_, fun counts => ?_, fun w out w' hends => ⟨fun id => ?_, ?_⟩⟩
    · rcases req.check_spec with ⟨hok, -⟩ | ⟨_, -, hrefused⟩
      · exact hok
      · rcases hrefused with hbad | hnone | ⟨cand, hcand, e, he⟩
        · exact absurd hmode hbad
        · exact absurd (hcandidates.symm.trans hnone) hnodes.ne_nil
        · obtain ⟨s, hs, -⟩ := hresolves cand hcand
          cases hs.symm.trans he
    · obtain ⟨placedNodes, placedStorages, hplaced, -, -⟩ := req.place_ok counts
        (hcandidates.symm ▸ hnodes.ne_nil) fun cand hcand => ⟨_, (hresolves cand hcand).choose_spec.1⟩
      exact ⟨_, hplaced⟩
    · rw [← environment.restrict_true] at hends
      exact ((enqueueRestores_placed hends).jobs id).imp_right fun ⟨job, hjob, hplaced⟩ =>
        ⟨job, hjob, hmapped job hplaced⟩
    · rintro result rfl id hid
      rw [← environment.restrict_true] at hends
      obtain ⟨job, hjob, hplaced⟩ := enqueueRestores_jobs_placed hends id hid
      exact ⟨job, hjob, hmapped job hplaced⟩

/-- A payload with a node, a list of nodes, a default storage and a storage for one node. -/
private def sampleLocation : Dict := Dict.ofFields [("name", .str " Lab "), ("node", .str "pve1"),
  ("nodes", .arr [.str " pve2", .str "pve1"]), ("storage", .str "zfs"),
  ("storage_by_node", .obj [("pve2 ", .str "nvme")]), ("network_mode", .str "remap"),
  ("lab_bridge", .str "vmbr9")]

theorem normalizeLocation_settles_sample :
    ∃ d, sampleLocation.normalizeLocation "l1" = .ok d ∧
      ∃ nodes storages storage, SettledLocation d nodes storages storage ∧
        d.normalizeLocation "l1" = .ok d := by
  have hok : (sampleLocation.normalizeLocation "l1").toBool = true := by decide +kernel
  cases h : sampleLocation.normalizeLocation "l1" with
  | error e =>
    rw [h] at hok
    cases hok
  | ok d =>
    obtain ⟨nodes, storages, storage, hsettled, hagain, -⟩ := normalizeLocation_settles h
    exact ⟨d, rfl, nodes, storages, storage, hsettled, hagain⟩

end RestoreEngine
