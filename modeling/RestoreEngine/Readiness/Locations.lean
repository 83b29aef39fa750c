import RestoreEngine.Enqueue.Steps
import RestoreEngine.Model.Readiness
import RestoreEngine.Model.Registry

/-!
# Locations

A location is stored in a normal form (`Location.Normalized`): its nodes and its storages are
stripped, and each node has one storage. For such a location the readiness check and
`enqueue_restores`, which look up the storage of a node by rules of their own, find the same one
(`storageFor_eq`), so that a request for its nodes is not refused if the check has found a storage
on each.
-/

namespace RestoreEngine

variable {location : Location} {req : EnqueueRequest}

/-- A text that is stripped and not empty. -/
def Text.Trimmed (s : String) : Prop := Text.strip s = s ∧ s ≠ ""

/-- **A normalized location.** -/
structure Location.Normalized (location : Location) : Prop where
  nodes : location.nodes ≠ []
  trimmed : ∀ node ∈ location.nodes, Text.Trimmed node
  keys : (location.storageByNode.map Prod.fst).Nodup
  entries : ∀ e ∈ location.storageByNode, Text.Trimmed e.1 ∧ Text.Trimmed e.2
  mode : location.restoreMode ∈ ["normal", "dr"]

/-! ### What is stored -/

private theorem dedupeFrom_trimmed {seen names : List String} {name : String}
    (h : name ∈ dedupeFrom seen names) : Text.Trimmed name := by
  induction names generalizing seen with
  | nil => cases h
  | cons raw rest ih =>
    rw [dedupeFrom] at h
    split_ifs at h with hskip
    · exact ih h
    · rcases List.mem_cons.mp h with rfl | h
      · exact ⟨Text.strip_strip raw, (not_or.mp hskip).1⟩
      · exact ih h

theorem normalizeNodes_ok {node : String} {names nodes : List String}
    (hnode : Text.strip node = node) (h : normalizeNodes node names = .ok nodes) :
    nodes ≠ [] ∧ ∀ n ∈ nodes, Text.Trimmed n := by
  have hnames : ∀ n ∈ dedupeNodes names, Text.Trimmed n := fun n hn => dedupeFrom_trimmed hn
  unfold normalizeNodes at h
  split at h
  · cases h
  · next hne =>
    obtain rfl := Except.ok.inj h
    exact ⟨hne, hnames⟩
  · next hne _ =>
    obtain rfl := Except.ok.inj h
    refine ⟨List.cons_ne_nil _ _, fun n hn => ?_⟩
    rcases List.mem_cons.mp hn with rfl | hn
    · exact ⟨hnode, fun hempty => hne hempty⟩
    · exact hnames n (List.mem_filter.mp hn).1

theorem setEntry_keys (key val : String) (d : List (String × String)) :
    (setEntry key val d).map Prod.fst =
      if key ∈ d.map Prod.fst then d.map Prod.fst else d.map Prod.fst ++ [key] := by
  induction d with
  | nil => simp [setEntry]
  | cons e rest ih =>
    rw [setEntry]
    by_cases he : e.1 = key
    · subst he
      simp
    · rw [if_neg he, List.map_cons, ih]
      simp only [List.map_cons, List.mem_cons, Ne.symm he, false_or]
      split_ifs <;> rfl

private theorem mem_setEntry {key val : String} {d : List (String × String)}
    {e : String × String} (h : e ∈ setEntry key val d) : e = (key, val) ∨ e ∈ d := by
  induction d with
  | nil => exact .inl (List.mem_singleton.mp h)
  | cons first rest ih =>
    rw [setEntry] at h
    split_ifs at h
    · rcases List.mem_cons.mp h with rfl | h
      · exact .inl rfl
      · exact .inr (List.mem_cons_of_mem _ h)
    · rcases List.mem_cons.mp h with rfl | h
      · exact .inr List.mem_cons_self
      · exact (ih h).imp_right (List.mem_cons_of_mem _)

/-- The entries of a dictionary, under stripped and distinct keys. -/
structure StorageEntries (d : List (String × String)) : Prop where
  keys : (d.map Prod.fst).Nodup
  trimmed : ∀ e ∈ d, Text.Trimmed e.1 ∧ Text.Trimmed e.2

private theorem StorageEntries.set {d : List (String × String)} (h : StorageEntries d)
    {key val : String}
    (hkey : Text.Trimmed key) (hval : Text.Trimmed val) : StorageEntries (setEntry key val d) := by
  constructor
  · rw [setEntry_keys]
    split_ifs with hmem
    · exact h.keys
    · exact h.keys.append (List.nodup_singleton _) (by simpa using hmem)
  · intro e he
    rcases mem_setEntry he with rfl | he
    · exact ⟨hkey, hval⟩
    · exact h.trimmed e he

theorem normalizeStorages_entries {nodes : List String}
    (raw : List (String × String)) {storage : String} (hnodes : ∀ n ∈ nodes, Text.Trimmed n)
    (hstorage : Text.strip storage = storage) :
    StorageEntries (normalizeStorages nodes raw storage) := by
  have hgiven : ∀ (es d : List (String × String)), StorageEntries d →
      (∀ e ∈ es, Text.Trimmed e.1 ∧ Text.Trimmed e.2) →
        StorageEntries (es.foldl (fun d e => setEntry e.1 e.2 d) d) := by
    intro es
    induction es with
    | nil => exact fun d hd _ => hd
    | cons e rest ih =>
      intro d hd hes
      have he := hes e List.mem_cons_self
      exact ih _ (hd.set he.1 he.2) fun e' he' => hes e' (List.mem_cons_of_mem _ he')
  have hfill : ∀ (ns : List String) (d : List (String × String)), storage ≠ "" → StorageEntries d →
      (∀ n ∈ ns, Text.Trimmed n) → StorageEntries (ns.foldl (fun d n =>
        if n ∈ d.map Prod.fst then d else setEntry n storage d) d) := by
    intro ns
    induction ns with
    | nil => exact fun d _ hd _ => hd
    | cons n rest ih =>
      intro d hne hd hns
      refine ih _ hne ?_ fun n' hn' => hns n' (List.mem_cons_of_mem _ hn')
      dsimp only
      split_ifs with hmem
      · exact hd
      · exact hd.set (hns n List.mem_cons_self) ⟨hstorage, hne⟩
  have hraw : ∀ e ∈ normalizeStorageByNode raw, Text.Trimmed e.1 ∧ Text.Trimmed e.2 := by
    intro e he
    obtain ⟨hmap, hne⟩ := List.mem_filter.mp he
    obtain ⟨e₀, -, rfl⟩ := List.mem_map.mp hmap
    have hne := of_decide_eq_true hne
    exact ⟨⟨Text.strip_strip _, hne.1⟩, Text.strip_strip _, hne.2⟩
  have hfirst := hgiven (normalizeStorageByNode raw) [] ⟨List.nodup_nil, nofun⟩ hraw
  rw [normalizeStorages]
  split_ifs with hempty
  · exact hfirst
  · exact hfill nodes _ hempty hfirst hnodes

/-- **What `create_location` and `update_location` store is normalized.** -/
theorem normalizeLocation_normalized {payload : LocationPayload} {data : Uuid → Location}
    (h : normalizeLocation payload = .ok data) (id : Uuid) : (data id).Normalized := by
  obtain ⟨-, h⟩ := Effects.of_ite_ok h
  obtain ⟨nodes, hnodes, h⟩ := Effects.of_bind_ok h
  obtain ⟨hne, htrimmed⟩ := normalizeNodes_ok (Text.strip_strip _) hnodes
  obtain ⟨_, hvalues, h⟩ := Effects.of_bind_ok h
  obtain ⟨_, -, h⟩ := Effects.of_bind_ok h
  have h := (Effects.of_ite_ok (Effects.of_ite_ok h).2).2
  have hmode := (Effects.of_ite_ok (Effects.of_ite_ok (Effects.of_ite_ok hvalues).2).2).1
  obtain ⟨hkeys, hentries⟩ :=
    normalizeStorages_entries (payload.storageByNode.getD []) htrimmed
      (Text.strip_strip (payload.storage.getD ""))
  obtain rfl := Except.ok.inj h
  constructor <;> dsimp only
  · exact hne
  · exact htrimmed
  · exact hkeys
  · exact hentries
  · exact not_not.mp hmode

/-! ### The storage of a node -/

private theorem lookup_eq_some_iff {d : List (String × String)} (h : (d.map Prod.fst).Nodup)
    {key val : String} : d.lookup key = some val ↔ (key, val) ∈ d := by
  induction d with
  | nil => simp
  | cons e rest ih =>
    obtain ⟨k, v⟩ := e
    rw [List.map_cons, List.nodup_cons] at h
    by_cases hk : key = k
    · subst hk
      have hnot : (key, val) ∉ rest := fun hmem => h.1 (List.mem_map.mpr ⟨_, hmem, rfl⟩)
      simp [hnot, eq_comm]
    · rw [List.lookup_cons, beq_false_of_ne hk]
      simp [ih h.2, hk]

/-- The order of a dictionary does not matter. -/
theorem lookup_reverse {d : List (String × String)} (h : (d.map Prod.fst).Nodup)
    (key : String) : d.reverse.lookup key = d.lookup key := by
  refine Option.ext fun val => ?_
  have hreverse : (d.reverse.map Prod.fst).Nodup := by
    rw [List.map_reverse]
    exact List.nodup_reverse.mpr h
  rw [lookup_eq_some_iff hreverse, lookup_eq_some_iff h, List.mem_reverse]

/-- The request is for the nodes and the storages of the location, and in its mode. -/
structure EnqueueRequest.AimsAt (req : EnqueueRequest) (location : Location) : Prop where
  nodes : req.nodes = location.nodes
  targetStorage : req.targetStorage = location.storage
  storageByNode : req.storageByNode = location.storageByNode
  mode : req.mode = location.mode

namespace Location.Normalized

variable (h : location.Normalized)

include h

theorem mode_eq : location.mode = location.restoreMode := by
  have hmem := h.mode
  simp only [List.mem_cons, List.not_mem_nil, or_false] at hmem
  rw [Location.mode]
  rcases hmem with hm | hm <;> rw [hm] <;> decide

theorem checkedNodes_eq : location.checkedNodes = location.nodes :=
  if_neg fun hnil => h.nodes hnil.1

theorem candidates_eq (hreq : req.AimsAt location) : req.candidates = location.nodes := by
  have hmap : location.nodes.map Text.strip = location.nodes :=
    (List.map_congr_left fun n hn => (h.trimmed n hn).1).trans (List.map_id _)
  have hfilter : location.nodes.filter (· ≠ "") = location.nodes :=
    List.filter_eq_self.mpr fun n hn => decide_eq_true (h.trimmed n hn).2
  rw [EnqueueRequest.candidates, hreq.nodes, hmap, hfilter]
  split
  · next hnil => exact absurd hnil h.nodes
  · rfl

/-- **The check and the enqueueing find the same storage.** -/
theorem storageFor_eq (hreq : req.AimsAt location) (node : String) :
    req.storageFor node = location.storageOn node := by
  have hmap : location.storageByNode.map (fun e => (Text.strip e.1, Text.strip e.2)) =
      location.storageByNode := by
    refine (List.map_congr_left fun e he => ?_).trans (List.map_id _)
    exact Prod.ext (h.entries e he).1.1 (h.entries e he).2.1
  have hfilter : location.storageByNode.filter (fun e => e.1 ≠ "" ∧ e.2 ≠ "") =
      location.storageByNode :=
    List.filter_eq_self.mpr fun e he =>
      decide_eq_true ⟨(h.entries e he).1.2, (h.entries e he).2.2⟩
  rw [EnqueueRequest.storageFor, Location.storageOn, EnqueueRequest.byNode, hreq.storageByNode,
    hmap, hfilter, hreq.targetStorage, resolveStorageForNode, resolveStorageForNode,
    lookup_reverse h.keys, Text.strip_strip]

/-- A request for a location on whose nodes a storage was found is not refused. -/
theorem not_refused (hreq : req.AimsAt location)
    (hstorages : ∀ node ∈ location.checkedNodes, ∃ sid, location.storageOn node = .ok sid) :
    ¬ req.Refused := by
  rintro (hmode | hnone | ⟨node, hnode, e, he⟩)
  · rw [hreq.mode, h.mode_eq] at hmode
    exact hmode h.mode
  · exact h.nodes (h.candidates_eq hreq ▸ hnone)
  · rw [h.candidates_eq hreq, ← h.checkedNodes_eq] at hnode
    obtain ⟨sid, hsid⟩ := hstorages node hnode
    rw [h.storageFor_eq hreq, hsid] at he
    cases he

end Location.Normalized

end RestoreEngine
