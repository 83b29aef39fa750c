import RestoreEngine.Sources.Slugs

/-!
# Saving the servers unchanged

The settings page reads the servers and sends them back as they are. When that leaves the sources
as they were, and no server gets the secret of another, is said by `saveUnchanged_iff`: ids are to
be slugs that no server before has taken, servers with one id are to have one secret, a server in
the old format is to have none, for it is not looked up at all, and nothing that a source needs may
be `null`, for it comes back as the text `None`.

The sources are compared server by server. A mount that gives a source is always saved, so the
sources of a server never get fewer; if all of them together stay the same, each server's do.
-/

namespace RestoreEngine

variable {abc : Letters} {cfg : SourceConfig} {existing : List ServerEntry}
  {entries : List (Option ServerEntry)} {used : List String} {index place : ℕ} {s : ServerEntry}
  {m : MountEntry}

/-! ### What is to hold -/

/-- The secret comes from nowhere else: it is blank, the own one, or none of the others'. -/
def NoOther (others : List ConfigValue) (own new : ConfigValue) : Prop :=
  new.stripped = "" ∨ new.stripped = own.stripped ∨ ∀ other ∈ others, other.stripped ≠ new.stripped

/-- The saved configuration has **the same sources**, and no server has got the secret of
another. -/
structure SourceConfig.KeptBy (cfg saved : SourceConfig) : Prop where
  sources : loadSources saved = loadSources cfg
  secrets : List.Forall₂ (fun old new =>
    NoOther ((shownServers cfg).map (·.apiTokenSecret)) old.apiTokenSecret new.apiTokenSecret ∧
      NoOther ((shownServers cfg).map (·.password)) old.password new.password)
    (shownServers cfg) saved.servers

/-- **Saving the servers unchanged preserves the sources.** Where the page cannot be read, or is
refused when it is sent back, nothing is saved. -/
def SourceConfig.Preserved (abc : Letters) (cfg : SourceConfig) : Prop :=
  ∀ saved, saveUnchanged abc cfg = .ok saved → cfg.KeptBy saved

/-! ### The condition -/

/-- The value is a text. -/
def Json.isStr : Json → Bool
  | .str _ => true
  | _ => false

/-- The server can be shown and sent back: its secrets can be stripped, and what is shown as it
stands is a text. -/
structure ServerEntry.Sendable (s : ServerEntry) : Prop where
  apiTokenSecret : s.apiTokenSecret.orEmpty.isStr
  password : s.password.orEmpty.isStr
  host : (s.host.getD (.str "")).isStr
  apiTokenId : (s.apiTokenId.getD (.str "")).isStr
  user : (s.user.getD (.str "")).isStr

/-- What is sent back for a server. -/
def ServerEntry.sent (s : ServerEntry) : PBSServerModel where
  id := s.id.asText
  host := s.host.asText
  port := portOr s.port
  verifySsl := s.verifySsl
  apiTokenId := s.apiTokenId.asText
  apiTokenSecret := masked (s.apiTokenSecret.stripped ≠ "")
  user := s.user.asText
  password := masked (s.password.stripped ≠ "")
  mounts := s.mounts.map mountView

/-- The server has a mount that can be used. -/
def ServerEntry.Mounted (s : ServerEntry) : Prop := ∃ m ∈ s.mounts, m.Usable

instance (s : ServerEntry) : Decidable s.Mounted := inferInstanceAs (Decidable (∃ m ∈ s.mounts, _))

/-- A secret of the last server with the id, as a text. -/
def secretById (existing : List ServerEntry) (id : String) (field : ServerEntry → ConfigValue) :
    String :=
  ((lastById existing id).map fun s => (field s).asText).getD ""

/-- What makes the sources of a server stay: its id is a slug that is not used by the servers
before, the last server with the id has the same secrets, and no namespace has a space behind its
slashes. `index` counts the items of the list, `place` the servers that are saved. -/
structure ServerEntry.Stays (abc : Letters) (existing : List ServerEntry) (index place : ℕ)
    (used : List String) (s : ServerEntry) : Prop where
  slug : serverSlug abc s.sent place = s.effectiveId index
  free : s.effectiveId index ∉ used
  secret : Text.strip (secretById existing s.id.asText (·.apiTokenSecret)) =
    s.apiTokenSecret.stripped
  password : Text.strip (secretById existing s.id.asText (·.password)) = s.password.stripped
  namespaces : ∀ m ∈ s.mounts, m.Usable → normNs (normNs m.ns.orBlank) = normNs m.ns.orBlank

/-- No mount of the server comes to be used only because a datastore or a storage that is false, as
`null` is, has become a text. -/
def ServerEntry.NoneNew (s : ServerEntry) : Prop :=
  ∀ m ∈ s.mounts, (mountView m).Usable → m.Usable

/-- Every server with a usable mount stays as it is, and none gets another one; each takes an id
from those after it. -/
def AllStay (abc : Letters) (existing : List ServerEntry) :
    ℕ → ℕ → List String → List (Option ServerEntry) → Prop
  | _, _, _, [] => True
  | index, place, used, none :: rest => AllStay abc existing (index + 1) place used rest
  | index, place, used, some s :: rest =>
    (s.NoneNew ∧ (s.Mounted → s.Stays abc existing index place used)) ∧
      AllStay abc existing (index + 1) (place + 1)
        (uniqueId (serverSlug abc s.sent place) used :: used) rest

/-- The server gets no secret of another server with its id. -/
def ServerEntry.Unmixed (existing : List ServerEntry) (s : ServerEntry) : Prop :=
  NoOther (existing.map (·.apiTokenSecret)) s.apiTokenSecret
      (.text (secretById existing s.id.asText (·.apiTokenSecret))) ∧
    NoOther (existing.map (·.password)) s.password
      (.text (secretById existing s.id.asText (·.password)))

/-- The block in the old format gives a source. -/
def PbsEntry.Mounted (pbs : PbsEntry) (pbsStorage : ConfigValue) : Prop :=
  pbs.datastore.stripped ≠ "" ∧ pbsStorage.stripped ≠ ""

instance (pbs : PbsEntry) (pbsStorage : ConfigValue) : Decidable (pbs.Mounted pbsStorage) :=
  inferInstanceAs (Decidable (_ ∧ _))

/-- What is saved for the mount of a server is the source of the block in the old format. -/
structure ServerEntry.Replaces (abc : Letters) (cfg : SourceConfig) (place : ℕ)
    (used : List String) (s : ServerEntry) (m : MountEntry) : Prop where
  slug : serverSlug abc s.sent place = "pbs"
  free : "pbs" ∉ used
  host : s.host.stripped = cfg.pbs.host.stripped
  port : portOr s.port = portOr cfg.pbs.port
  verifySsl : s.verifySsl = cfg.pbs.verifySsl
  apiTokenId : s.apiTokenId.stripped = cfg.pbs.apiTokenId.stripped
  secret : Text.strip (secretById cfg.servers s.id.asText (·.apiTokenSecret)) =
    cfg.pbs.apiTokenSecret.stripped
  user : s.user.stripped = cfg.pbs.user.stripped
  password : Text.strip (secretById cfg.servers s.id.asText (·.password)) =
    cfg.pbs.password.stripped
  datastore : Text.strip m.datastore.asText = cfg.pbs.datastore.stripped
  ns : normNs (normNs m.ns.orBlank) = ""
  pveStorage : Text.strip m.pveStorage.asText = cfg.pbsStorage.stripped

/-- Just one mount of all servers comes to be used, and replaces the block in the old format. -/
def OneReplaces (abc : Letters) (cfg : SourceConfig) : ℕ → List String → List ServerEntry → Prop
  | _, _, [] => False
  | place, used, s :: rest =>
    ((∀ m ∈ s.mounts, ¬ (mountView m).Usable) ∧
      OneReplaces abc cfg (place + 1) (uniqueId (serverSlug abc s.sent place) used :: used) rest) ∨
    ((∃ m, s.mounts.filter (fun m => (mountView m).Usable) = [m] ∧
        s.Replaces abc cfg place used m) ∧
      ∀ t ∈ rest, ∀ m ∈ t.mounts, ¬ (mountView m).Usable)

/-- **The configurations that can be saved unchanged.** -/
def SourceConfig.Resavable (abc : Letters) (cfg : SourceConfig) : Prop :=
  (∀ s ∈ shownServers cfg, s.Sendable) →
    if cfg.pbsServers = [] then
      (cfg.pbs.Mounted cfg.pbsStorage →
        cfg.pbs.apiTokenSecret.stripped = "" ∧ cfg.pbs.password.stripped = "") ∧
      (cfg.pbs.host.truthy → cfg.pbsStorage.stripped ≠ "" →
        Text.strip cfg.pbs.datastore.asText ≠ "" → cfg.pbs.datastore.stripped ≠ "")
    else
      (∀ s ∈ cfg.servers, s.Unmixed cfg.servers) ∧
      (AllStay abc cfg.servers 0 0 [] cfg.pbsServers ∧
          ((∃ s ∈ cfg.servers, s.Mounted) ∨ ¬ cfg.pbs.Mounted cfg.pbsStorage) ∨
        (∀ s ∈ cfg.servers, ¬ s.Mounted) ∧ cfg.pbs.Mounted cfg.pbsStorage ∧
          OneReplaces abc cfg 0 [] cfg.servers)

/-! ### Reading and sending back -/

private theorem isStr_iff {v : Json} : v.isStr ↔ ∃ t, v = .str t := by
  cases v <;> simp [Json.isStr]

private theorem modelText_ok_iff {v : Json} {t : String} : modelText v = .ok t ↔ v = .str t := by
  cases v <;> simp [modelText]

/-- A value that is missing or a text reads the same in both ways. -/
private theorem orBlank_eq_asText {v : ConfigValue} (h : (v.getD (.str "")).isStr) :
    v.orBlank = v.asText := by
  cases v with
  | none => rfl
  | some x =>
    obtain ⟨t, ht⟩ := isStr_iff.mp h
    rw [Option.getD_some] at ht
    subst ht
    exact ConfigValue.orBlank_text t

private theorem isSet_ok_iff {v : ConfigValue} {b : Bool} :
    v.isSet = .ok b ↔ v.orEmpty.isStr ∧ b = decide (v.stripped ≠ "") := by
  rw [ConfigValue.isSet, ConfigValue.stripped, ConfigValue.orBlank]
  constructor
  · intro h
    obtain ⟨t, ht, hb⟩ := Effects.of_bind_ok h
    cases hv : v.orEmpty with
    | str s =>
      rw [hv] at ht
      obtain rfl := Except.ok.inj ht
      exact ⟨rfl, (Except.ok.inj hb).symm⟩
    | _ => simp [hv, Dict.stripped] at ht
  · rintro ⟨hstr, rfl⟩
    obtain ⟨t, ht⟩ := isStr_iff.mp hstr
    rw [ht]
    rfl

/-- **A server goes through the page** if it can be shown and sent back. -/
private theorem model_ok_iff {sent : PBSServerModel} :
    (∃ view, maskPbsServer s = .ok view ∧ view.model = .ok sent) ↔ s.Sendable ∧ sent = s.sent := by
  constructor
  · rintro ⟨view, hmask, hmodel⟩
    obtain ⟨tok, htok, hmask⟩ := Effects.of_bind_ok hmask
    obtain ⟨pwd, hpwd, hmask⟩ := Effects.of_bind_ok hmask
    obtain rfl := Except.ok.inj hmask
    obtain ⟨host, hhost, hmodel⟩ := Effects.of_bind_ok hmodel
    obtain ⟨apiTokenId, htokenId, hmodel⟩ := Effects.of_bind_ok hmodel
    obtain ⟨user, huser, hmodel⟩ := Effects.of_bind_ok hmodel
    obtain rfl := Except.ok.inj hmodel
    obtain ⟨htokStr, rfl⟩ := isSet_ok_iff.mp htok
    obtain ⟨hpwdStr, rfl⟩ := isSet_ok_iff.mp hpwd
    have hhost : s.host.getD (.str "") = .str host := modelText_ok_iff.mp hhost
    have htokenId : s.apiTokenId.getD (.str "") = .str apiTokenId := modelText_ok_iff.mp htokenId
    have huser : s.user.getD (.str "") = .str user := modelText_ok_iff.mp huser
    refine ⟨⟨htokStr, hpwdStr, isStr_iff.mpr ⟨_, hhost⟩, isStr_iff.mpr ⟨_, htokenId⟩,
      isStr_iff.mpr ⟨_, huser⟩⟩, ?_⟩
    simp only [ServerEntry.sent, ConfigValue.asText, hhost, htokenId, huser, Json.toText]
  · rintro ⟨hs, rfl⟩
    obtain ⟨host, hhost⟩ := isStr_iff.mp hs.host
    obtain ⟨apiTokenId, htokenId⟩ := isStr_iff.mp hs.apiTokenId
    obtain ⟨user, huser⟩ := isStr_iff.mp hs.user
    have htok := isSet_ok_iff.mpr ⟨hs.apiTokenSecret, rfl⟩
    have hpwd := isSet_ok_iff.mpr ⟨hs.password, rfl⟩
    refine ⟨_, by rw [maskPbsServer, htok, hpwd]; rfl, ?_⟩
    simp only [ServerView.model, hhost, htokenId, huser, modelText, ServerEntry.sent,
      ConfigValue.asText, Json.toText]
    rfl

/-- All servers go through the page if each of them does. -/
private theorem page_ok_iff {shown : List ServerEntry} {incoming : List PBSServerModel} :
    (∃ view, shown.mapM maskPbsServer = .ok view ∧ view.mapM ServerView.model = .ok incoming) ↔
      (∀ s ∈ shown, s.Sendable) ∧ incoming = shown.map ServerEntry.sent := by
  constructor
  · rintro ⟨view, hview, hincoming⟩
    have hmask := Effects.mapM_ok_iff.mp hview
    have hmodel := Effects.mapM_ok_iff.mp hincoming
    clear hview hincoming
    induction hmask generalizing incoming with
    | nil =>
      obtain rfl := List.forall₂_nil_left_iff.mp hmodel
      exact ⟨List.forall_mem_nil _, rfl⟩
    | cons hs _ ih =>
      obtain ⟨sent, rest, hsent, hrest, rfl⟩ := List.forall₂_cons_left_iff.mp hmodel
      obtain ⟨hok, rfl⟩ := model_ok_iff.mp ⟨_, hs, hsent⟩
      obtain ⟨hall, rfl⟩ := ih hrest
      exact ⟨List.forall_mem_cons.mpr ⟨hok, hall⟩, rfl⟩
  · rintro ⟨hall, rfl⟩
    induction shown with
    | nil => exact ⟨[], rfl, rfl⟩
    | cons s rest ih =>
      obtain ⟨hs, hrest⟩ := List.forall_mem_cons.mp hall
      obtain ⟨first, hmask, hmodel⟩ := model_ok_iff.mpr ⟨hs, rfl⟩
      obtain ⟨view, hmasks, hmodels⟩ := ih hrest
      refine ⟨first :: view, ?_, ?_⟩
      · rw [List.mapM_cons, hmask, hmasks]
        rfl
      · rw [List.mapM_cons, hmodel, hmodels]
        rfl

/-- **What is saved** when the page is sent back as it was read. -/
private theorem saveUnchanged_ok_iff {saved : SourceConfig} : saveUnchanged abc cfg = .ok saved ↔
    (∀ s ∈ shownServers cfg, s.Sendable) ∧
      saved = putPbsServers abc cfg ((shownServers cfg).map ServerEntry.sent) := by
  constructor
  · intro h
    obtain ⟨view, hview, h⟩ := Effects.of_bind_ok h
    obtain ⟨incoming, hincoming, h⟩ := Effects.of_bind_ok h
    obtain ⟨hall, rfl⟩ := page_ok_iff.mp ⟨view, hview, hincoming⟩
    exact ⟨hall, (Except.ok.inj h).symm⟩
  · rintro ⟨hall, rfl⟩
    obtain ⟨view, hview, hincoming⟩ := page_ok_iff.mpr ⟨hall, rfl⟩
    rw [saveUnchanged, pbsServersView, hview]
    change (view.mapM ServerView.model >>= _) = _
    rw [hincoming]
    rfl

/-! ### One server -/

/-- The server that is saved for one that is shown. -/
private def resaved (abc : Letters) (existing : List ServerEntry) (place : ℕ) (used : List String)
    (s : ServerEntry) : ServerEntry :=
  savedServer existing (uniqueId (serverSlug abc s.sent place) used) s.sent

private theorem keepSecret_masked (existing : List ServerEntry) (id : String) (set : Bool)
    (field : ServerEntry → ConfigValue) :
    keepSecret existing id field (masked set) = secretById existing id field := by
  have hmask : Text.strip mask = mask := by decide
  have hempty : Text.strip "" = "" := by decide
  rw [keepSecret, masked]
  cases set
  · exact if_pos (.inl hempty)
  · exact if_pos (.inr hmask)

private theorem resaved_secret : (resaved abc existing place used s).apiTokenSecret =
    .text (secretById existing s.id.asText (·.apiTokenSecret)) := by
  rw [← keepSecret_masked existing s.id.asText (s.apiTokenSecret.stripped ≠ "")]
  rfl

private theorem resaved_password : (resaved abc existing place used s).password =
    .text (secretById existing s.id.asText (·.password)) := by
  rw [← keepSecret_masked existing s.id.asText (s.password.stripped ≠ "")]
  rfl

private theorem portOr_portOr (port : ℤ) : portOr (portOr port) = portOr port := by
  rw [portOr, portOr]
  split_ifs <;> rfl

private theorem effectiveId_resaved (abc : Letters) (existing : List ServerEntry) (place : ℕ)
    (used : List String) (s : ServerEntry) (i : ℕ) :
    (resaved abc existing place used s).effectiveId i =
      uniqueId (serverSlug abc s.sent place) used := by
  have hid : (resaved abc existing place used s).id.orBlank =
      uniqueId (serverSlug abc s.sent place) used := ConfigValue.orBlank_text _
  have hsluggy := (sluggy_serverSlug abc s.sent place).unique used
  rw [ServerEntry.effectiveId, hid, if_neg hsluggy.ne_empty]
  simp only [hsluggy.strip, if_neg hsluggy.ne_empty]

private theorem usable_savedMount {m : PBSMountModel} (h : m.Usable) : (savedMount m).Usable := by
  rw [MountEntry.Usable, savedMount, ConfigValue.stripped_text, ConfigValue.stripped_text,
    Text.strip_strip, Text.strip_strip]
  exact h

private theorem sources_resaved (abc : Letters) (existing : List ServerEntry) (place : ℕ)
    (used : List String) (s : ServerEntry) :
    sourcesFromServer (resaved abc existing place used s) place =
      (s.mounts.filter fun m => (mountView m).Usable).map fun m =>
        (resaved abc existing place used s).source place (savedMount (mountView m)) := by
  have hmounts : (resaved abc existing place used s).mounts =
      (s.mounts.filter fun m => (mountView m).Usable).map fun m => savedMount (mountView m) := by
    change ((s.mounts.map mountView).filter fun m => m.Usable).map savedMount = _
    rw [List.filter_map, List.map_map]
    rfl
  have hall : ((s.mounts.filter fun m => (mountView m).Usable).map fun m =>
      savedMount (mountView m)).filter (fun m => m.Usable) =
      (s.mounts.filter fun m => (mountView m).Usable).map fun m => savedMount (mountView m) := by
    refine List.filter_eq_self.mpr fun m hm => ?_
    obtain ⟨m', hm', rfl⟩ := List.mem_map.mp hm
    exact decide_eq_true (usable_savedMount (of_decide_eq_true (List.mem_filter.mp hm').2))
  rw [sourcesFromServer, hmounts, hall, List.map_map]
  rfl

/-- A mount that can be used is shown as one. -/
private theorem shown_of_usable (h : m.Usable) : (mountView m).Usable := by
  have hread : ∀ v : ConfigValue, v.stripped ≠ "" → Text.strip v.asText ≠ "" := by
    intro v hv
    have hne : v.orBlank ≠ "" := by
      intro hblank
      rw [ConfigValue.stripped, hblank] at hv
      exact hv (by decide)
    rwa [ConfigValue.asText_of_orBlank_ne hne]
  exact ⟨hread _ h.1, hread _ h.2⟩

/-- What a mount that can be used is shown as. -/
private theorem asText_of_usable (h : m.Usable) :
    Text.strip m.datastore.asText = m.datastore.stripped ∧
      Text.strip m.pveStorage.asText = m.pveStorage.stripped := by
  have hread : ∀ v : ConfigValue, v.stripped ≠ "" → Text.strip v.asText = v.stripped := by
    intro v hv
    have hne : v.orBlank ≠ "" := by
      intro hblank
      rw [ConfigValue.stripped, hblank] at hv
      exact hv (by decide)
    rw [ConfigValue.asText_of_orBlank_ne hne, ConfigValue.stripped]
  exact ⟨hread _ h.1, hread _ h.2⟩

/-- **What is saved for a mount is a given source** if it is so field by field. -/
private theorem source_resaved_eq_iff (hs : s.Sendable) (other : ServerEntry) (m' : MountEntry) :
    (resaved abc existing place used s).source place (savedMount (mountView m)) =
        other.source index m' ↔
      uniqueId (serverSlug abc s.sent place) used = other.effectiveId index ∧
        (s.host.stripped = other.host.stripped ∧ portOr s.port = portOr other.port ∧
          s.verifySsl = other.verifySsl ∧ s.apiTokenId.stripped = other.apiTokenId.stripped ∧
          s.user.stripped = other.user.stripped) ∧
        Text.strip (secretById existing s.id.asText (·.apiTokenSecret)) =
          other.apiTokenSecret.stripped ∧
        Text.strip (secretById existing s.id.asText (·.password)) = other.password.stripped ∧
        Text.strip m.datastore.asText = m'.datastore.stripped ∧
        normNs (normNs m.ns.orBlank) = normNs m'.ns.orBlank ∧
        Text.strip m.pveStorage.asText = m'.pveStorage.stripped := by
  have htext : ∀ {v : ConfigValue}, (v.getD (.str "")).isStr →
      (ConfigValue.text (Text.strip v.asText)).stripped = v.stripped := by
    intro v hv
    rw [ConfigValue.stripped_text, Text.strip_strip, ← orBlank_eq_asText hv, ConfigValue.stripped]
  have hhost : (resaved abc existing place used s).host.stripped = s.host.stripped := htext hs.host
  have hport : (resaved abc existing place used s).port = portOr (portOr s.port) := rfl
  have hssl : (resaved abc existing place used s).verifySsl = s.verifySsl := rfl
  have htoken : (resaved abc existing place used s).apiTokenId.stripped = s.apiTokenId.stripped :=
    htext hs.apiTokenId
  have huser : (resaved abc existing place used s).user.stripped = s.user.stripped := htext hs.user
  rw [ServerEntry.source, ServerEntry.source, Source.mk.injEq]
  simp only [effectiveId_resaved, resaved_secret, resaved_password, hhost, hport, hssl, htoken,
    huser, savedMount, mountView, ConfigValue.stripped_text, ConfigValue.orBlank_text,
    Text.strip_strip, portOr_portOr]
  constructor
  · rintro ⟨-, hid, -, hhost, hport, hssl, htok, hsecret, huser, hpass, hds, hns, hpve⟩
    exact ⟨hid, ⟨hhost, hport, hssl, htok, huser⟩, hsecret, hpass, hds, hns, hpve⟩
  · rintro ⟨hid, ⟨hhost, hport, hssl, htok, huser⟩, hsecret, hpass, hds, hns, hpve⟩
    rw [hid, hds, hns]
    exact ⟨rfl, rfl, rfl, hhost, hport, hssl, htok, hsecret, huser, hpass, rfl, rfl, hpve⟩

private theorem mem_usable {l : List MountEntry} :
    m ∈ l.filter (fun m => m.Usable) ↔ m ∈ l ∧ m.Usable := by
  rw [List.mem_filter, decide_eq_true_iff]

private theorem mem_shown {l : List MountEntry} :
    m ∈ l.filter (fun m => (mountView m).Usable) ↔ m ∈ l ∧ (mountView m).Usable := by
  rw [List.mem_filter, decide_eq_true_iff]

/-- The mounts that are used are some of those that are saved. -/
private theorem usable_sublist (l : List MountEntry) :
    (l.filter fun m => m.Usable).Sublist (l.filter fun m => (mountView m).Usable) :=
  List.monotone_filter_right l fun _ h =>
    decide_eq_true (shown_of_usable (of_decide_eq_true h))

/-- **No source of a server gets lost.** -/
private theorem length_sources_resaved (abc : Letters) (existing : List ServerEntry)
    (index place : ℕ) (used : List String) (s : ServerEntry) :
    (sourcesFromServer s index).length ≤
      (sourcesFromServer (resaved abc existing place used s) place).length := by
  rw [sources_resaved, sourcesFromServer, List.length_map, List.length_map]
  exact (usable_sublist s.mounts).length_le

/-- **The sources of a server stay** if it does, and it gets no other ones. -/
private theorem sources_resaved_eq_iff (hs : s.Sendable) :
    sourcesFromServer (resaved abc existing place used s) place = sourcesFromServer s index ↔
      s.NoneNew ∧ (s.Mounted → s.Stays abc existing index place used) := by
  rw [sources_resaved, sourcesFromServer]
  constructor
  · intro hsame
    have hlength := congrArg List.length hsame
    rw [List.length_map, List.length_map] at hlength
    have hfilter := (usable_sublist s.mounts).eq_of_length hlength.symm
    have hnew : s.NoneNew := fun m hm hshown =>
      (mem_usable.mp (hfilter ▸ mem_shown.mpr ⟨hm, hshown⟩)).2
    rw [← hfilter, List.map_inj_left] at hsame
    have hfields := fun m hm husable =>
      (source_resaved_eq_iff hs s m).mp (hsame m (mem_usable.mpr ⟨hm, husable⟩))
    refine ⟨hnew, ?_⟩
    rintro ⟨m, hm, husable⟩
    obtain ⟨hid, -, hsecret, hpassword, -⟩ := hfields m hm husable
    obtain ⟨hslug, hfree⟩ := (uniqueId_eq_effectiveId rfl).mp hid
    refine ⟨hslug, hfree, hsecret, hpassword, fun m' hm' husable' => ?_⟩
    exact (hfields m' hm' husable').2.2.2.2.2.1
  · rintro ⟨hnew, hstays⟩
    have hfilter : (s.mounts.filter fun m => (mountView m).Usable) =
        s.mounts.filter fun m => m.Usable := by
      refine List.filter_congr fun m hm => ?_
      exact decide_eq_decide.mpr ⟨hnew m hm, shown_of_usable⟩
    rw [hfilter, List.map_inj_left]
    intro m hm
    obtain ⟨hm, husable⟩ := mem_usable.mp hm
    have hstay := hstays ⟨m, hm, husable⟩
    obtain ⟨hds, hpve⟩ := asText_of_usable husable
    exact (source_resaved_eq_iff hs s m).mpr
      ⟨(uniqueId_eq_effectiveId rfl).mpr ⟨hstay.slug, hstay.free⟩, ⟨rfl, rfl, rfl, rfl, rfl⟩,
        hstay.secret, hstay.password, hds, hstay.namespaces m hm husable, hpve⟩

/-! ### All servers -/

/-- The sources of the items of the list, whose indices begin with the given one. -/
private def sourcesFrom : ℕ → List (Option ServerEntry) → List Source
  | _, [] => []
  | index, none :: rest => sourcesFrom (index + 1) rest
  | index, some s :: rest => sourcesFromServer s index ++ sourcesFrom (index + 1) rest

private theorem serverSources_eq (entries : List (Option ServerEntry)) :
    serverSources entries = sourcesFrom 0 entries := by
  have hgeneral : ∀ index, (entries.mapIdx fun i entry => entry.elim [] fun s =>
      sourcesFromServer s (index + i)).flatten = sourcesFrom index entries := by
    induction entries with
    | nil => exact fun _ => rfl
    | cons entry rest ih =>
      intro index
      have hnext : (fun (i : ℕ) (entry : Option ServerEntry) => entry.elim [] fun s =>
          sourcesFromServer s (index + (i + 1))) =
          fun i entry => entry.elim [] fun s => sourcesFromServer s (index + 1 + i) := by
        funext i entry
        rw [Nat.add_right_comm, Nat.add_assoc]
      rw [List.mapIdx_cons, List.flatten_cons, hnext, ih (index + 1), Nat.add_zero]
      cases entry with
      | none => rfl
      | some s => rfl
  have hzero := hgeneral 0
  simp only [Nat.zero_add] at hzero
  exact hzero

/-- What is saved for servers that are sent back. -/
private def savedFrom (abc : Letters) (existing : List ServerEntry) (place : ℕ)
    (used : List String) (servers : List ServerEntry) : List (Option ServerEntry) :=
  (persistFrom abc existing place used (servers.map ServerEntry.sent)).map some

private theorem savedFrom_cons (abc : Letters) (existing : List ServerEntry) (place : ℕ)
    (used : List String) (s : ServerEntry) (rest : List ServerEntry) :
    savedFrom abc existing place used (s :: rest) =
      some (resaved abc existing place used s) :: savedFrom abc existing (place + 1)
        (uniqueId (serverSlug abc s.sent place) used :: used) rest :=
  rfl

private theorem reduceOption_some (s : ServerEntry) (rest : List (Option ServerEntry)) :
    (some s :: rest).reduceOption = s :: rest.reduceOption := rfl

private theorem reduceOption_none (rest : List (Option ServerEntry)) :
    (none :: rest : List (Option ServerEntry)).reduceOption = rest.reduceOption := rfl

/-- **No source gets lost.** -/
private theorem length_sourcesFrom (abc : Letters) (existing : List ServerEntry)
    (index place : ℕ) (used : List String) (entries : List (Option ServerEntry)) :
    (sourcesFrom index entries).length ≤
      (sourcesFrom place (savedFrom abc existing place used entries.reduceOption)).length := by
  induction entries generalizing index place used with
  | nil => exact Nat.le_refl _
  | cons entry rest ih =>
    cases entry with
    | none =>
      rw [reduceOption_none, sourcesFrom]
      exact ih _ _ _
    | some s =>
      rw [reduceOption_some, savedFrom_cons, sourcesFrom, sourcesFrom, List.length_append,
        List.length_append]
      exact Nat.add_le_add (length_sources_resaved abc existing index place used s) (ih _ _ _)

/-- **The sources stay** if all servers do. -/
private theorem sourcesFrom_eq_iff (hall : ∀ s ∈ entries.reduceOption, s.Sendable) :
    sourcesFrom place (savedFrom abc existing place used entries.reduceOption) =
      sourcesFrom index entries ↔ AllStay abc existing index place used entries := by
  induction entries generalizing index place used with
  | nil => exact ⟨fun _ => trivial, fun _ => rfl⟩
  | cons entry rest ih =>
    cases entry with
    | none =>
      rw [reduceOption_none] at hall ⊢
      exact ih hall
    | some s =>
      rw [reduceOption_some, List.forall_mem_cons] at hall
      rw [reduceOption_some, savedFrom_cons, sourcesFrom, sourcesFrom, AllStay,
        ← sources_resaved_eq_iff hall.1, ← ih hall.2]
      constructor
      · intro hsame
        -- no part gets shorter, so neither may get longer
        have hlength := congrArg List.length hsame
        rw [List.length_append, List.length_append] at hlength
        have hfirst := length_sources_resaved abc existing index place used s
        have hrest := length_sourcesFrom abc existing (index + 1) (place + 1)
          (uniqueId (serverSlug abc s.sent place) used :: used) rest
        exact List.append_inj hsame (by omega)
      · rintro ⟨hfirst, hrest⟩
        rw [hfirst, hrest]

/-- **No secret comes from another server** if no servers with one id are mixed up. -/
private theorem forall₂_noOther_iff {shown : List ServerEntry} {tokens passwords} :
    List.Forall₂ (fun old new => NoOther tokens old.apiTokenSecret new.apiTokenSecret ∧
      NoOther passwords old.password new.password) shown
        (savedFrom abc existing place used shown).reduceOption ↔
      ∀ s ∈ shown, NoOther tokens s.apiTokenSecret
          (.text (secretById existing s.id.asText (·.apiTokenSecret))) ∧
        NoOther passwords s.password (.text (secretById existing s.id.asText (·.password))) := by
  induction shown generalizing place used with
  | nil => exact ⟨fun _ => List.forall_mem_nil _, fun _ => List.Forall₂.nil⟩
  | cons s rest ih =>
    rw [savedFrom_cons, reduceOption_some, List.forall₂_cons, ih, List.forall_mem_cons,
      resaved_secret, resaved_password]

private theorem sourcesFromServer_eq_nil_iff : sourcesFromServer s index = [] ↔ ¬ s.Mounted := by
  rw [sourcesFromServer, List.map_eq_nil_iff, List.filter_eq_nil_iff, ServerEntry.Mounted]
  simp

private theorem sourcesFrom_eq_nil_iff :
    sourcesFrom index entries = [] ↔ ∀ s ∈ entries.reduceOption, ¬ s.Mounted := by
  induction entries generalizing index with
  | nil => exact ⟨fun _ => List.forall_mem_nil _, fun _ => rfl⟩
  | cons entry rest ih =>
    cases entry with
    | none =>
      rw [reduceOption_none, sourcesFrom]
      exact ih
    | some s =>
      rw [reduceOption_some, sourcesFrom, List.append_eq_nil_iff, sourcesFromServer_eq_nil_iff, ih,
        List.forall_mem_cons]

/-- No server has a mount that is saved. -/
private theorem savedFrom_eq_nil_iff {servers : List ServerEntry} :
    sourcesFrom place (savedFrom abc existing place used servers) = [] ↔
      ∀ s ∈ servers, ∀ m ∈ s.mounts, ¬ (mountView m).Usable := by
  induction servers generalizing place used with
  | nil => exact ⟨fun _ => List.forall_mem_nil _, fun _ => rfl⟩
  | cons s rest ih =>
    rw [savedFrom_cons, sourcesFrom, List.append_eq_nil_iff, ih, List.forall_mem_cons,
      sources_resaved, List.map_eq_nil_iff, List.filter_eq_nil_iff]
    simp only [decide_eq_true_iff]

/-! ### The old format -/

/-- The sources that are loaded after the servers are saved: nothing is left of the old format. -/
private theorem loadSources_saved (abc : Letters) (cfg : SourceConfig)
    (servers : List ServerEntry) :
    loadSources (putPbsServers abc cfg (servers.map ServerEntry.sent)) =
      sourcesFrom 0 (savedFrom abc cfg.servers 0 [] servers) := by
  have hblank : ConfigValue.stripped none = "" := by decide
  have hlegacy : legacySources (putPbsServers abc cfg (servers.map ServerEntry.sent)) = [] :=
    if_pos ⟨hblank, hblank⟩
  rw [loadSources, hlegacy, serverSources_eq]
  split_ifs with hnil
  · exact hnil.symm
  · rfl

private theorem sourcesFromServer_single (h : s.mounts = [m]) :
    sourcesFromServer s index = if m.Usable then [s.source index m] else [] := by
  rw [sourcesFromServer, h]
  by_cases husable : m.Usable
  · simp only [List.filter, husable, decide_true, if_true, List.map]
  · simp only [List.filter, husable, decide_false, if_false, List.map]

/-- The server that is shown for a block in the old format. -/
private def oldServer (cfg : SourceConfig) : ServerEntry := cfg.pbs.shown cfg.pbsStorage.orBlank

/-- The mount of a block in the old format. -/
private def oldMount (cfg : SourceConfig) : MountEntry :=
  { datastore := cfg.pbs.datastore, ns := .text "", pveStorage := .text cfg.pbsStorage.orBlank }

private theorem usable_oldMount :
    (oldMount cfg).Usable ↔ cfg.pbs.Mounted cfg.pbsStorage := by
  rw [MountEntry.Usable, oldMount, ConfigValue.stripped_text]
  exact Iff.rfl

private theorem sources_oldServer (cfg : SourceConfig) :
    sourcesFromServer (oldServer cfg) 0 =
      if cfg.pbs.Mounted cfg.pbsStorage then [(oldServer cfg).source 0 (oldMount cfg)] else [] := by
  have hmounts : (oldServer cfg).mounts = [oldMount cfg] := rfl
  rw [sourcesFromServer_single hmounts]
  simp only [usable_oldMount]

private theorem effectiveId_old (h : s.id = .text "pbs") : s.effectiveId index = "pbs" := by
  have hstrip : Text.strip "pbs" = "pbs" := by decide
  have hne : "pbs" ≠ "" := by decide
  rw [ServerEntry.effectiveId, h, ConfigValue.orBlank_text, if_neg hne]
  simp only [hstrip, if_neg hne]

/-- The source of a block in the old format is the one of the server that is shown. -/
private theorem legacySources_eq (cfg : SourceConfig) :
    legacySources cfg = sourcesFromServer (oldServer cfg) 0 := by
  set m : MountEntry := { datastore := .text cfg.pbs.datastore.stripped, ns := .text "",
                          pveStorage := .text cfg.pbsStorage.stripped } with hm
  have hstripped : ∀ v : ConfigValue, (ConfigValue.text v.stripped).stripped = v.stripped := by
    intro v
    rw [ConfigValue.stripped_text, ConfigValue.stripped, Text.strip_strip]
  have husable : m.Usable ↔ cfg.pbs.Mounted cfg.pbsStorage := by
    rw [MountEntry.Usable, hm, hstripped, hstripped]
    exact Iff.rfl
  have hmounts : (cfg.pbs.server cfg.pbsStorage.stripped).mounts = [m] := rfl
  have hsource : (cfg.pbs.server cfg.pbsStorage.stripped).source 0 m =
      (oldServer cfg).source 0 (oldMount cfg) := by
    have hserver : (cfg.pbs.server cfg.pbsStorage.stripped).effectiveId 0 = "pbs" :=
      effectiveId_old rfl
    have hshown : (oldServer cfg).effectiveId 0 = "pbs" := effectiveId_old rfl
    rw [ServerEntry.source, ServerEntry.source, hserver, hshown, hm]
    simp only [PbsEntry.server, oldServer, PbsEntry.shown, oldMount, hstripped, portOr_portOr,
      ConfigValue.stripped_text]
    rfl
  rw [sources_oldServer, legacySources, sourcesFromServer_single hmounts, hsource]
  by_cases hblank : cfg.pbs.host.stripped = "" ∧ cfg.pbs.datastore.stripped = ""
  · rw [if_pos hblank, if_neg fun hmounted => hmounted.1 hblank.2]
  · rw [if_neg hblank]
    simp only [husable]

/-- **A block in the old format** stays as it is without its secrets. -/
private theorem stays_oldServer_iff : (oldServer cfg).Stays abc [] 0 0 [] ↔
    cfg.pbs.apiTokenSecret.stripped = "" ∧ cfg.pbs.password.stripped = "" := by
  have hempty : Text.strip "" = "" := by decide
  have hpbs : Sluggy abc "pbs" := sluggy_of_ascii abc (by decide) (by decide)
  have hslug : serverSlug abc (oldServer cfg).sent 0 = "pbs" :=
    slugify_of_sluggy hpbs (automaticId 0)
  have hid : (oldServer cfg).effectiveId 0 = "pbs" := effectiveId_old rfl
  constructor
  · intro hstays
    exact ⟨hstays.secret.symm.trans hempty, hstays.password.symm.trans hempty⟩
  · rintro ⟨hsecret, hpassword⟩
    refine ⟨hslug.trans hid.symm, List.not_mem_nil, hempty.trans hsecret.symm,
      hempty.trans hpassword.symm, fun m hm _ => ?_⟩
    have hroot : normNs (normNs (ConfigValue.text "").orBlank) =
        normNs (ConfigValue.text "").orBlank := by decide
    have hold : m = oldMount cfg := List.mem_singleton.mp hm
    rw [hold]
    exact hroot

/-- A value that is false reads as the empty text. -/
private theorem orBlank_of_not_truthy {v : ConfigValue} (h : ¬ v.truthy) : v.orBlank = "" := by
  cases v with
  | none => rfl
  | some x =>
    have hfalse : ¬ x.truthy := h
    rw [ConfigValue.orBlank, ConfigValue.orEmpty, Option.filter_some, if_neg hfalse]
    rfl

/-- A value that is true reads the same in both ways. -/
private theorem asText_of_truthy {v : ConfigValue} (h : v.truthy) : v.asText = v.orBlank := by
  cases v with
  | none => rfl
  | some x =>
    have htrue : x.truthy := h
    rw [ConfigValue.orBlank, ConfigValue.orEmpty, Option.filter_some, if_pos htrue]
    rfl

/-- When a block in the old format gets no new source. -/
private theorem noneNew_oldServer_iff
    (hshown : cfg.pbs.host.truthy ∨ cfg.pbs.datastore.truthy) : (oldServer cfg).NoneNew ↔
      (cfg.pbs.host.truthy → cfg.pbsStorage.stripped ≠ "" →
        Text.strip cfg.pbs.datastore.asText ≠ "" → cfg.pbs.datastore.stripped ≠ "") := by
  have hone : (oldServer cfg).NoneNew ↔ (Text.strip cfg.pbs.datastore.asText ≠ "" ∧
      cfg.pbsStorage.stripped ≠ "" → cfg.pbs.Mounted cfg.pbsStorage) := by
    rw [← usable_oldMount]
    exact List.forall_mem_singleton
  rw [hone]
  constructor
  · intro h _ hstorage hds
    exact (h ⟨hds, hstorage⟩).1
  · rintro h ⟨hds, hstorage⟩
    refine ⟨?_, hstorage⟩
    rcases hshown with hhost | hdatastore
    · exact h hhost hstorage hds
    · rwa [asText_of_truthy hdatastore] at hds

private theorem kept_legacy_iff (abc : Letters) (hempty : cfg.pbsServers = [])
    (hall : ∀ s ∈ shownServers cfg, s.Sendable) :
    loadSources (putPbsServers abc cfg ((shownServers cfg).map ServerEntry.sent)) =
        loadSources cfg ↔
      (cfg.pbs.Mounted cfg.pbsStorage →
        cfg.pbs.apiTokenSecret.stripped = "" ∧ cfg.pbs.password.stripped = "") ∧
      (cfg.pbs.host.truthy → cfg.pbsStorage.stripped ≠ "" →
        Text.strip cfg.pbs.datastore.asText ≠ "" → cfg.pbs.datastore.stripped ≠ "") := by
  have hbefore : loadSources cfg = sourcesFrom 0 [some (oldServer cfg)] := by
    rw [loadSources, hempty, sourcesFrom, sourcesFrom, List.append_nil, ← legacySources_eq]
    exact if_pos rfl
  have hnoServers : cfg.servers = [] := by
    rw [SourceConfig.servers, hempty]
    rfl
  have hmounted : (oldServer cfg).Mounted ↔ cfg.pbs.Mounted cfg.pbsStorage := by
    have hmounts : (oldServer cfg).mounts = [oldMount cfg] := rfl
    rw [← usable_oldMount, ServerEntry.Mounted, hmounts]
    simp only [List.mem_singleton, exists_eq_left]
  rw [loadSources_saved, hbefore, hnoServers]
  by_cases hshown : cfg.pbs.host.truthy ∨ cfg.pbs.datastore.truthy
  · -- the block is shown as a server, and saved as one
    have hone : shownServers cfg = [some (oldServer cfg)].reduceOption := by
      rw [shownServers, if_neg (not_not.mpr hempty), if_pos hshown]
      rfl
    rw [hone] at hall ⊢
    rw [sourcesFrom_eq_iff hall, AllStay, AllStay, noneNew_oldServer_iff hshown, hmounted,
      stays_oldServer_iff, and_true, and_comm]
  · -- nothing is shown, so nothing is saved; nor did the block give a source
    have hnone : shownServers cfg = [] := by
      rw [shownServers, if_neg (not_not.mpr hempty), if_neg hshown]
    obtain ⟨hhost, hdatastore⟩ := not_or.mp hshown
    have hnot : ¬ cfg.pbs.Mounted cfg.pbsStorage := by
      intro h
      refine h.1 ?_
      rw [ConfigValue.stripped, orBlank_of_not_truthy hdatastore]
      decide
    rw [hnone, sourcesFrom, sourcesFrom, List.append_nil, sources_oldServer, if_neg hnot]
    exact ⟨fun _ => ⟨fun h => absurd h hnot, fun h => absurd h hhost⟩, fun _ => rfl⟩

/-! ### A block in the old format beside servers -/

private theorem source_resaved_old_iff (hs : s.Sendable) :
    (resaved abc cfg.servers place used s).source place (savedMount (mountView m)) =
        (oldServer cfg).source 0 (oldMount cfg) ↔ s.Replaces abc cfg place used m := by
  have hid : (oldServer cfg).effectiveId 0 = "pbs" := effectiveId_old rfl
  have hplain : '-' ∉ "pbs".toList := by decide
  have hstorage : (oldMount cfg).pveStorage.stripped = cfg.pbsStorage.stripped :=
    ConfigValue.stripped_text _
  have hroot : normNs (oldMount cfg).ns.orBlank = "" := by
    have hns : (oldMount cfg).ns.orBlank = "" := ConfigValue.orBlank_text ""
    rw [hns]
    decide
  rw [source_resaved_eq_iff hs, hid, uniqueId_eq_iff hplain, hroot, hstorage]
  constructor
  · rintro ⟨⟨hslug, hfree⟩, ⟨hhost, hport, hssl, htok, huser⟩, hsecret, hpass, hds, hns, hpve⟩
    exact ⟨hslug, hfree, hhost, hport, hssl, htok, hsecret, huser, hpass, hds, hns, hpve⟩
  · rintro ⟨hslug, hfree, hhost, hport, hssl, htok, hsecret, huser, hpass, hds, hns, hpve⟩
    exact ⟨⟨hslug, hfree⟩, ⟨hhost, hport, hssl, htok, huser⟩, hsecret, hpass, hds, hns, hpve⟩

/-- What is saved for the servers is **the source of the block in the old format** if just one mount
is saved, and replaces it. -/
private theorem oneReplaces_iff {servers : List ServerEntry} (hall : ∀ s ∈ servers, s.Sendable) :
    sourcesFrom place (savedFrom abc cfg.servers place used servers) =
        [(oldServer cfg).source 0 (oldMount cfg)] ↔ OneReplaces abc cfg place used servers := by
  induction servers generalizing place used with
  | nil => exact ⟨fun h => absurd h (List.cons_ne_nil _ _).symm, False.elim⟩
  | cons s rest ih =>
    obtain ⟨hs, hrest⟩ := List.forall_mem_cons.mp hall
    have hnone : sourcesFromServer (resaved abc cfg.servers place used s) place = [] ↔
        ∀ m ∈ s.mounts, ¬ (mountView m).Usable := by
      rw [sources_resaved, List.map_eq_nil_iff, List.filter_eq_nil_iff]
      simp only [decide_eq_true_iff]
    have hone : sourcesFromServer (resaved abc cfg.servers place used s) place =
        [(oldServer cfg).source 0 (oldMount cfg)] ↔
          ∃ m, s.mounts.filter (fun m => (mountView m).Usable) = [m] ∧
            s.Replaces abc cfg place used m := by
      rw [sources_resaved, List.map_eq_singleton_iff]
      simp only [source_resaved_old_iff hs]
    rw [savedFrom_cons, sourcesFrom, List.append_eq_singleton_iff, hnone, ih hrest, hone,
      savedFrom_eq_nil_iff, OneReplaces]

private theorem kept_servers_iff (abc : Letters) (hall : ∀ s ∈ cfg.servers, s.Sendable) :
    loadSources (putPbsServers abc cfg (cfg.servers.map ServerEntry.sent)) = loadSources cfg ↔
      AllStay abc cfg.servers 0 0 [] cfg.pbsServers ∧
          ((∃ s ∈ cfg.servers, s.Mounted) ∨ ¬ cfg.pbs.Mounted cfg.pbsStorage) ∨
        (∀ s ∈ cfg.servers, ¬ s.Mounted) ∧ cfg.pbs.Mounted cfg.pbsStorage ∧
          OneReplaces abc cfg 0 [] cfg.servers := by
  have hstay : sourcesFrom 0 (savedFrom abc cfg.servers 0 [] cfg.servers) =
      sourcesFrom 0 cfg.pbsServers ↔ AllStay abc cfg.servers 0 0 [] cfg.pbsServers :=
    sourcesFrom_eq_iff hall
  have hnil : sourcesFrom 0 cfg.pbsServers = [] ↔ ∀ s ∈ cfg.servers, ¬ s.Mounted :=
    sourcesFrom_eq_nil_iff
  rw [loadSources_saved, loadSources, serverSources_eq]
  by_cases hmounted : ∀ s ∈ cfg.servers, ¬ s.Mounted
  · -- the block in the old format has been in use, if it gives a source
    have hnone : ¬ ∃ s ∈ cfg.servers, s.Mounted := by
      rintro ⟨s, hs, h⟩
      exact hmounted s hs h
    rw [if_pos (hnil.mpr hmounted), legacySources_eq, sources_oldServer]
    by_cases hold : cfg.pbs.Mounted cfg.pbsStorage
    · rw [if_pos hold, oneReplaces_iff hall]
      constructor
      · exact fun h => .inr ⟨hmounted, hold, h⟩
      · rintro (⟨-, hsome | hnot⟩ | ⟨-, -, h⟩)
        · exact absurd hsome hnone
        · exact absurd hold hnot
        · exact h
    · rw [if_neg hold, ← hnil.mpr hmounted, hstay]
      constructor
      · exact fun h => .inl ⟨h, .inr hold⟩
      · rintro (⟨h, -⟩ | ⟨-, h, -⟩)
        · exact h
        · exact absurd h hold
  · -- the servers have been in use, and the block counts for nothing
    have hsome : ∃ s ∈ cfg.servers, s.Mounted := by
      by_contra hnone
      exact hmounted fun s hs h => hnone ⟨s, hs, h⟩
    rw [if_neg fun h => hmounted (hnil.mp h), hstay]
    constructor
    · exact fun h => .inl ⟨h, .inl hsome⟩
    · rintro (⟨h, -⟩ | ⟨h, -⟩)
      · exact h
      · exact absurd h hmounted

/-! ### Saving -/

/-- **Saving the servers unchanged preserves the sources** exactly for the configurations that can
be saved unchanged. -/
theorem saveUnchanged_iff (abc : Letters) (cfg : SourceConfig) :
    cfg.Preserved abc ↔ cfg.Resavable abc := by
  have hread : cfg.Preserved abc ↔ ((∀ s ∈ shownServers cfg, s.Sendable) →
      cfg.KeptBy (putPbsServers abc cfg ((shownServers cfg).map ServerEntry.sent))) := by
    constructor
    · exact fun h hall => h _ (saveUnchanged_ok_iff.mpr ⟨hall, rfl⟩)
    · intro h saved hsaved
      obtain ⟨hall, rfl⟩ := saveUnchanged_ok_iff.mp hsaved
      exact h hall
  rw [hread, SourceConfig.Resavable]
  refine forall_congr' fun hall => ?_
  have hsaved : (putPbsServers abc cfg ((shownServers cfg).map ServerEntry.sent)).servers =
      (savedFrom abc cfg.servers 0 [] (shownServers cfg)).reduceOption := rfl
  split_ifs with hempty
  · have hnoServers : cfg.servers = [] := by
      rw [SourceConfig.servers, hempty]
      rfl
    have hkept := kept_legacy_iff abc hempty hall
    refine ⟨fun h => hkept.mp h.sources, fun h => ⟨hkept.mpr h, ?_⟩⟩
    have hblank : (ConfigValue.text "").stripped = "" := ConfigValue.stripped_text ""
    rw [hsaved, hnoServers]
    -- there is no server that a secret could come from
    exact forall₂_noOther_iff.mpr fun s _ => ⟨.inl hblank, .inl hblank⟩
  · have hshown : shownServers cfg = cfg.servers := if_pos hempty
    rw [hshown] at hall hsaved ⊢
    have hkept := kept_servers_iff abc hall
    constructor
    · rintro ⟨hsources, hsecrets⟩
      rw [hshown, hsaved] at hsecrets
      exact ⟨forall₂_noOther_iff.mp hsecrets, hkept.mp hsources⟩
    · rintro ⟨hunmixed, hsources⟩
      refine ⟨hkept.mpr hsources, ?_⟩
      rw [hshown, hsaved]
      exact forall₂_noOther_iff.mpr hunmixed

/-! ### Configurations that change -/

private theorem isSpace_of_isAlphanum {c : Char} (h : c.isAlphanum = true) :
    Text.isSpace c = false := by
  have hrange := Text.isAlphanum_iff.mp h
  simp [Text.isSpace]
  omega

/-- The letters of ASCII. -/
def Letters.ascii : Letters where
  lower s := s.map Char.toLower
  isAlnum := Char.isAlphanum
  lower_ascii _ _ := rfl
  isAlnum_ascii _ _ := rfl
  lower_eq_self s h := by
    have hself : ∀ c ∈ s, c.toLower = c := fun c hc => (List.cons.inj (h c hc)).1
    rw [List.map_congr_left hself, List.map_id'']
    exact fun _ => rfl
  lower_lower s c hc := by
    obtain ⟨d, -, rfl⟩ := List.mem_map.mp hc
    rw [List.map_singleton, Text.toLower_toLower]
  isSpace_of_isAlnum _ := isSpace_of_isAlphanum

/-- A server in the old format, with a secret. -/
private def oldSecret : SourceConfig where
  pbs := { host := .text "10.0.0.10", apiTokenId := .text "root@pam!restore",
           apiTokenSecret := .text "legacy", datastore := .text "main" }
  pbsStorage := .text "pbs-main"

/-- Two servers that have one id. -/
private def sameIds : SourceConfig where
  pbsServers :=
    [some { id := .text "main", host := .text "10.0.0.10", apiTokenSecret := .text "first",
            mounts := [{ datastore := .text "main", pveStorage := .text "pbs-main" }] },
     some { id := .text "main", host := .text "10.0.0.30", apiTokenSecret := .text "second",
            mounts := [{ datastore := .text "backup", pveStorage := .text "pbs-dr" }] }]

/-- A server whose password is left blank. -/
private def blankPassword : SourceConfig where
  pbsServers :=
    [some { id := .text "main", host := .text "10.0.0.10", apiTokenId := .text "root@pam!restore",
            apiTokenSecret := .text "token", user := .text "", password := some .null,
            mounts := [{ datastore := .text "main", pveStorage := .text "pbs-main" }] }]

/-- What is loaded after the configuration has been saved unchanged. -/
private def resavedSources (cfg : SourceConfig) : List Source :=
  (saveUnchanged .ascii cfg).toOption.elim [] loadSources

/-- A configuration whose sources change is not preserved. -/
private theorem not_preserved (h : (saveUnchanged .ascii cfg).toOption.isSome)
    (hne : resavedSources cfg ≠ loadSources cfg) : ¬ cfg.Preserved .ascii := by
  intro hpreserved
  rw [resavedSources] at hne
  cases hsaved : saveUnchanged .ascii cfg with
  | error e => simp [hsaved, Except.toOption] at h
  | ok saved =>
    rw [hsaved] at hne
    exact hne (hpreserved saved hsaved).sources

/-- **A server in the old format loses its secret**; of two servers with one id the first gets the
secret of the second; and a password that is left blank becomes the text `None`. -/
theorem saving_changes_secrets :
    ¬ oldSecret.Preserved .ascii ∧
      (loadSources oldSecret).map (·.apiTokenSecret) = ["legacy"] ∧
      (resavedSources oldSecret).map (·.apiTokenSecret) = [""] ∧
      ¬ sameIds.Preserved .ascii ∧
      (resavedSources sameIds).map (fun src => (src.host, src.apiTokenSecret)) =
        [("10.0.0.10", "second"), ("10.0.0.30", "second")] ∧
      ¬ blankPassword.Preserved .ascii ∧
      (loadSources blankPassword).map (·.password) = [""] ∧
      (resavedSources blankPassword).map (·.password) = ["None"] := by
  refine ⟨not_preserved ?_ ?_, ?_, ?_, not_preserved ?_ ?_, ?_, not_preserved ?_ ?_, ?_, ?_⟩ <;>
    decide

end RestoreEngine
