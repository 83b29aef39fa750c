import RestoreEngine.Model.Sessions
import RestoreEngine.Sources.Resave

/-!
# What the settings page tells of the secrets

The secrets of the servers, of the cluster and of the notifications can be set but not read. Two
configurations are **alike** if they differ only in secrets, and in these only so that the same ones
are set. Every sequence of requests gets the same replies from both (`replies_alike`): being alike
is an unwinding relation. And a secret that is stored in a dictionary is always the last one that a
request has sent for it, where blank and masked values send none, nor does a request whose save
raises (`stored_last_sent`).

The password of the page and the API tokens are no secrets in this sense: replies depend on them.
-/

namespace RestoreEngine

open Effects

variable {abc : Letters}

/-! ### Alike -/

/-- Two texts of which both are set or neither is. -/
def AlikeText (s t : String) : Prop := Text.strip s = "" ↔ Text.strip t = ""

instance (s t : String) : Decidable (AlikeText s t) := inferInstanceAs (Decidable (_ ↔ _))

/-- Two values of a secret: the same, or texts that are alike. -/
def AlikeValue (v v' : Option Json) : Prop :=
  v = v' ∨ ∃ s t, v = some (.str s) ∧ v' = some (.str t) ∧ AlikeText s t

/-- Two blocks that differ in secrets only. -/
def Dict.Alike (secrets : List String) (d d' : Dict) : Prop :=
  ∀ key, if key ∈ secrets then AlikeValue (d key) (d' key) else d key = d' key

/-- Two blocks, either of which may be missing or `null`, that differ in secrets only. -/
abbrev AlikeBlock (secrets : List String) : ConfigBlock Dict → ConfigBlock Dict → Prop :=
  Option.Rel (Option.Rel (Dict.Alike secrets))

/-- Two servers that differ in their secrets only. -/
def ServerEntry.Alike (s t : ServerEntry) : Prop :=
  AlikeValue s.apiTokenSecret t.apiTokenSecret ∧ AlikeValue s.password t.password ∧
    t = { s with apiTokenSecret := t.apiTokenSecret, password := t.password }

/-- Two blocks in the old format that differ in their secrets only. -/
def PbsEntry.Alike (p q : PbsEntry) : Prop :=
  AlikeValue p.apiTokenSecret q.apiTokenSecret ∧ AlikeValue p.password q.password ∧
    q = { p with apiTokenSecret := q.apiTokenSecret, password := q.password }

/-- Two blocks of notifications that differ in secrets only. -/
structure NotificationsEntry.Alike (n n' : NotificationsEntry) : Prop where
  email : AlikeBlock ["password"] n.email n'.email
  webhook : AlikeBlock ["secret"] n.webhook n'.webhook
  events : n.events = n'.events

/-- **Two configurations that differ in secrets only**, and have the same ones set. -/
structure Settings.Alike (cfg cfg' : Settings) : Prop where
  ui : cfg.ui = cfg'.ui
  pbsServers : List.Forall₂ (Option.Rel ServerEntry.Alike) cfg.sources.pbsServers
    cfg'.sources.pbsServers
  pbs : cfg.sources.pbs.Alike cfg'.sources.pbs
  pbsStorage : cfg.sources.pbsStorage = cfg'.sources.pbsStorage
  proxmox : AlikeBlock proxmoxSecrets cfg.proxmox cfg'.proxmox
  worker : cfg.worker = cfg'.worker
  notifications : Option.Rel (Option.Rel NotificationsEntry.Alike) cfg.notifications
    cfg'.notifications

/-! ### Values -/

namespace AlikeValue

variable {v v' : ConfigValue}

/-- The same secrets are set. -/
theorem isSet (h : AlikeValue v v') : v.isSet = v'.isSet := by
  have htext : ∀ s, (ConfigValue.text s).isSet = .ok (decide (Text.strip s ≠ "")) := by
    intro s
    by_cases hs : s = ""
    · subst hs
      rfl
    · have htruthy : (Json.str s).truthy = true := decide_eq_true hs
      rw [ConfigValue.isSet, ConfigValue.orEmpty, ConfigValue.text, Option.filter_some,
        if_pos htruthy]
      rfl
  rcases h with rfl | ⟨s, t, rfl, rfl, hst⟩
  · rfl
  · have hne : Text.strip s ≠ "" ↔ Text.strip t ≠ "" := not_congr hst
    have hs := htext s
    have ht := htext t
    simp only [hne] at hs
    exact hs.trans ht.symm

/-- The texts of values that are alike. -/
theorem asText (h : AlikeValue v v') : AlikeText v.asText v'.asText := by
  rcases h with rfl | ⟨s, t, rfl, rfl, hst⟩
  · exact Iff.rfl
  · exact hst

/-- Texts that are alike, as values. -/
theorem text {s t : String} (h : AlikeText s t) :
    AlikeValue (ConfigValue.text s) (ConfigValue.text t) :=
  .inr ⟨s, t, rfl, rfl, h⟩

end AlikeValue

/-! ### Blocks -/

namespace Dict.Alike

variable {secrets : List String} {d d' : Dict}

theorem eq_of_notMem (h : d.Alike secrets d') {key : String} (hkey : key ∉ secrets) :
    d key = d' key := by
  have := h key
  rwa [if_neg hkey] at this

theorem of_mem (h : d.Alike secrets d') {key : String} (hkey : key ∈ secrets) :
    AlikeValue (d key) (d' key) := by
  have := h key
  rwa [if_pos hkey] at this

theorem getD (h : d.Alike secrets d') {key : String} (hkey : key ∉ secrets) (v : Json) :
    d.getD key v = d'.getD key v := by
  rw [Dict.getD, Dict.getD, h.eq_of_notMem hkey]

theorem getOr (h : d.Alike secrets d') {key : String} (hkey : key ∉ secrets) (v : Json) :
    d.getOr key v = d'.getOr key v := by
  rw [Dict.getOr, Dict.getOr, h.eq_of_notMem hkey]

/-- The same secrets are set. -/
theorem isSet (h : d.Alike secrets d') {key : String} (hkey : key ∈ secrets) :
    d.isSet key = d'.isSet key :=
  (h.of_mem hkey).isSet

/-- To set an entry keeps blocks alike. -/
theorem set (h : d.Alike secrets d') (key : String) (v : Json) :
    (d.set key v).Alike secrets (d'.set key v) := by
  intro k
  rw [Dict.set, Dict.set]
  by_cases hk : k = key
  · simp only [if_pos hk]
    split_ifs
    exact .inl rfl
  · simp only [if_neg hk]
    exact h k

/-- Blocks are alike to themselves. -/
theorem refl (secrets : List String) (d : Dict) : d.Alike secrets d := by
  intro key
  split_ifs
  · exact .inl rfl
  · rfl

end Dict.Alike

namespace AlikeBlock

variable {secrets : List String} {block block' : ConfigBlock Dict}

/-- What is read of blocks that are alike. -/
theorem orEmpty (h : AlikeBlock secrets block block') :
    (block.orEmpty (Dict.ofFields [])).Alike secrets (block'.orEmpty (Dict.ofFields [])) := by
  cases h with
  | none => exact .refl _ _
  | some h =>
    cases h with
    | none => exact .refl _ _
    | some h => exact h

/-- What is changed of blocks that are alike. -/
theorem opened (h : AlikeBlock secrets block block') :
    Option.Rel (Dict.Alike secrets) (block.opened (Dict.ofFields []))
      (block'.opened (Dict.ofFields [])) := by
  cases h with
  | none => exact .some (.refl _ _)
  | some h => exact h

end AlikeBlock

variable {secrets : List String} {d d' : Dict} {target target' : Option Dict}

private theorem setItem_alike (h : Option.Rel (Dict.Alike secrets) target target') (key : String)
    (value : Json) :
    Agree (Option.Rel (Dict.Alike secrets)) (setItem target key value)
      (setItem target' key value) := by
  cases h with
  | none => exact .error _
  | some h => exact .ok (.some (h.set key value))

/-- A field of `_merge_partial`, as a step. -/
private theorem mergePartial_alike (h : Option.Rel (Dict.Alike secrets) target target')
    (secretFields : List String) (given : Fields) :
    Agree (Option.Rel (Dict.Alike secrets)) (mergePartial secretFields target given)
      (mergePartial secretFields target' given) := by
  refine Agree.foldlM h (fun t t' field ht => ?_) given
  simp only [mergeField]
  split_ifs
  · exact .ok ht
  · exact .ok ht
  · exact setItem_alike ht _ _

private theorem mergeEmail_alike (h : Option.Rel (Dict.Alike secrets) target target')
    (given : Fields) :
    Agree (Option.Rel (Dict.Alike secrets)) (mergeEmail target given)
      (mergeEmail target' given) := by
  refine Agree.foldlM h (fun t t' field ht => ?_) given
  simp only [mergeEmailField]
  split_ifs
  · exact .ok ht
  · exact setItem_alike ht _ _
  · exact .ok ht
  · exact setItem_alike ht _ _

/-- **Blocks stay alike** in which the same fields are merged. -/
private theorem putBlock_alike {merge : Option Dict → Fields → Except Exn (Option Dict)}
    (hmerge : ∀ {t t' : Option Dict}, Option.Rel (Dict.Alike secrets) t t' → ∀ fields,
      Agree (Option.Rel (Dict.Alike secrets)) (merge t fields) (merge t' fields))
    {block block' : ConfigBlock Dict} (h : AlikeBlock secrets block block')
    (given : Option Fields) :
    Agree (AlikeBlock secrets) (putBlock merge block given) (putBlock merge block' given) := by
  cases given with
  | none => exact .ok h
  | some fields => exact (hmerge h.opened fields).bind fun _ _ ht => .ok (.some ht)

/-- The cluster is shown alike. -/
private theorem maskProxmox_alike (h : d.Alike proxmoxSecrets d') :
    maskProxmox d = maskProxmox d' := by
  simp only [maskProxmox, h.isSet (by decide : "api_token_secret" ∈ proxmoxSecrets),
    h.isSet (by decide : "password" ∈ proxmoxSecrets),
    h.getD (by decide : "port" ∉ proxmoxSecrets),
    h.getOr (by decide : "restore_bwlimit" ∉ proxmoxSecrets),
    h.getD (by decide : "host" ∉ proxmoxSecrets),
    h.getD (by decide : "verify_ssl" ∉ proxmoxSecrets),
    h.getD (by decide : "default_node" ∉ proxmoxSecrets),
    h.getD (by decide : "api_token_id" ∉ proxmoxSecrets),
    h.getD (by decide : "storage" ∉ proxmoxSecrets),
    h.getD (by decide : "live_restore_default" ∉ proxmoxSecrets),
    h.getD (by decide : "user" ∉ proxmoxSecrets)]

/-- The notifications are shown alike. -/
private theorem viewNotifications_alike {n n' : NotificationsEntry} (hn : n.Alike n') :
    viewNotifications n = viewNotifications n' := by
  have h := hn.email.orEmpty
  have hw := hn.webhook.orEmpty
  have hto : shownRecipients (n.email.orEmpty (Dict.ofFields [])) =
      shownRecipients (n'.email.orEmpty (Dict.ofFields [])) := by
    rw [shownRecipients, shownRecipients, h.eq_of_notMem (by decide : "to" ∉ ["password"]),
      h.getOr (by decide : "to" ∉ ["password"])]
  simp only [viewNotifications, hto, hn.events, h.isSet (by decide : "password" ∈ ["password"]),
    hw.isSet (by decide : "secret" ∈ ["secret"]),
    h.getOr (by decide : "port" ∉ ["password"]), h.getD (by decide : "enabled" ∉ ["password"]),
    h.getOr (by decide : "host" ∉ ["password"]), h.getD (by decide : "tls" ∉ ["password"]),
    h.getD (by decide : "ssl" ∉ ["password"]), h.getOr (by decide : "username" ∉ ["password"]),
    h.getOr (by decide : "from" ∉ ["password"]), hw.getD (by decide : "enabled" ∉ ["secret"]),
    hw.getOr (by decide : "url" ∉ ["secret"])]

/-! ### Servers -/

/-- A server is shown alike. -/
private theorem maskPbsServer_alike {s t : ServerEntry} (h : s.Alike t) :
    maskPbsServer s = maskPbsServer t := by
  obtain ⟨htoken, hpassword, heq⟩ := h
  rw [maskPbsServer, maskPbsServer, htoken.isSet, hpassword.isSet, heq]

/-- The block in the old format makes servers that are alike. -/
private theorem PbsEntry.Alike.shown {p q : PbsEntry} (h : p.Alike q) (pveStorage : String) :
    (p.shown pveStorage).Alike (q.shown pveStorage) := by
  obtain ⟨htoken, hpassword, heq⟩ := h
  refine ⟨htoken, hpassword, ?_⟩
  rw [heq]
  rfl

/-- The servers of the configurations are alike. -/
private theorem servers_alike {cfg cfg' : SourceConfig}
    (h : List.Forall₂ (Option.Rel ServerEntry.Alike) cfg.pbsServers cfg'.pbsServers) :
    List.Forall₂ ServerEntry.Alike cfg.servers cfg'.servers := by
  rw [SourceConfig.servers, SourceConfig.servers]
  generalize cfg.pbsServers = entries, cfg'.pbsServers = entries' at h
  induction h with
  | nil => exact .nil
  | cons hentry _ ih =>
    cases hentry with
    | none => exact ih
    | some hs => exact .cons hs ih

/-- The servers that are shown are alike. -/
private theorem shownServers_alike {cfg cfg' : Settings} (h : cfg.Alike cfg') :
    List.Forall₂ ServerEntry.Alike (shownServers cfg.sources) (shownServers cfg'.sources) := by
  have hempty : cfg.sources.pbsServers ≠ [] ↔ cfg'.sources.pbsServers ≠ [] := by
    rw [← List.length_pos_iff, ← List.length_pos_iff, h.pbsServers.length_eq]
  have hhost : cfg'.sources.pbs.host = cfg.sources.pbs.host := by rw [h.pbs.2.2]
  have hdatastore : cfg'.sources.pbs.datastore = cfg.sources.pbs.datastore := by rw [h.pbs.2.2]
  rw [shownServers, shownServers, ← h.pbsStorage, hhost, hdatastore]
  by_cases hservers : cfg.sources.pbsServers ≠ []
  · rw [if_pos hservers, if_pos (hempty.mp hservers)]
    exact servers_alike h.pbsServers
  · rw [if_neg hservers, if_neg (hservers ∘ hempty.mpr)]
    split_ifs
    · exact .cons (h.pbs.shown _) .nil
    · exact .nil

/-- The servers are shown alike. -/
private theorem pbsServersView_alike {cfg cfg' : Settings} (h : cfg.Alike cfg') :
    pbsServersView cfg.sources = pbsServersView cfg'.sources := by
  have hshown := shownServers_alike h
  rw [pbsServersView, pbsServersView]
  generalize shownServers cfg.sources = shown, shownServers cfg'.sources = shown' at hshown
  induction hshown with
  | nil => rfl
  | cons hs _ ih => rw [List.mapM_cons, List.mapM_cons, maskPbsServer_alike hs, ih]

/-- The notifications that are read are alike. -/
private theorem notifications_alike {block block' : ConfigBlock NotificationsEntry}
    (h : Option.Rel (Option.Rel NotificationsEntry.Alike) block block') :
    Option.Rel NotificationsEntry.Alike (block.opened {}) (block'.opened {}) ∧
      (block.orEmpty {}).Alike (block'.orEmpty {}) := by
  have hempty : NotificationsEntry.Alike {} {} := ⟨.none, .none, rfl⟩
  cases h with
  | none => exact ⟨.some hempty, hempty⟩
  | some h =>
    refine ⟨h, ?_⟩
    cases h with
    | none => exact hempty
    | some h => exact h

/-- **What the settings page reads is alike.** -/
private theorem getCredentials_alike {cfg cfg' : Settings} (h : cfg.Alike cfg') :
    getCredentials cfg = getCredentials cfg' := by
  rw [getCredentials, getCredentials, maskProxmox_alike h.proxmox.orEmpty, h.worker,
    viewNotifications_alike (notifications_alike h.notifications).2, pbsServersView_alike h]

/-! ### Saving servers -/

/-- The last server with an id is alike. -/
private theorem lastById_alike {servers servers' : List ServerEntry}
    (h : List.Forall₂ ServerEntry.Alike servers servers') (id : String) :
    Option.Rel ServerEntry.Alike (lastById servers id) (lastById servers' id) := by
  have hreverse : List.Forall₂ ServerEntry.Alike servers.reverse servers'.reverse :=
    List.rel_reverse h
  rw [lastById, lastById]
  generalize servers.reverse = l, servers'.reverse = l' at hreverse
  induction hreverse with
  | nil => exact .none
  | @cons s t _ _ hs _ ih =>
    have hid : t.id = s.id := by rw [hs.2.2]
    rw [List.find?_cons, List.find?_cons, hid]
    split
    · exact .some hs
    · exact ih

/-- A secret that is saved is alike: the new one, or one of servers that are alike. -/
private theorem keepSecret_alike {servers servers' : List ServerEntry}
    (h : List.Forall₂ ServerEntry.Alike servers servers') (id value : String)
    (field : ServerEntry → ConfigValue)
    (hfield : ∀ {s t : ServerEntry}, s.Alike t → AlikeValue (field s) (field t)) :
    AlikeText (keepSecret servers id field value) (keepSecret servers' id field value) := by
  simp only [keepSecret]
  split_ifs
  · have hlast := lastById_alike h id
    generalize lastById servers id = found, lastById servers' id = found' at hlast
    cases hlast with
    | none => exact Iff.rfl
    | some hs => exact (hfield hs).asText
  · exact Iff.rfl

/-- A server that is saved is alike. -/
private theorem savedServer_alike {servers servers' : List ServerEntry}
    (h : List.Forall₂ ServerEntry.Alike servers servers') (id : String)
    (server : PBSServerModel) :
    (savedServer servers id server).Alike (savedServer servers' id server) := by
  have htoken := keepSecret_alike h server.id server.apiTokenSecret (·.apiTokenSecret)
    fun hs => hs.1
  have hpassword := keepSecret_alike h server.id server.password (·.password) fun hs => hs.2.1
  refine ⟨.text htoken, .text hpassword, ?_⟩
  simp only [savedServer]

/-- The servers that are saved are alike: no id depends on a secret. -/
private theorem persistFrom_alike {servers servers' : List ServerEntry}
    (h : List.Forall₂ ServerEntry.Alike servers servers') (incoming : List PBSServerModel)
    (index : ℕ) (used : List String) :
    List.Forall₂ ServerEntry.Alike (persistFrom abc servers index used incoming)
      (persistFrom abc servers' index used incoming) := by
  induction incoming generalizing index used with
  | nil => exact .nil
  | cons server rest ih => exact .cons (savedServer_alike h _ server) (ih _ _)

/-- The servers and the old format stay alike. -/
private theorem putPbsServers_alike {cfg cfg' : SourceConfig}
    (h : List.Forall₂ (Option.Rel ServerEntry.Alike) cfg.pbsServers cfg'.pbsServers)
    (incoming : List PBSServerModel) :
    List.Forall₂ (Option.Rel ServerEntry.Alike) (putPbsServers abc cfg incoming).pbsServers
        (putPbsServers abc cfg' incoming).pbsServers ∧
      (putPbsServers abc cfg incoming).pbs.Alike (putPbsServers abc cfg' incoming).pbs ∧
      (putPbsServers abc cfg incoming).pbsStorage = (putPbsServers abc cfg' incoming).pbsStorage := by
  refine ⟨?_, ⟨.inl rfl, .inl rfl, rfl⟩, rfl⟩
  simp only [putPbsServers, persistServers, List.forall₂_map_left_iff, List.forall₂_map_right_iff]
  exact (persistFrom_alike (servers_alike h) incoming 0 []).imp fun _ _ hs => .some hs

/-- The notifications stay alike. -/
private theorem putNotifications_alike {n n' : Option NotificationsEntry}
    (h : Option.Rel NotificationsEntry.Alike n n') (given : NotificationsPartial) :
    Agree (Option.Rel NotificationsEntry.Alike) (putNotifications n given)
      (putNotifications n' given) := by
  cases h with
  | none =>
    simp only [putNotifications]
    split_ifs
    · exact .error _
    · exact .ok .none
  | some h =>
    refine (putBlock_alike mergeEmail_alike h.email given.email).bind fun email email' hemail => ?_
    refine (putBlock_alike (fun ht => mergePartial_alike ht ["secret"]) h.webhook
      given.webhook).bind fun webhook webhook' hwebhook => ?_
    rw [h.events]
    refine (Agree.eq_iff.mpr rfl).bind fun events events' hevents => ?_
    exact .ok (.some ⟨hemail, hwebhook, hevents⟩)

/-- **Saving keeps configurations alike**, and raises the same exception. -/
private theorem Settings.Alike.putCredentials {cfg cfg' : Settings} (h : cfg.Alike cfg')
    (body : CredentialsPut) :
    Agree Settings.Alike (RestoreEngine.putCredentials abc cfg body)
      (RestoreEngine.putCredentials abc cfg' body) := by
  have hnotifications : Agree (Option.Rel (Option.Rel NotificationsEntry.Alike))
      (body.notifications.elim (.ok cfg.notifications) fun given =>
        (putNotifications (cfg.notifications.opened {}) given).map some)
      (body.notifications.elim (.ok cfg'.notifications) fun given =>
        (putNotifications (cfg'.notifications.opened {}) given).map some) := by
    cases body.notifications with
    | none => exact .ok h.notifications
    | some given =>
      exact (putNotifications_alike (notifications_alike h.notifications).1 given).bind
        fun _ _ hn => .ok (.some hn)
  refine (putBlock_alike (fun ht => mergePartial_alike ht proxmoxSecrets) h.proxmox
    body.proxmox).bind fun proxmox proxmox' hproxmox => ?_
  rw [h.worker]
  refine (Agree.eq_iff.mpr rfl).bind fun worker worker' hworker => ?_
  refine hnotifications.bind fun notifications notifications' hn => .ok ?_
  cases hservers : body.pbsServers with
  | none => exact ⟨h.ui, h.pbsServers, h.pbs, h.pbsStorage, hproxmox, hworker, hn⟩
  | some incoming =>
    obtain ⟨hpbsServers, hpbs, hstorage⟩ := putPbsServers_alike h.pbsServers incoming
    exact ⟨h.ui, hpbsServers, hpbs, hstorage, hproxmox, hworker, hn⟩

/-! ### Requests -/

variable {Client : Type}

/-- Two states that differ in secrets only. -/
private structure UiState.Alike (st st' : UiState Client) : Prop where
  settings : st.settings.Alike st'.settings
  cookies : st.cookies = st'.cookies

/-- **A handler does alike**: its reply and the session are the same. -/
private theorem handle_alike (abc : Letters) {cfg cfg' : Settings} (h : cfg.Alike cfg')
    (session : Session) (endpoint : Endpoint) :
    (handle abc cfg session endpoint).body = (handle abc cfg' session endpoint).body ∧
      (handle abc cfg session endpoint).session = (handle abc cfg' session endpoint).session ∧
      (handle abc cfg session endpoint).settings.Alike
        (handle abc cfg' session endpoint).settings := by
  cases endpoint with
  | authLogin password =>
    simp only [handle, authLogin, ← h.ui]
    split_ifs <;> exact ⟨rfl, rfl, h⟩
  | getCredentials =>
    refine ⟨?_, rfl, h⟩
    simp only [handle, getCredentials_alike h]
  | putCredentials body =>
    have hsaved : Agree Settings.Alike (RestoreEngine.putCredentials abc cfg body)
        (RestoreEngine.putCredentials abc cfg' body) := h.putCredentials body
    simp only [handle]
    generalize RestoreEngine.putCredentials abc cfg body = done,
      RestoreEngine.putCredentials abc cfg' body = done' at hsaved
    cases hsaved with
    | error e => exact ⟨rfl, rfl, h⟩
    | ok hsaved => exact ⟨rfl, rfl, hsaved⟩
  | patchWorker body =>
    simp only [handle, patchWorker, h.worker]
    cases putWorker cfg'.worker body with
    | error e => exact ⟨rfl, rfl, h⟩
    | ok wk => exact ⟨rfl, rfl, { h with worker := rfl }⟩
  | _ => exact ⟨rfl, rfl, h⟩

variable [DecidableEq Client]

/-- **To be alike is an unwinding relation.** -/
private theorem unwinding_alike :
    (uiServer Client abc).Unwinding UiState.Alike := by
  have hanswer : ∀ {st st' : UiState Client}, st.Alike st' → ∀ req,
      (st.answer abc req).2 = (st'.answer abc req).2 ∧
        (st.answer abc req).1.Alike (st'.answer abc req).1 := by
    intro st st' h req
    have hsession : st'.session req = st.session req := by
      rw [UiState.session, UiState.session, h.cookies]
    have hletin : st'.letIn req = st.letIn req := by
      rw [UiState.letIn, UiState.letIn, hsession, h.settings.ui]
    simp only [UiState.answer, hletin, hsession]
    cases st.letIn req with
    | error e => exact ⟨rfl, h.settings, by simp only [UiState.give, h.cookies]⟩
    | ok actor =>
      obtain ⟨hbody, hsess, hsettings⟩ :=
        handle_alike abc h.settings (st.session req) req.endpoint
      simp only [hbody, hsess]
      exact ⟨trivial, hsettings, by simp only [UiState.give, h.cookies]⟩
  exact ⟨fun h req => (hanswer h req).1, fun h req => (hanswer h req).2⟩

/-- **Secrets stay hidden**: configurations that are alike give the same replies to every sequence
of requests. -/
theorem replies_alike (abc : Letters) {cfg cfg' : Settings} (h : cfg.Alike cfg')
    (cookies : Client → List Session) (reqs : List (UiRequest Client)) :
    ((uiServer Client abc).serve ⟨cfg, cookies⟩ reqs).map Exchange.reply =
      ((uiServer Client abc).serve ⟨cfg', cookies⟩ reqs).map Exchange.reply := by
  have hstates : UiState.Alike ⟨cfg, cookies⟩ ⟨cfg', cookies⟩ := ⟨h, rfl⟩
  exact unwinding_alike.replies_eq hstates reqs

/-- A configuration with this secret, for a server and for the cluster. -/
private def secretSettings (secret : String) : Settings where
  sources :=
    { pbsServers := [some { id := .text "pbs1", host := .text "pbs", apiTokenSecret := .text secret,
                            password := some .null }] }
  proxmox := some (some (Dict.ofFields [("host", .str "pve"), ("password", .str secret)]))

private theorem secretSettings_alike : (secretSettings "one").Alike (secretSettings "two") where
  ui := rfl
  pbsServers := .cons (.some ⟨.text (by decide +kernel), .inl rfl, rfl⟩) .nil
  pbs := ⟨.inl rfl, .inl rfl, rfl⟩
  pbsStorage := rfl
  proxmox := by
    refine .some (.some fun key => ?_)
    by_cases hkey : key = "password"
    · subst hkey
      exact .inr ⟨"one", "two", rfl, rfl, by decide +kernel⟩
    · have hrest : Dict.ofFields [("host", .str "pve"), ("password", .str "one")] key =
          Dict.ofFields [("host", .str "pve"), ("password", .str "two")] key := by
        simp [Dict.ofFields, List.lookup_cons, beq_false_of_ne hkey]
      split_ifs
      · exact .inl hrest
      · exact hrest
  worker := rfl
  notifications := .none

theorem replies_alike_read :
    ((uiServer ℕ .ascii).serve ⟨secretSettings "one", fun _ => [{ uiAuthenticated := true }]⟩
      [{ client := 1, endpoint := .getCredentials, cookie := { uiAuthenticated := true } }]).map
        Exchange.reply =
    ((uiServer ℕ .ascii).serve ⟨secretSettings "two", fun _ => [{ uiAuthenticated := true }]⟩
      [{ client := 1, endpoint := .getCredentials, cookie := { uiAuthenticated := true } }]).map
        Exchange.reply :=
  replies_alike .ascii secretSettings_alike _ _

/-! ### What is stored -/

/-- The secrets that are stored in dictionaries. -/
inductive StoredSecret
  | proxmoxToken
  | proxmoxPassword
  | emailPassword
  | webhookSecret

/-- The value of a secret. -/
def StoredSecret.stored (k : StoredSecret) (cfg : Settings) : Option Json :=
  let proxmox := cfg.proxmox.orEmpty (Dict.ofFields [])
  let notifications := cfg.notifications.orEmpty {}
  match k with
  | proxmoxToken => proxmox "api_token_secret"
  | proxmoxPassword => proxmox "password"
  | emailPassword => notifications.email.orEmpty (Dict.ofFields []) "password"
  | webhookSecret => notifications.webhook.orEmpty (Dict.ofFields []) "secret"

/-- The values that the fields send for a secret: those that are neither blank nor masked. Whether
`None` is one depends on the secret. -/
def sentValues (key : String) (nullCounts : Bool) (given : Fields) : List Json :=
  (given.filter fun field =>
    field.1 = key ∧ ¬ keepsSecret field.2 ∧ (nullCounts ∨ ¬ field.2.isNull)).map Prod.snd

/-- The values that a body sends for a secret. -/
def StoredSecret.sent : StoredSecret → CredentialsPut → List Json
  | proxmoxToken, body => sentValues "api_token_secret" false (body.proxmox.getD [])
  | proxmoxPassword, body => sentValues "password" false (body.proxmox.getD [])
  | emailPassword, body =>
    sentValues "password" true ((body.notifications.bind (·.email)).getD [])
  | webhookSecret, body => sentValues "secret" false ((body.notifications.bind (·.webhook)).getD [])

/-- The values that an exchange sends for a secret: those of the body, if the request is let in and
the save does not raise. -/
def StoredSecret.sentBy (k : StoredSecret)
    (e : Exchange (UiState Client) (UiRequest Client) UiReply) : List Json :=
  match e.reply.actor, e.request.endpoint, e.reply.body with
  | some _, .putCredentials body, .ok _ => k.sent body
  | _, _, _ => []

/-- The value of a key in the target of a merge. -/
private def valueOf (target : Option Dict) (key : String) : Option Json :=
  target.getD (Dict.ofFields []) key

private theorem setItem_last {target target' : Option Dict} {k key : String} {value : Json}
    (h : setItem target k value = .ok target') :
    valueOf target' key = if k = key then some value else valueOf target key := by
  cases target with
  | none => cases h
  | some d =>
    obtain rfl := Except.ok.inj h
    by_cases hk : k = key
    · subst hk
      rw [if_pos rfl]
      exact if_pos rfl
    · rw [if_neg hk]
      exact if_neg fun h => hk h.symm

/-- A loop that sets an entry to some of the values ends with the last of them, if it does not
raise. -/
private theorem foldlM_last {key : String}
    {f : Option Dict → String × Json → Except Exn (Option Dict)} {sel : String × Json → Bool}
    (hf : ∀ {t t' : Option Dict} {field}, f t field = .ok t' →
      valueOf t' key = if sel field then some field.2 else valueOf t key)
    {target target' : Option Dict} {given : Fields} (h : given.foldlM f target = .ok target') :
    valueOf target' key = ((given.filter sel).map Prod.snd).getLast?.or (valueOf target key) := by
  induction given generalizing target with
  | nil =>
    obtain rfl := Except.ok.inj h
    rfl
  | cons field given ih =>
    rw [List.foldlM_cons] at h
    obtain ⟨next, hnext, h⟩ := of_bind_ok h
    rw [ih h, hf hnext, List.filter_cons]
    split_ifs with hsel
    · rw [List.map_cons, List.getLast?_cons]
      cases ((given.filter sel).map Prod.snd).getLast? <;> rfl
    · rfl

private theorem mergePartial_last {key : String} {secretFields : List String}
    (hkey : key ∈ secretFields) {target target' : Option Dict} {given : Fields}
    (h : mergePartial secretFields target given = .ok target') :
    valueOf target' key = (sentValues key false given).getLast?.or (valueOf target key) := by
  refine foldlM_last (fun {t t' field} hfield => ?_) h
  obtain ⟨k, value⟩ := field
  simp only [mergeField] at hfield
  split_ifs at hfield with hnull hkeep
  · obtain rfl := Except.ok.inj hfield
    simp [hnull]
  · obtain rfl := Except.ok.inj hfield
    simp [hkeep.2]
  · rw [setItem_last hfield]
    by_cases hk : k = key
    · subst hk
      have hkeeps : keepsSecret value = false := by simpa [hkey] using hkeep
      simp [hnull, hkeeps]
    · simp [hk]

private theorem mergeEmail_last {target target' : Option Dict} {given : Fields}
    (h : mergeEmail target given = .ok target') :
    valueOf target' "password" =
      (sentValues "password" true given).getLast?.or (valueOf target "password") := by
  refine foldlM_last (fun {t t' field} hfield => ?_) h
  obtain ⟨k, value⟩ := field
  simp only [mergeEmailField] at hfield
  split_ifs at hfield with hk hkeep hnull
  · obtain rfl := Except.ok.inj hfield
    simp [hkeep]
  · rw [setItem_last hfield]
    simp [hk, hkeep]
  · obtain rfl := Except.ok.inj hfield
    simp [hk]
  · rw [setItem_last hfield]
    simp [hk]

/-- The value of a key in a block that has been saved. -/
private theorem putBlock_last {key : String} {nullCounts : Bool}
    {merge : Option Dict → Fields → Except Exn (Option Dict)}
    (hmerge : ∀ {t t' : Option Dict} {fields : Fields}, merge t fields = .ok t' →
      valueOf t' key = (sentValues key nullCounts fields).getLast?.or (valueOf t key))
    {block block' : ConfigBlock Dict} {given : Option Fields}
    (h : putBlock merge block given = .ok block') :
    block'.orEmpty (Dict.ofFields []) key =
      (sentValues key nullCounts (given.getD [])).getLast?.or
        (block.orEmpty (Dict.ofFields []) key) := by
  cases given with
  | none =>
    obtain rfl := Except.ok.inj h
    rfl
  | some fields =>
    obtain ⟨target, htarget, h⟩ := of_bind_ok h
    obtain rfl := Except.ok.inj h
    have hopened : valueOf (block.opened (Dict.ofFields [])) key =
        block.orEmpty (Dict.ofFields []) key := by
      cases block <;> rfl
    rw [Option.getD_some, ← hopened]
    exact hmerge htarget

/-- The secrets of the notifications that have been saved. -/
private theorem putNotifications_last {n n' : Option NotificationsEntry}
    {given : NotificationsPartial} (h : putNotifications n given = .ok n') :
    ((n'.getD {}).email.orEmpty (Dict.ofFields []) "password" =
        (sentValues "password" true (given.email.getD [])).getLast?.or
          ((n.getD {}).email.orEmpty (Dict.ofFields []) "password")) ∧
      (n'.getD {}).webhook.orEmpty (Dict.ofFields []) "secret" =
        (sentValues "secret" false (given.webhook.getD [])).getLast?.or
          ((n.getD {}).webhook.orEmpty (Dict.ofFields []) "secret") := by
  cases n with
  | none =>
    rw [putNotifications] at h
    split_ifs at h with hgiven
    obtain rfl := Except.ok.inj h
    obtain ⟨hemail, hwebhook, -⟩ : given.email = none ∧ given.webhook = none ∧
        given.events = none := by simpa using hgiven
    rw [hemail, hwebhook]
    exact ⟨rfl, rfl⟩
  | some n =>
    obtain ⟨email, hemail, h⟩ := of_bind_ok h
    obtain ⟨webhook, hwebhook, h⟩ := of_bind_ok h
    obtain ⟨events, -, h⟩ := of_bind_ok h
    obtain rfl := Except.ok.inj h
    exact ⟨putBlock_last mergeEmail_last hemail,
      putBlock_last (mergePartial_last (by decide : "secret" ∈ ["secret"])) hwebhook⟩

/-- **A body stores the last value that it sends for a secret**, if its save does not raise. -/
private theorem stored_putCredentials (k : StoredSecret) {cfg saved : Settings}
    {body : CredentialsPut} (h : RestoreEngine.putCredentials abc cfg body = .ok saved) :
    k.stored saved = (k.sent body).getLast?.or (k.stored cfg) := by
  obtain ⟨proxmox, hproxmox, h⟩ := of_bind_ok h
  obtain ⟨worker, -, h⟩ := of_bind_ok h
  obtain ⟨notifications, hnotifications, h⟩ := of_bind_ok h
  obtain rfl := Except.ok.inj h
  have hsecrets : (notifications.orEmpty {}).email.orEmpty (Dict.ofFields []) "password" =
        (StoredSecret.emailPassword.sent body).getLast?.or
          (StoredSecret.emailPassword.stored cfg) ∧
      (notifications.orEmpty {}).webhook.orEmpty (Dict.ofFields []) "secret" =
        (StoredSecret.webhookSecret.sent body).getLast?.or
          (StoredSecret.webhookSecret.stored cfg) := by
    simp only [StoredSecret.sent, StoredSecret.stored]
    cases hbody : body.notifications with
    | none =>
      rw [hbody] at hnotifications
      obtain rfl := Except.ok.inj hnotifications
      exact ⟨rfl, rfl⟩
    | some given =>
      rw [hbody] at hnotifications
      obtain ⟨ncfg, hncfg, hmap⟩ := of_bind_ok hnotifications
      obtain rfl := Except.ok.inj hmap
      have hopened : (cfg.notifications.opened {}).getD {} = cfg.notifications.orEmpty {} := by
        cases cfg.notifications <;> rfl
      rw [← hopened]
      exact putNotifications_last hncfg
  cases k with
  | proxmoxToken =>
    exact putBlock_last (mergePartial_last (by decide : "api_token_secret" ∈ proxmoxSecrets))
      hproxmox
  | proxmoxPassword =>
    exact putBlock_last (mergePartial_last (by decide : "password" ∈ proxmoxSecrets)) hproxmox
  | emailPassword => exact hsecrets.1
  | webhookSecret => exact hsecrets.2

/-- No secret is stored in the block of the workers. -/
private theorem stored_patchWorker (k : StoredSecret) {cfg saved : Settings} {wk : WorkerEntry}
    {body : WorkerPartial} (h : RestoreEngine.patchWorker cfg body = .ok (saved, wk)) :
    k.stored saved = k.stored cfg := by
  obtain ⟨wk', -, h⟩ := of_bind_ok h
  obtain ⟨rfl, rfl⟩ := Prod.mk.inj (Except.ok.inj h)
  cases k <;> rfl

/-- An exchange stores the last value that it sends for a secret. -/
private theorem stored_answer (k : StoredSecret) (st : UiState Client) (req : UiRequest Client) :
    k.stored (st.answer abc req).1.settings =
      (k.sentBy ((uiServer Client abc).exchange st req)).getLast?.or (k.stored st.settings) := by
  have hreply : ((uiServer Client abc).exchange st req).reply = (st.answer abc req).2 := rfl
  have hreq : ((uiServer Client abc).exchange st req).request = req := rfl
  rw [StoredSecret.sentBy, hreply, hreq, UiState.answer]
  cases hletin : st.letIn req with
  | error e => rfl
  | ok actor =>
    cases hendpoint : req.endpoint with
    | putCredentials body =>
      -- the route is protected, so the request has been let in as somebody
      rcases UiState.letIn_ok hletin with ⟨hopen, -⟩ | ⟨a, rfl, -⟩
      · rw [hendpoint] at hopen
        cases hopen
      · cases hsaved : RestoreEngine.putCredentials abc st.settings body with
        | error e =>
          have hdone : handle abc st.settings (st.session req) (.putCredentials body) =
              ⟨.error e, st.settings, st.session req⟩ := by simp only [handle, hsaved]
          simp only [hdone]
          rfl
        | ok saved =>
          have hdone : handle abc st.settings (st.session req) (.putCredentials body) =
              ⟨.ok .ok, saved, st.session req⟩ := by simp only [handle, hsaved]
          simp only [hdone]
          exact stored_putCredentials k hsaved
    | authLogin password =>
      cases actor <;> (simp only [handle, authLogin]; split_ifs <;> rfl)
    | patchWorker body =>
      have hkept : k.stored (handle abc st.settings (st.session req)
          (.patchWorker body)).settings = k.stored st.settings := by
        rw [handle]
        cases hsaved : RestoreEngine.patchWorker st.settings body with
        | error e => rfl
        | ok saved => exact stored_patchWorker k hsaved
      cases actor <;> exact hkept
    | _ => cases actor <;> rfl

/-- The last of the values that one list after the other ends with. -/
private theorem foldl_getLast {α β : Type} (f : α → List β) (l : List α) (v : Option β) :
    l.foldl (fun v a => (f a).getLast?.or v) v = (l.flatMap f).getLast?.or v := by
  induction l generalizing v with
  | nil => rfl
  | cons a l ih =>
    rw [List.foldl_cons, ih, List.flatMap_cons, List.getLast?_append, Option.or_assoc]

/-- **What is stored was sent last**: after every sequence of requests a secret has the last value
that a request has sent for it which was let in and whose save did not raise, or else the one it had
at the beginning. -/
theorem stored_last_sent (abc : Letters) (cfg : Settings) (cookies : Client → List Session)
    (reqs : List (UiRequest Client)) (k : StoredSecret) :
    k.stored ((uiServer Client abc).final ⟨cfg, cookies⟩ reqs).settings =
      (((uiServer Client abc).serve ⟨cfg, cookies⟩ reqs).flatMap k.sentBy).getLast?.or
        (k.stored cfg) := by
  rw [← foldl_getLast]
  exact Server.final_eq_foldl (f := fun st : UiState Client => k.stored st.settings)
    (g := fun v e => (k.sentBy e).getLast?.or v) (fun st req => stored_answer k st req) _ reqs

end RestoreEngine
