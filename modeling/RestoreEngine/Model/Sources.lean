import RestoreEngine.Model.Json

/-!
# `sources.py`: the sources of backups

The configuration lists PBS servers with their mounts; `loadSources` flattens it into sources, one
for every mount that names a datastore and the storage of the cluster bound to it. A configuration
in the old format has one server with one mount.

A field of the configuration may be missing, or have any value: a blank one is `null`. It is read as
a text, in one of two ways that differ for values that are false. Ports and switches come as they
are read; items of the lists of mounts that are no mappings are skipped everywhere and left out.
-/

namespace RestoreEngine

/-- A place that backups come from. -/
structure Source where
  sourceId : String
  serverId : String
  label : String
  host : String
  port : ℤ
  verifySsl : Bool
  apiTokenId : String
  apiTokenSecret : String
  user : String
  password : String
  datastore : String
  /-- The namespace; the root namespace is the empty one. -/
  ns : String
  pveStorage : String
  deriving DecidableEq

/-! ### The configuration -/

/-- The value that a key of the configuration has, if it is there. -/
abbrev ConfigValue := Option Json

namespace ConfigValue

/-- A text. -/
def text (s : String) : ConfigValue := some (.str s)

/-- `d.get(key) or ""`. -/
def orEmpty (v : ConfigValue) : Json := (v.filter Json.truthy).getD (.str "")

/-- `str(d.get(key) or "")`: what is false reads as the empty text. -/
def orBlank (v : ConfigValue) : String := v.orEmpty.toText

/-- `str(d.get(key, ""))`: only what is missing reads as the empty text. -/
def asText (v : ConfigValue) : String := (v.getD (.str "")).toText

/-- `str(d.get(key) or "").strip()`. -/
def stripped (v : ConfigValue) : String := Text.strip v.orBlank

@[simp] theorem orBlank_text (s : String) : (text s).orBlank = s := by
  by_cases hs : s = ""
  · subst hs
    rfl
  · have htruthy : (Json.str s).truthy = true := decide_eq_true hs
    rw [orBlank, orEmpty, text, Option.filter_some, if_pos htruthy]
    rfl

@[simp] theorem asText_text (s : String) : (text s).asText = s := rfl

/-- The two ways to read a value differ for false values only. -/
theorem asText_of_orBlank_ne {v : ConfigValue} (h : v.orBlank ≠ "") : v.asText = v.orBlank := by
  cases v with
  | none => exact absurd rfl h
  | some x =>
    rw [orBlank, orEmpty, Option.filter_some] at h ⊢
    split_ifs at h ⊢
    · rfl
    · exact absurd rfl h

@[simp] theorem stripped_text (s : String) : (text s).stripped = Text.strip s := by
  rw [stripped, orBlank_text]

end ConfigValue

/-- A mount of a server. -/
structure MountEntry where
  datastore : ConfigValue := none
  ns : ConfigValue := none
  pveStorage : ConfigValue := none

/-- A mapping in `pbs_servers`. -/
structure ServerEntry where
  id : ConfigValue := none
  host : ConfigValue := none
  port : ℤ := 8007
  verifySsl : Bool := true
  apiTokenId : ConfigValue := none
  apiTokenSecret : ConfigValue := none
  user : ConfigValue := none
  password : ConfigValue := none
  mounts : List MountEntry := []

/-- The block `pbs` of the old format. -/
structure PbsEntry where
  host : ConfigValue := none
  port : ℤ := 8007
  verifySsl : Bool := true
  apiTokenId : ConfigValue := none
  apiTokenSecret : ConfigValue := none
  user : ConfigValue := none
  password : ConfigValue := none
  datastore : ConfigValue := none

/-- The parts of the configuration that sources come from. -/
structure SourceConfig where
  /-- The items of `pbs_servers`, `none` for one that is no mapping. -/
  pbsServers : List (Option ServerEntry) := []
  pbs : PbsEntry := {}
  /-- `proxmox.pbs_storage`. -/
  pbsStorage : ConfigValue := none

/-- The servers of the configuration. -/
def SourceConfig.servers (cfg : SourceConfig) : List ServerEntry := cfg.pbsServers.reduceOption

/-! ### Flattening -/

/-- `s.strip("/")`. -/
def stripSlashes (s : String) : String := Text.rstripChar (Text.lstripChar s '/') '/'

/-- `_norm_ns` of a text. -/
def normNs (value : String) : String := stripSlashes (Text.strip value)

/-- The namespace as it stands in a source id. -/
def nsOrRoot (ns : String) : String := if ns = "" then "root" else ns

/-- `_make_source_id`. -/
def makeSourceId (serverId datastore ns : String) : String :=
  s!"{serverId}/{datastore}/{nsOrRoot ns}"

/-- `_source_label`. -/
def sourceLabel (serverId datastore ns : String) : String :=
  s!"{serverId} · {datastore}" ++ if ns = "" then "" else s!" [{ns}]"

/-- `value or 8007`. -/
def portOr (port : ℤ) : ℤ := if port = 0 then 8007 else port

/-- The id of a server that has none. -/
def automaticId (index : ℕ) : String := s!"pbs{index + 1}"

namespace ServerEntry

/-- `server_id`. -/
def effectiveId (server : ServerEntry) (index : ℕ) : String :=
  let id := Text.strip (if server.id.orBlank = "" then automaticId index else server.id.orBlank)
  if id = "" then automaticId index else id

/-- The source of a mount. -/
def source (server : ServerEntry) (index : ℕ) (mount : MountEntry) : Source :=
  let serverId := server.effectiveId index
  let datastore := mount.datastore.stripped
  let ns := normNs mount.ns.orBlank
  { sourceId := makeSourceId serverId datastore ns
    serverId
    label := sourceLabel serverId datastore ns
    host := server.host.stripped
    port := portOr server.port
    verifySsl := server.verifySsl
    apiTokenId := server.apiTokenId.stripped
    apiTokenSecret := server.apiTokenSecret.stripped
    user := server.user.stripped
    password := server.password.stripped
    datastore
    ns
    pveStorage := mount.pveStorage.stripped }

end ServerEntry

/-- The mount names a datastore and a storage. -/
def MountEntry.Usable (mount : MountEntry) : Prop :=
  mount.datastore.stripped ≠ "" ∧ mount.pveStorage.stripped ≠ ""

instance (mount : MountEntry) : Decidable mount.Usable := inferInstanceAs (Decidable (_ ∧ _))

/-- `_sources_from_server`. -/
def sourcesFromServer (server : ServerEntry) (index : ℕ) : List Source :=
  (server.mounts.filter fun mount => mount.Usable).map (server.source index)

/-- The server of a configuration in the old format. -/
def PbsEntry.server (pbs : PbsEntry) (pveStorage : String) : ServerEntry where
  id := .text "pbs"
  host := .text pbs.host.stripped
  port := portOr pbs.port
  verifySsl := pbs.verifySsl
  apiTokenId := pbs.apiTokenId
  apiTokenSecret := pbs.apiTokenSecret
  user := pbs.user
  password := pbs.password
  mounts := [{ datastore := .text pbs.datastore.stripped, ns := .text "",
               pveStorage := .text pveStorage }]

/-- `_legacy_sources`. -/
def legacySources (cfg : SourceConfig) : List Source :=
  if cfg.pbs.host.stripped = "" ∧ cfg.pbs.datastore.stripped = "" then []
  else sourcesFromServer (cfg.pbs.server cfg.pbsStorage.stripped) 0

/-- The sources of all servers. What is no mapping has none, but counts for the automatic ids. -/
def serverSources (servers : List (Option ServerEntry)) : List Source :=
  (servers.mapIdx fun index entry => entry.elim [] fun server =>
    sourcesFromServer server index).flatten

/-- **`load_sources`.** -/
def loadSources (cfg : SourceConfig) : List Source :=
  let sources := serverSources cfg.pbsServers
  if sources = [] then legacySources cfg else sources

/-- **`source_by_id`.** -/
def sourceById (cfg : SourceConfig) (sourceId : String) : Option Source :=
  (loadSources cfg).find? fun src => src.sourceId = sourceId

end RestoreEngine
