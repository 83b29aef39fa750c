import RestoreEngine.Model.Dicts
import RestoreEngine.Model.Sources

/-!
# `ui.py`: reading and saving the PBS servers

The settings page reads the servers with their secrets masked (`pbsServersView`) and sends them
back (`putPbsServers`). What comes back masked or blank means that the secret stays as it is; it is
looked up by the id of the server (`persistServers`).

The page shows some values as they stand in the configuration, but takes texts only: a request with
anything else is refused before `put_credentials` runs (`ServerView.model`).

Which characters are letters, and what their lower case is, is left to the tables of Python.
-/

namespace RestoreEngine

/-- Python's `str.lower` and `str.isalnum`. -/
structure Letters where
  /-- `str.lower`. -/
  lower : List Char → List Char
  /-- `str.isalnum` on one character. -/
  isAlnum : Char → Bool
  lower_ascii : ∀ c : Char, c.toNat < 128 → lower [c] = [c.toLower]
  isAlnum_ascii : ∀ c : Char, c.toNat < 128 → isAlnum c = c.isAlphanum
  /-- Characters in lower case stay as they are. -/
  lower_eq_self : ∀ s, (∀ c ∈ s, lower [c] = [c]) → lower s = s
  /-- What comes out is in lower case. -/
  lower_lower : ∀ s, ∀ c ∈ lower s, lower [c] = [c]
  /-- No letter and no digit is a space. -/
  isSpace_of_isAlnum : ∀ c, isAlnum c = true → Text.isSpace c = false

/-! ### Reading -/

/-- `MASK`. -/
def mask : String := "********"

/-- `PBSMountModel`, and what `_mount_view` returns. -/
structure PBSMountModel where
  datastore : String := ""
  ns : String := ""
  pveStorage : String := ""

/-- `PBSServerModel`. -/
structure PBSServerModel where
  id : String := ""
  host : String := ""
  port : ℤ := 8007
  verifySsl : Bool := true
  apiTokenId : String := ""
  apiTokenSecret : String := ""
  user : String := ""
  password : String := ""
  mounts : List PBSMountModel := []

/-- A server as the settings page sees it: what `mask_pbs_server` returns. -/
structure ServerView where
  id : String
  host : Json
  port : ℤ
  verifySsl : Bool
  apiTokenId : Json
  apiTokenSecretSet : Bool
  apiTokenSecret : String
  user : Json
  passwordSet : Bool
  password : String
  mounts : List PBSMountModel

/-- `_mount_view`. -/
def mountView (m : MountEntry) : PBSMountModel where
  datastore := m.datastore.asText
  ns := m.ns.orBlank
  pveStorage := m.pveStorage.asText

/-- `bool((s.get(key) or "").strip())`. -/
def ConfigValue.isSet (v : ConfigValue) : Except Exn Bool := do
  let text ← Dict.stripped v.orEmpty
  return text ≠ ""

/-- A secret as the settings page sees it. -/
def masked (set : Bool) : String := if set then mask else ""

/-- `mask_pbs_server`. -/
def maskPbsServer (s : ServerEntry) : Except Exn ServerView := do
  let tok ← s.apiTokenSecret.isSet
  let pwd ← s.password.isSet
  return {
    id := s.id.asText
    host := s.host.getD (.str "")
    port := portOr s.port
    verifySsl := s.verifySsl
    apiTokenId := s.apiTokenId.getD (.str "")
    apiTokenSecretSet := tok
    apiTokenSecret := masked tok
    user := s.user.getD (.str "")
    passwordSet := pwd
    password := masked pwd
    mounts := s.mounts.map mountView }

/-- The server that the settings page makes of a block in the old format. A key that the block does
not have has the empty text there, which every reader takes for a missing one. -/
def PbsEntry.shown (pbs : PbsEntry) (pveStorage : String) : ServerEntry where
  id := .text "pbs"
  host := pbs.host
  port := pbs.port
  verifySsl := pbs.verifySsl
  apiTokenId := pbs.apiTokenId
  apiTokenSecret := pbs.apiTokenSecret
  user := pbs.user
  password := pbs.password
  mounts := [{ datastore := pbs.datastore, ns := .text "", pveStorage := .text pveStorage }]

/-- `bool(d.get(key))`. -/
def ConfigValue.truthy (v : ConfigValue) : Bool := v.any Json.truthy

/-- The servers that the settings page shows; a block in the old format counts as one. -/
def shownServers (cfg : SourceConfig) : List ServerEntry :=
  if cfg.pbsServers ≠ [] then cfg.servers
  else if cfg.pbs.host.truthy ∨ cfg.pbs.datastore.truthy then
    [cfg.pbs.shown cfg.pbsStorage.orBlank]
  else []

/-- **`pbs_servers_view`.** -/
def pbsServersView (cfg : SourceConfig) : Except Exn (List ServerView) :=
  (shownServers cfg).mapM maskPbsServer

/-! ### Saving -/

/-- `s.strip("-")`. -/
def stripDashes (s : String) : String := Text.rstripChar (Text.lstripChar s '-') '-'

/-- The character stays in an id. -/
def Letters.keeps (abc : Letters) (c : Char) : Bool := abc.isAlnum c || c == '-' || c == '_'

/-- `_slugify_server_id`. -/
def slugifyServerId (abc : Letters) (value fallback : String) : String :=
  let slug := stripDashes (String.ofList
    ((abc.lower (Text.strip value).toList).map fun c => if abc.keeps c then c else '-'))
  if slug = "" then fallback else slug

/-- The slug of a server that is saved. -/
def serverSlug (abc : Letters) (server : PBSServerModel) (index : ℕ) : String :=
  slugifyServerId abc (if server.id = "" then server.host else server.id) (automaticId index)

/-- An id with a number. -/
def numberedId (base : String) (n : ℕ) : String := s!"{base}-{n}"

/-- The loop that counts up to a number whose id is not used. It ends after as many rounds as there
are ids. -/
def nextId (base : String) (used : List String) : ℕ → ℕ → String
  | 0, n => numberedId base n
  | rounds + 1, n =>
    if numberedId base n ∈ used then nextId base used rounds (n + 1) else numberedId base n

/-- The id that a server is saved under. -/
def uniqueId (base : String) (used : List String) : String :=
  if base ∈ used then nextId base used used.length 2 else base

/-- The entry of `by_id`: of servers with one id, the last. -/
def lastById (servers : List ServerEntry) (id : String) : Option ServerEntry :=
  servers.reverse.find? fun s => s.id.asText = id

/-- A secret that is saved: a new one, or the one that the server with the id has. A blank one
that is `null` is saved as the text that `str` makes of it. -/
def keepSecret (existing : List ServerEntry) (id : String) (field : ServerEntry → ConfigValue)
    (value : String) : String :=
  let secret := Text.strip value
  if secret = "" ∨ secret = mask then
    ((lastById existing id).map fun s => (field s).asText).getD ""
  else secret

/-- The mount is saved. -/
def PBSMountModel.Usable (m : PBSMountModel) : Prop :=
  Text.strip m.datastore ≠ "" ∧ Text.strip m.pveStorage ≠ ""

instance (m : PBSMountModel) : Decidable m.Usable := inferInstanceAs (Decidable (_ ∧ _))

/-- A mount that is saved. -/
def savedMount (m : PBSMountModel) : MountEntry where
  datastore := .text (Text.strip m.datastore)
  ns := .text (normNs m.ns)
  pveStorage := .text (Text.strip m.pveStorage)

/-- A server that is saved under an id. -/
def savedServer (existing : List ServerEntry) (id : String) (server : PBSServerModel) :
    ServerEntry where
  id := .text id
  host := .text (Text.strip server.host)
  port := portOr server.port
  verifySsl := server.verifySsl
  apiTokenId := .text (Text.strip server.apiTokenId)
  apiTokenSecret := .text
    (keepSecret existing server.id (·.apiTokenSecret) server.apiTokenSecret)
  user := .text (Text.strip server.user)
  password := .text (keepSecret existing server.id (·.password) server.password)
  mounts := (server.mounts.filter fun m => m.Usable).map savedMount

/-- The loop of `_persist_servers`. -/
def persistFrom (abc : Letters) (existing : List ServerEntry) :
    ℕ → List String → List PBSServerModel → List ServerEntry
  | _, _, [] => []
  | index, used, server :: rest =>
    let id := uniqueId (serverSlug abc server index) used
    savedServer existing id server :: persistFrom abc existing (index + 1) (id :: used) rest

/-- **`_persist_servers`.** -/
def persistServers (abc : Letters) (existing : List ServerEntry)
    (incoming : List PBSServerModel) : List ServerEntry :=
  persistFrom abc existing 0 [] incoming

/-- **`put_credentials`**, as far as it saves servers. The old format goes. -/
def putPbsServers (abc : Letters) (cfg : SourceConfig) (incoming : List PBSServerModel) :
    SourceConfig where
  pbsServers := (persistServers abc cfg.servers incoming).map some
  pbs := {}
  pbsStorage := none

/-! ### Reading and saving -/

/-- A field of a model that takes texts only. -/
def modelText : Json → Except Exn String
  | .str s => .ok s
  | _ => .error (.httpException 422 "Input should be a valid string")

/-- The model of a server that is sent back as it was read. -/
def ServerView.model (view : ServerView) : Except Exn PBSServerModel := do
  let host ← modelText view.host
  let apiTokenId ← modelText view.apiTokenId
  let user ← modelText view.user
  return {
    id := view.id
    host
    port := view.port
    verifySsl := view.verifySsl
    apiTokenId
    apiTokenSecret := view.apiTokenSecret
    user
    password := view.password
    mounts := view.mounts }

/-- What is saved when the settings page sends back what it has read. -/
def saveUnchanged (abc : Letters) (cfg : SourceConfig) : Except Exn SourceConfig := do
  let view ← pbsServersView cfg
  let incoming ← view.mapM ServerView.model
  return putPbsServers abc cfg incoming

end RestoreEngine
