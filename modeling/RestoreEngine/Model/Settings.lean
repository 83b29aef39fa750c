import RestoreEngine.Model.Credentials
import RestoreEngine.Model.Dicts

/-!
# `ui.py`: the settings page

What the settings page reads of the configuration (`getCredentials`) and how the configuration
changes when it saves (`putCredentials`, `patchWorker`). The PBS servers are those of `Credentials`;
the blocks of the cluster and of the notifications are dictionaries, for their values are merged key
by key. The key `pbs_storage` of the block `proxmox` stands in `sources`.

A block may be missing or `null`. Reading takes both for an empty one; saving makes a missing block,
but raises where it sets a key of a block that is `null`. A save that raises leaves the file as it
is, for that is written in the end.
-/

namespace RestoreEngine

/-- The fields that a body sets, in their order. -/
abbrev Fields := List (String × Json)

/-! ### The configuration -/

/-- An entry of `ui.api_tokens`: its fields as texts, empty if they are missing. -/
structure TokenEntry where
  token : String := ""
  role : String := ""
  name : String := ""
  deriving DecidableEq

/-- The block `ui`. -/
structure UiEntry where
  password : String := ""
  apiTokens : List TokenEntry := []
  deriving DecidableEq

/-- A value of the block `worker`, as `int` and `float` take it. -/
inductive WorkerValue
  /-- A number or a truth value. -/
  | number (q : ℚ)
  | text (s : String)
  /-- `null`, a list or a mapping, with its truth value. -/
  | other (truthy : Bool)

/-- The keys of the block `worker` that the settings page edits. -/
structure WorkerEntry where
  maxConcurrentRestores : Option WorkerValue := none
  taskPollIntervalSec : Option WorkerValue := none
  taskTimeoutSec : Option WorkerValue := none

/-- What stands under a key: nothing, `null`, or a mapping. -/
abbrev ConfigBlock (α : Type) := Option (Option α)

namespace ConfigBlock

variable {α : Type}

/-- `cfg.get(key) or {}`. -/
def orEmpty (block : ConfigBlock α) (empty : α) : α := (block.getD none).getD empty

/-- `cfg.setdefault(key, {})`, which is `None` for a block that is `null`. -/
def opened (block : ConfigBlock α) (empty : α) : Option α := block.getD (some empty)

end ConfigBlock

/-- The block `notifications`. -/
structure NotificationsEntry where
  email : ConfigBlock Dict := none
  webhook : ConfigBlock Dict := none
  events : ConfigBlock Dict := none

/-- `config.yaml` as the settings page knows it. -/
structure Settings where
  ui : UiEntry := {}
  sources : SourceConfig := {}
  proxmox : ConfigBlock Dict := none
  worker : ConfigBlock WorkerEntry := none
  notifications : ConfigBlock NotificationsEntry := none

/-! ### Reading -/

namespace Text

/-- Digits, with single underscores between them. -/
def parseDigits (cs : List Char) : Option (List Char) :=
  let groups := cs.splitOn '_'
  if groups.all fun g => g ≠ [] ∧ g.all Char.isDigit then some groups.flatten else none

/-- Digits with a point before, between or behind them. -/
def parseDecimal (cs : List Char) : Option ℚ :=
  match cs.splitOn '.' with
  | [whole] => (parseDigits whole).map fun ds => Nat.ofDigitChars 10 ds 0
  | [whole, fraction] => do
    let ds ← if whole = [] then some [] else parseDigits whole
    let fs ← if fraction = [] then some [] else parseDigits fraction
    if ds ++ fs = [] then none
    else some (Nat.ofDigitChars 10 (ds ++ fs) 0 / 10 ^ fs.length)
  | _ => none

/-- `float` of a text, as an exact number. Texts that name an infinity or no number are left out. -/
def parseFloat (s : String) : Option ℚ := do
  let body := (strip s).toList
  let number := if body.head? = some '-' ∨ body.head? = some '+' then body.tail else body
  let size ←
    match number.splitOnP (fun c => c = 'e' ∨ c = 'E') with
    | [mantissa] => parseDecimal mantissa
    | [mantissa, power] => do
      let digits := if power.head? = some '-' ∨ power.head? = some '+' then power.tail else power
      let m ← parseDecimal mantissa
      let ds ← parseDigits digits
      let n : ℤ := Nat.ofDigitChars 10 ds 0
      some (m * 10 ^ (if power.head? = some '-' then -n else n))
    | _ => none
  return if body.head? = some '-' then -size else size

end Text

namespace WorkerValue

/-- `bool` of a value. -/
def truthy : WorkerValue → Bool
  | number q => q ≠ 0
  | text s => s ≠ ""
  | other b => b

/-- `int` of a value. -/
def toInt : WorkerValue → Except Exn ℤ
  | number q => .ok (if 0 ≤ q then ⌊q⌋ else ⌈q⌉)
  | text s =>
    match Text.parseInt s with
    | some n => .ok n
    | none => .error (.valueError s!"invalid literal for int() with base 10: {s}")
  | other _ => .error (.typeError "int() argument must be a string or a number")

/-- `float` of a value. -/
def toFloat : WorkerValue → Except Exn ℚ
  | number q => .ok q
  | text s =>
    match Text.parseFloat s with
    | some q => .ok q
    | none => .error (.valueError s!"could not convert string to float: {s}")
  | other _ => .error (.typeError "float() argument must be a string or a real number")

end WorkerValue

namespace Dict

/-- `bool((d.get(key) or "").strip())`. -/
def isSet (d : Dict) (key : String) : Except Exn Bool := do
  let text ← d.stripOr key
  return text ≠ ""

/-- `int` of a value. -/
def intOf (v : Json) : Except Exn ℤ :=
  match v.toInt with
  | some n => .ok n
  | none => .error (.typeError "int() argument must be a string or a number")

end Dict

/-- A secret that is set is shown as the mask. -/
def shownSecret (isSet : Bool) : Json := .str (if isSet then mask else "")

/-- `mask_proxmox`. -/
def maskProxmox (p : Dict) : Except Exn Dict := do
  let tok ← p.isSet "api_token_secret"
  let pwd ← p.isSet "password"
  let port ← Dict.intOf (p.getD "port" (.int 8006))
  let bwlimit ← Dict.intOf (p.getOr "restore_bwlimit" (.int 0))
  return Dict.ofFields [
    ("host", p.getD "host" (.str "")),
    ("port", .int port),
    ("verify_ssl", .bool (p.getD "verify_ssl" (.bool true)).truthy),
    ("default_node", p.getD "default_node" (.str "")),
    ("api_token_id", p.getD "api_token_id" (.str "")),
    ("storage", p.getD "storage" (.str "")),
    ("restore_bwlimit", .int bwlimit),
    ("live_restore_default", .bool (p.getD "live_restore_default" (.bool false)).truthy),
    ("api_token_secret_set", .bool tok),
    ("api_token_secret", shownSecret tok),
    ("password_set", .bool pwd),
    ("password", shownSecret pwd),
    ("user", p.getD "user" (.str ""))]

/-- What `view_worker` returns. -/
structure WorkerView where
  maxConcurrentRestores : ℤ
  taskPollIntervalSec : ℤ
  taskTimeoutSec : ℚ

/-- `int(w.get(key, n) or n)`. -/
def workerInt (v : Option WorkerValue) (n : ℤ) : Except Exn ℤ :=
  ((v.filter WorkerValue.truthy).getD (.number n)).toInt

/-- `view_worker`. A limit that cannot be read is shown as none. -/
def viewWorker (w : WorkerEntry) : Except Exn WorkerView := do
  let timeout := ((w.taskTimeoutSec.filter WorkerValue.truthy).getD (.number 0)).toFloat
  let restores ← workerInt w.maxConcurrentRestores 2
  let interval ← workerInt w.taskPollIntervalSec 3
  return {
    maxConcurrentRestores := restores
    taskPollIntervalSec := interval
    taskTimeoutSec := timeout.toOption.getD 0 }

/-- `[x.strip() for x in s.split(",") if x.strip()]`. -/
def splitRecipients (s : String) : List String :=
  ((Text.split s ',').map Text.strip).filter (· ≠ "")

/-- The recipients that the settings page shows. -/
def shownRecipients (email : Dict) : Json :=
  match email "to" with
  | some (.arr items) => .arr items
  | _ => .arr ((splitRecipients (email.getOr "to" (.str "")).toText).map .str)

/-- What `view_notifications` returns. -/
structure NotificationsView where
  email : Dict
  webhook : Dict
  events : Dict

/-- `view_notifications`. -/
def viewNotifications (n : NotificationsEntry) : Except Exn NotificationsView := do
  let email := n.email.orEmpty (Dict.ofFields [])
  let webhook := n.webhook.orEmpty (Dict.ofFields [])
  let events := n.events.orEmpty (Dict.ofFields [])
  let pwd ← email.isSet "password"
  let port ← Dict.intOf (email.getOr "port" (.int 587))
  let secret ← webhook.isSet "secret"
  return {
    email := Dict.ofFields [
      ("enabled", .bool (email.getD "enabled" (.bool false)).truthy),
      ("host", .str (email.getOr "host" (.str "")).toText),
      ("port", .int port),
      ("tls", .bool (email.getD "tls" (.bool true)).truthy),
      ("ssl", .bool (email.getD "ssl" (.bool false)).truthy),
      ("username", .str (email.getOr "username" (.str "")).toText),
      ("password_set", .bool pwd),
      ("password", shownSecret pwd),
      ("from", .str (email.getOr "from" (.str "")).toText),
      ("to", shownRecipients email)]
    webhook := Dict.ofFields [
      ("enabled", .bool (webhook.getD "enabled" (.bool false)).truthy),
      ("url", .str (webhook.getOr "url" (.str "")).toText),
      ("secret_set", .bool secret),
      ("secret", shownSecret secret)]
    events := Dict.ofFields [
      ("check_failed", .bool (events.getD "check_failed" (.bool true)).truthy),
      ("plan_run_terminal", .bool (events.getD "plan_run_terminal" (.bool true)).truthy),
      ("job_failed", .bool (events.getD "job_failed" (.bool false)).truthy)] }

/-- What `get_credentials` returns. -/
structure CredentialsView where
  pbsServers : List ServerView
  proxmox : Dict
  worker : WorkerView
  notifications : NotificationsView

/-- **`get_credentials`.** -/
def getCredentials (cfg : Settings) : Except Exn CredentialsView := do
  let pbsServers ← pbsServersView cfg.sources
  let proxmox ← maskProxmox (cfg.proxmox.orEmpty (Dict.ofFields []))
  let worker ← viewWorker (cfg.worker.orEmpty {})
  let notifications ← viewNotifications (cfg.notifications.orEmpty {})
  return { pbsServers, proxmox, worker, notifications }

/-! ### Saving -/

/-- The value for a secret means that the secret stays. -/
def keepsSecret : Json → Bool
  | .str s => Text.strip s = "" ∨ Text.strip s = mask
  | _ => false

/-- `value is None`. -/
def Json.isNull : Json → Bool
  | .null => true
  | _ => false

/-- `target[key] = value`, where `none` is the target of a block that is `null`. -/
def setItem (target : Option Dict) (key : String) (value : Json) : Except Exn (Option Dict) :=
  match target with
  | none => .error (.typeError "'NoneType' object does not support item assignment")
  | some d => .ok (some (d.set key value))

/-- A field of `_merge_partial`. -/
def mergeField (secretFields : List String) (target : Option Dict) (key : String) (value : Json) :
    Except Exn (Option Dict) :=
  if value.isNull then .ok target
  else if key ∈ secretFields ∧ keepsSecret value then .ok target
  else setItem target key value

/-- `_merge_partial`. -/
def mergePartial (secretFields : List String) (target : Option Dict) (given : Fields) :
    Except Exn (Option Dict) :=
  given.foldlM (fun target field => mergeField secretFields target field.1 field.2) target

/-- `WorkerPartial`. -/
structure WorkerPartial where
  maxConcurrentRestores : Option ℤ := none
  taskPollIntervalSec : Option ℤ := none
  taskTimeoutSec : Option ℚ := none

/-- `_merge_partial` for the block `worker`. -/
def mergeWorker (wk : Option WorkerEntry) (given : WorkerPartial) :
    Except Exn (Option WorkerEntry) :=
  match wk with
  | none =>
    if given.maxConcurrentRestores.isSome ∨ given.taskPollIntervalSec.isSome ∨
        given.taskTimeoutSec.isSome then
      .error (.typeError "'NoneType' object does not support item assignment")
    else .ok none
  | some w => .ok (some {
      maxConcurrentRestores :=
        (given.maxConcurrentRestores.map fun n => .number n).or w.maxConcurrentRestores
      taskPollIntervalSec :=
        (given.taskPollIntervalSec.map fun n => .number n).or w.taskPollIntervalSec
      taskTimeoutSec := (given.taskTimeoutSec.map .number).or w.taskTimeoutSec })

/-- The worker block as it is saved: at least one restore and one second, no negative limit. -/
def clampWorker (wk : Option WorkerEntry) : Except Exn WorkerEntry :=
  match wk with
  | none => .error (.typeError "argument of type 'NoneType' is not iterable")
  | some w => do
    let restores ← w.maxConcurrentRestores.mapM WorkerValue.toInt
    let interval ← w.taskPollIntervalSec.mapM WorkerValue.toInt
    let timeout ← w.taskTimeoutSec.mapM WorkerValue.toFloat
    return {
      maxConcurrentRestores := restores.map fun n => .number (max 1 n)
      taskPollIntervalSec := interval.map fun n => .number (max 1 n)
      taskTimeoutSec := timeout.map fun q => .number (max 0 q) }

/-- The block `worker` with the fields of a body. -/
def putWorker (block : ConfigBlock WorkerEntry) (given : WorkerPartial) :
    Except Exn WorkerEntry := do
  let wk ← mergeWorker (block.opened {}) given
  clampWorker wk

/-- `value.replace(";", ",")`. -/
def commas (s : String) : String := String.ofList (s.toList.map fun c => if c = ';' then ',' else c)

/-- The value that is set for a field of the e-mail block: recipients in a text become a list. -/
def emailValue (key : String) : Json → Json
  | .str text =>
    if key = "to" then .arr ((splitRecipients (commas text)).map .str) else .str text
  | value => value

/-- A field of the e-mail block. Unlike the other secrets, the password is also set when its value
is `None`. -/
def mergeEmailField (em : Option Dict) (key : String) (value : Json) : Except Exn (Option Dict) :=
  if key = "password" then if keepsSecret value then .ok em else setItem em key value
  else if value.isNull then .ok em
  else setItem em key (emailValue key value)

/-- The loop of `put_credentials` over the fields of the e-mail block. -/
def mergeEmail (target : Option Dict) (given : Fields) : Except Exn (Option Dict) :=
  given.foldlM (fun em field => mergeEmailField em field.1 field.2) target

/-- The loop over the fields of the webhook. -/
def mergeWebhook : Option Dict → Fields → Except Exn (Option Dict) := mergePartial ["secret"]

/-- The loop over the fields of the events. -/
def mergeEvents : Option Dict → Fields → Except Exn (Option Dict) := mergePartial []

/-- `NotificationsPartial`. -/
structure NotificationsPartial where
  email : Option Fields := none
  webhook : Option Fields := none
  events : Option Fields := none

/-- `CredentialsPut`. -/
structure CredentialsPut where
  pbsServers : Option (List PBSServerModel) := none
  proxmox : Option Fields := none
  worker : Option WorkerPartial := none
  notifications : Option NotificationsPartial := none

/-- The secrets of the block `proxmox`. -/
def proxmoxSecrets : List String := ["api_token_secret", "password"]

/-- A block with the fields that a body has for it. -/
def putBlock (merge : Option Dict → Fields → Except Exn (Option Dict)) (block : ConfigBlock Dict)
    (given : Option Fields) : Except Exn (ConfigBlock Dict) :=
  match given with
  | none => .ok block
  | some fields => do
    let target ← merge (block.opened (Dict.ofFields [])) fields
    return some target

/-- The block `notifications` with the blocks that a body has for it. -/
def putNotifications (ncfg : Option NotificationsEntry) (given : NotificationsPartial) :
    Except Exn (Option NotificationsEntry) :=
  match ncfg with
  | none =>
    if given.email.isSome ∨ given.webhook.isSome ∨ given.events.isSome then
      .error (.typeError "'NoneType' object has no attribute 'setdefault'")
    else .ok none
  | some n => do
    let email ← putBlock mergeEmail n.email given.email
    let webhook ← putBlock mergeWebhook n.webhook given.webhook
    let events ← putBlock mergeEvents n.events given.events
    return some { email, webhook, events }

/-- **`put_credentials`**: what is saved, if it does not raise before. -/
def putCredentials (abc : Letters) (cfg : Settings) (body : CredentialsPut) :
    Except Exn Settings := do
  let sources := body.pbsServers.elim cfg.sources (putPbsServers abc cfg.sources)
  let proxmox ← putBlock (mergePartial proxmoxSecrets) cfg.proxmox body.proxmox
  let worker ← body.worker.elim (.ok cfg.worker) fun given =>
    (putWorker cfg.worker given).map fun wk => some (some wk)
  let notifications ← body.notifications.elim (.ok cfg.notifications) fun given =>
    (putNotifications (cfg.notifications.opened {}) given).map some
  return { cfg with sources, proxmox, worker, notifications }

/-- **`patch_worker`**: what is saved, and the block that is shown then. -/
def patchWorker (cfg : Settings) (body : WorkerPartial) : Except Exn (Settings × WorkerEntry) := do
  let wk ← putWorker cfg.worker body
  return ({ cfg with worker := some (some wk) }, wk)

end RestoreEngine
