import Mathlib.Logic.Function.Basic
import RestoreEngine.Lists.Unseen
import RestoreEngine.Model.Members

/-!
# The tags of backups and their cache

`parse_tags` reads the tags of a guest from the text of its configuration. The tags of a backup are
kept in Redis, joined to one text: `_resolve_tags` of `main.py` and `_resolve_tags_cached` of
`plans.py` store them, and both of them and `list_backups` split the text again.

The programs are about a world that holds the cache. Which configuration is read, and whether it can
be read, is up to the surroundings. How Python makes a text lower case (`lower`) is left open.
-/

namespace RestoreEngine.Tags

open Effects

/-! ### The line of the tags -/

/-- `_normalize_config_newlines`. -/
def normalizeConfigNewlines : List Char → List Char
  | [] => []
  | '\r' :: '\n' :: rest => '\n' :: normalizeConfigNewlines rest
  | c :: rest => (if c = '\r' then '\n' else c) :: normalizeConfigNewlines rest

/-- The small letter as which an expression that ignores case takes a character. Four characters
outside ASCII count as ASCII letters. -/
def foldCase (c : Char) : Char :=
  if c = Char.ofNat 0x212a then 'k'
  else if c = Char.ofNat 0x130 ∨ c = Char.ofNat 0x131 then 'i'
  else if c = Char.ofNat 0x17f then 's'
  else c.toLower

/-- The text starts with a word in small letters, whatever case it is in itself. -/
def startsWithWord (word : String) (text : List Char) : Bool :=
  word.toList.isPrefixOf (text.map foldCase)

/-- What `_TAGS_LINE_RE` captures, searched for from here on. -/
def tagsLine : (lineStart : Bool) → List Char → Option (List Char)
  | _, [] => none
  | lineStart, c :: rest =>
    if lineStart && startsWithWord "tags:" (c :: rest) then
      -- the spaces may go over several lines
      some (((rest.drop 4).dropWhile Text.isSpace).takeWhile (· ≠ '\n'))
    else tagsLine (c == '\n') rest

/-- The keys of `_TAG_BLEED_KEY_RE`. -/
def bleedKeys : List String :=
  ["vmgenid", "uuid", "name", "cores", "memory", "ostype", "boot", "scsihw", "meta", "description",
    "parent", "digest", "lock", "hookscript", "agent", "balloon", "bios", "bootdisk", "cicustom",
    "cipassword", "citype", "hotplug", "hugepages", "ivshmem", "keyboard", "kvm", "localtime",
    "machine", "numa", "onboot", "protection", "reboot", "searchdomain", "serial", "shares",
    "smbios", "sockets", "startdate", "startup", "tablet", "tdf", "template", "vcpus", "vga",
    "vmstate", "watchdog", "cpu", "efidisk", "tpmstate", "cloudinit"]

/-- `_TAG_BLEED_KEY_RE` matches here: spaces, a key, maybe spaces, and a colon. -/
def bleedsHere : List Char → Bool
  | [] => false
  | c :: rest =>
    let ahead := rest.dropWhile Text.isSpace
    Text.isSpace c && bleedKeys.any fun key =>
      startsWithWord key ahead && ((ahead.drop key.length).dropWhile Text.isSpace).head? == some ':'

/-- Where `_TAG_BLEED_KEY_RE` matches first. -/
def bleedStart : List Char → Option ℕ
  | [] => none
  | c :: rest => if bleedsHere (c :: rest) then some 0 else (bleedStart rest).map (· + 1)

/-! ### The tags -/

/-- `re.split` at runs of separators. -/
def splitRuns (sep : Char → Bool) : (inRun : Bool) → List Char → List (List Char)
  | _, [] => [[]]
  | inRun, c :: rest =>
    if sep c then (if inRun then splitRuns sep true rest else [] :: splitRuns sep true rest)
    else (splitRuns sep false rest).modifyHead (c :: ·)

/-- `[;,]`. -/
def isSeparator (c : Char) : Bool := c == ';' || c == ','

/-- `_sanitize_tag_token`. -/
def sanitizeTagToken (lower : String → String) (tag : String) : Option String :=
  let tag := Text.strip tag
  if tag = "" then none
  else if looksLikeConfigKey tag then none
  else if Text.startsWith (lower tag) "vmgenid:" then none
  else if looksLikeUuid tag then none
  else some tag

/-- The text of the tags. Where the next key of the configuration follows it on the line, it is cut
off. -/
def rawTags (found : List Char) : List Char :=
  let raw := (Text.strip (String.ofList found)).toList
  match bleedStart (' ' :: raw) with
  | none => raw
  | some start => (Text.strip (String.ofList (raw.take (start - 1)))).toList

/-- **`parse_tags`.** -/
def parseTags (lower : String → String) (configText : String) : List String :=
  match tagsLine true (normalizeConfigNewlines configText.toList) with
  | none => []
  | some found =>
    let parts := (splitRuns isSeparator false (rawTags found)).map String.ofList
    Lists.keepUnseen lower [] (parts.filterMap (sanitizeTagToken lower))

/-- `[t for t in cached.split(";") if t]`. -/
def splitCached (cached : String) : List String := (Text.split cached ';').filter (· ≠ "")

/-! ### The cache -/

/-- The calls by which tags are resolved. -/
inductive TagOp
  /-- Redis `GET` of the cache key of an archive. -/
  | getCached (volid : String)
  /-- Redis `SET` of the key to the tags, joined with semicolons. -/
  | setCached (volid : String) (tags : List String)
  | connectProxmox
  | extractVmConfig (node volid : String)

/-- The replies. -/
def TagOp.Res : TagOp → Type
  | getCached _ => Option String
  | setCached _ _ => Unit
  | connectProxmox => Except Exn Unit
  | extractVmConfig _ _ => Except Exn String

abbrev tagSig : Signature := ⟨TagOp, TagOp.Res⟩

abbrev TagProg : Type → Type := Program tagSig Exn

/-- A call that resolves tags. -/
def tagCall (o : TagOp) : TagProg o.Res := Program.perform (S := tagSig) o

/-- The cache, and the lists that its texts were made from. Nothing reads the lists. -/
structure TagWorld where
  cache : String → Option String := fun _ => none
  stored : String → Option (List String) := fun _ => none

/-- The world after a list was stored. -/
def TagWorld.set (w : TagWorld) (volid : String) (tags : List String) : TagWorld where
  cache := Function.update w.cache volid (some (Text.join ";" tags))
  stored := Function.update w.stored volid (some tags)

/-- What Proxmox answers. -/
structure Replies where
  connect : Except Exn Unit
  config : (node volid : String) → Except Exn String

/-- How the world answers, with replies of Proxmox that `A` admits. -/
def tagEnv (A : Replies → Prop) : Environment tagSig TagWorld {px : Replies // A px}
  | .getCached volid, _, w => some (w.cache volid, w)
  | .setCached volid tags, _, w => some ((), w.set volid tags)
  | .connectProxmox, px, w => some (px.val.connect, w)
  | .extractVmConfig node volid, px, w => some (px.val.config node volid, w)

/-! ### Resolving -/

/-- Tags and errors by backup id. An entry hides those behind it. -/
abbrev Found := TagMap × List (String × String)

/-- **`_resolve_tags_cached`**, with what was found so far. -/
def resolveTagsCached (lower : String → String) (node : String) : List Row → Found → TagProg Found
  | [], found => return found
  | row :: rows, (result, errors) =>
    match archivePath row.pveStorage row.voltail with
    | .error exc => resolveTagsCached lower node rows (result, (row.backupId, exc.text) :: errors)
    | .ok volid => do
      match ← tagCall (.getCached volid) with
      | some cached =>
        resolveTagsCached lower node rows ((row.backupId, splitCached cached) :: result, errors)
      | none =>
        match ← tagCall (.extractVmConfig node volid) with
        | .error exc =>
          resolveTagsCached lower node rows (result, (row.backupId, exc.text) :: errors)
        | .ok text => do
          let tags := parseTags lower text
          tagCall (.setCached volid tags)
          resolveTagsCached lower node rows ((row.backupId, tags) :: result, errors)

/-- The first loop of `_resolve_tags`: what is cached, and the rows that are to be read. -/
def lookUpTags (force : Bool) : List Row → TagMap → List (Row × String) →
    TagProg (TagMap × List (Row × String))
  | [], result, pending => return (result, pending)
  | row :: rows, result, pending =>
    match archivePath row.pveStorage row.voltail with
    | .error exc => .raise exc
    | .ok volid =>
      if force then lookUpTags force rows result (pending ++ [(row, volid)])
      else do
        match ← tagCall (.getCached volid) with
        | some cached =>
          lookUpTags force rows ((row.backupId, splitCached cached) :: result) pending
        | none => lookUpTags force rows result (pending ++ [(row, volid)])

/-- The second loop of `_resolve_tags`. The rows are read side by side; what comes of it is taken in
their order. An exception without a text goes for success. -/
def fetchTags (lower : String → String) (node : String) : List (Row × String) → Found →
    TagProg Found
  | [], found => return found
  | (row, volid) :: pending, (result, errors) => do
    let fetched ← tagCall (.extractVmConfig node volid)
    let tags := match fetched with | .ok text => parseTags lower text | .error _ => []
    let err := match fetched with | .ok _ => "" | .error exc => exc.text
    if err ≠ "" then fetchTags lower node pending (result, (row.backupId, err) :: errors)
    else do
      tagCall (.setCached volid tags)
      fetchTags lower node pending ((row.backupId, tags) :: result, errors)

/-- **`_resolve_tags`.** -/
def resolveTags (lower : String → String) (node : String) (force : Bool) (rows : List Row) :
    TagProg Found := do
  let (result, pending) ← lookUpTags force rows [] []
  if pending = [] then return (result, [])
  else do
    let connected ← tagCall .connectProxmox
    Program.ofExcept connected
    fetchTags lower node pending (result, [])

/-- The tags that `list_backups` attaches to the rows: those in the cache. After a row for which it
cannot name an archive it attaches none. -/
def attachTags : List Row → TagProg (List (Option (List String)))
  | [] => return []
  | row :: rows =>
    match archivePath row.pveStorage row.voltail with
    | .error _ => return List.replicate (rows.length + 1) none
    | .ok volid => do
      let cached ← tagCall (.getCached volid)
      let others ← attachTags rows
      return cached.map splitCached :: others

/-- A call of one of the three functions. -/
inductive TagCall
  | resolveTags (node : String) (force : Bool) (rows : List Row)
  | resolveTagsCached (node : String) (rows : List Row)
  | listBackups (rows : List Row)

/-- The program of a call. -/
def TagCall.program (lower : String → String) : TagCall → TagProg Unit
  | resolveTags node force rows => do let _ ← Tags.resolveTags lower node force rows
  | resolveTagsCached node rows => do let _ ← Tags.resolveTagsCached lower node rows ([], [])
  | listBackups rows => do let _ ← attachTags rows

end RestoreEngine.Tags
