import RestoreEngine.Model.Schedule
import RestoreEngine.Model.Sources
import RestoreEngine.Time.IsoFormat

/-!
# `pbs_client.py` and `pbs_wire.py`: backups and their ids

`listSourceBackups` turns what a PBS server answers about the snapshots of a source into rows. A
row is known by its backup id, which is put together from the source, the guest and the time of
the snapshot; `parseJobBackupRef` takes a backup id apart again.
-/

namespace RestoreEngine

/-! ### Values of an answer -/

/-- A value in an answer of a PBS server. -/
inductive Value
  | null
  | number (n : ℤ)
  | text (s : String)
  deriving DecidableEq

namespace Value

/-- `int(value)`, if that is possible. -/
def toInt? : Value → Option ℤ
  | null => none
  | number n => some n
  | text s => Text.parseInt s

/-- `value or default`. -/
def orElse (value other : Value) : Value :=
  match value with
  | null | number 0 | text "" => other
  | value => value

/-- `str(value or "")`. -/
def textOrEmpty : Value → String
  | null | number 0 => ""
  | number n => toString n
  | text s => s

end Value

/-- An entry of the list of snapshots. Both spellings of a key stand for one field. -/
structure SnapshotEntry where
  backupType : String := ""
  backupId : String := ""
  vmid : Value := .null
  backupTime : Value := .null
  size : Value := .null
  comment : String := ""
  hostname : String := ""
  deriving DecidableEq

/-! ### Listing -/

/-- The first and the last second that a `datetime` can have. -/
def firstSecond : ℤ := -62135596800

def lastSecond : ℤ := 253402300799

/-- `strftime("%Y-%m-%dT%H:%M:%SZ")` of a second. Years are not filled up with zeros. -/
def secondText (sec : ℤ) : String :=
  let (year, month, day) := civilDate (sec / 86400)
  let inDay := (sec % 86400).toNat
  s!"{year}-{padded 2 month}-{padded 2 day}T" ++
    s!"{padded 2 (inDay / 3600)}:{padded 2 (inDay / 60 % 60)}:{padded 2 (inDay % 60)}Z"

/-- `_epoch_to_iso_z`. -/
def epochToIsoZ (value : Value) : Except Exn String :=
  match value.toInt? with
  | none => .ok value.textOrEmpty
  | some epoch =>
    if firstSecond ≤ epoch ∧ epoch ≤ lastSecond then .ok (secondText epoch)
    else .error (.valueError s!"year {(civilDate (epoch / 86400)).1} is out of range")

/-- `backup_id`. -/
def makeBackupId (sourceId voltail : String) : String := s!"{sourceId}|{voltail}"

/-- `voltail`. -/
def makeVoltail (vmid : ℤ) (isoTime : String) : String := s!"vm/{vmid}/{isoTime}"

/-- The row of a snapshot, unless it is passed over. -/
def snapshotRow (source : Source) (entry : SnapshotEntry) : Except Exn (Option Row) :=
  let rawId := Text.strip entry.backupId
  if Text.lower entry.backupType ≠ "vm" ∨ rawId = "" then .ok none
  else match (entry.vmid.orElse (.text rawId)).toInt? with
    | none => .ok none
    | some vmid => do
      let isoTime ← epochToIsoZ entry.backupTime
      if isoTime = "" then return none
      else
        let name := if entry.comment = "" then entry.hostname else entry.comment
        return some
          { backupId := makeBackupId source.sourceId (makeVoltail vmid isoTime)
            vmid := some vmid
            name := if name = "" then s!"vm-{vmid}" else name
            timestamp := isoTime
            pveStorage := source.pveStorage
            voltail := makeVoltail vmid isoTime
            sourceId := source.sourceId
            sourceLabel := source.label
            sizeBytes := max 0 (entry.size.toInt?.getD 0) }

/-- **`_list_source_backups`**, from the answer of the server on. -/
def listSourceBackups (source : Source) : List SnapshotEntry → Except Exn (List Row)
  | [] => .ok []
  | entry :: rest => do
    let row ← snapshotRow source entry
    let rows ← listSourceBackups source rest
    return row.toList ++ rows

/-! ### Taking backup ids apart -/

/-- `repr` of a text without quotes and backslashes. -/
def quoted (s : String) : String := "'" ++ s ++ "'"

/-- `iso[:-1] + "+00:00"` for a text that ends with `Z`. -/
def withOffset (iso : List Char) : List Char :=
  if iso.getLast? = some 'Z' then iso.dropLast ++ "+00:00".toList else iso

/-- **`parse_job_backup_ref`.** -/
def parseJobBackupRef (backupId : String) : Except Exn (String × String × ℤ) :=
  let raw := (Text.strip backupId).toList
  if '|' ∉ raw then
    .error (.valueError ("backup_id missing source|voltail separator: " ++ quoted backupId))
  else
    let sourceId := Text.strip (String.ofList (raw.takeWhile (· ≠ '|')))
    let voltail := String.ofList (raw.dropWhile (· ≠ '|')).tail
    match (Text.split (stripSlashes (Text.strip voltail)) '/').filter (· ≠ "") with
    | kind :: pbsBackupId :: iso :: _ =>
      if Text.lower kind ≠ "vm" then
        .error (.valueError ("unexpected voltail in backup_id: " ++ quoted voltail))
      else
        let iso := withOffset iso.toList
        match Time.fromIsoformat iso with
        | none => .error (.valueError ("Invalid isoformat string: " ++ quoted (String.ofList iso)))
        | some time => .ok (sourceId, pbsBackupId, time.timestamp)
    | _ => .error (.valueError ("unexpected voltail in backup_id: " ++ quoted voltail))

/-- `fidx_usage_cache_key`. -/
def fidxUsageCacheKey (sourceId pbsBackupId : String) (backupTime : ℤ) : String :=
  s!"restore:fidxusage:{sourceId}|{pbsBackupId}|{backupTime}"

/-- The cache key of a backup id, as `estimate_fidx_usage_cached` makes it. -/
def fidxCacheKey (backupId : String) : Except Exn String := do
  let (sourceId, pbsBackupId, epoch) ← parseJobBackupRef backupId
  return fidxUsageCacheKey sourceId pbsBackupId epoch

example : parseJobBackupRef "main/idrija4tb/root|vm/109/2026-08-07T09:06:06Z" =
    .ok ("main/idrija4tb/root", "109", 1786093566) := by decide +kernel

end RestoreEngine
