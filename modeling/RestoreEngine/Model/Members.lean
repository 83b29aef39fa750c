import RestoreEngine.Model.Api

/-!
# `plans.py`: the members of a plan

Which backups the groups of a plan come down to. `resolveGroupRows` picks, for one group, the
newest backup of every VMID among the group's sources and keeps the VMIDs that some selector of
the group matches. The tags of guests are part of the backups and are read from the cluster
beforehand, for the newest backup of every VMID among *all* sources (`tagCandidates`).

How a name matches a glob or a regular expression is left to Python's `fnmatch` and `re`, and what
the lower case of a tag or a source is to its tables. `Matching` stands for them.
-/

namespace RestoreEngine

open Effects Prog

/-- Python's matching of guest names, tags and sources. -/
structure Matching where
  /-- `fnmatch.fnmatchcase` on the case-folded name and pattern. -/
  glob : (pattern name : String) → Bool
  /-- `re.search` ignoring case; a pattern that does not compile matches nothing. -/
  search : (pattern name : String) → Bool
  /-- `re.compile` accepts the pattern. -/
  compiles : (pattern : String) → Bool
  /-- `str.lower`. -/
  lower : String → String

/-- A matching for groups that have no patterns, where all texts are in ASCII. -/
def Matching.unused : Matching where
  glob _ _ := false
  search _ _ := false
  compiles _ := true
  lower := Text.lower

/-! ### Selectors -/

/-- The pattern is a regular expression. -/
def isRegex (pattern : String) : Bool := Text.startsWith (Text.lower pattern) "re:"

/-- The part of a regular expression after `re:`. -/
def regexBody (pattern : String) : String := String.ofList (pattern.toList.drop 3)

/-- `guest_name_matches`. -/
def guestNameMatches (mt : Matching) (name : String) (patterns : List String) : Bool :=
  patterns.any fun raw =>
    let p := Text.strip raw
    if p = "" then false
    else if isRegex p then mt.search (regexBody p) name
    else mt.glob p name

/-- `vmid_in_ranges`. -/
def vmidInRanges (vmid : ℤ) (ranges : List VmidRange) : Bool :=
  ranges.any fun r => r.first ≤ vmid ∧ vmid ≤ r.last

/-- `normalize_vmid_ranges`, for ranges that are given by their ends. -/
def normalizeVmidRanges : List VmidRange → Except Exn (List VmidRange)
  | [] => .ok []
  | r :: rest =>
    let first := min r.first r.last
    let last := max r.first r.last
    if first < 0 then
      .error (.valueError s!"vmid range must be non-negative: {first}-{last}")
    else do
      let others ← normalizeVmidRanges rest
      return { first, last } :: others

/-- The tags of guests by backup id. -/
abbrev TagMap := List (String × List String)

/-- The tags of a backup, in lower case. -/
def rowTags (mt : Matching) (tags : TagMap) (row : Row) : List String :=
  ((tags.lookup row.backupId).getD []).map mt.lower

namespace Group

/-- `wanted_tags`. -/
def wantedTags (mt : Matching) (group : Group) : List String :=
  (group.tags.filter fun t => Text.strip t ≠ "").map mt.lower

/-- The backup has all the tags that the group asks for, if it asks for any. -/
def taggedBy (mt : Matching) (group : Group) (tags : TagMap) (row : Row) : Bool :=
  group.wantedTags mt ≠ [] ∧ ∀ t ∈ group.wantedTags mt, t ∈ rowTags mt tags row

/-- The name patterns that are not empty. -/
def patterns (raw : List String) : List String := (raw.map Text.strip).filter (· ≠ "")

/-- A selector other than the tags picks the backup. -/
def picks (mt : Matching) (group : Group) (row : Row) : Bool :=
  let vmid := row.vmid.getD 0
  decide (vmid ∈ group.vmids) ||
    -- ranges that cannot be read select nothing
    vmidInRanges vmid ((normalizeVmidRanges group.vmidRanges).toOption.getD []) ||
    guestNameMatches mt row.name (patterns group.namePatterns)

/-- The group leaves the backup out. -/
def excludes (mt : Matching) (group : Group) (row : Row) : Bool :=
  decide (row.vmid.getD 0 ∈ group.excludeVmids) ||
    guestNameMatches mt row.name (patterns group.excludeNamePatterns)

/-- The backup comes from a source of the group; a group that names none takes all. -/
def admits (mt : Matching) (group : Group) (row : Row) : Bool :=
  let sources := group.sourceIds.map mt.lower
  sources = [] ∨ mt.lower row.sourceId ∈ sources ∨ mt.lower row.sourceLabel ∈ sources

/-- `best`: the newest backup of every VMID at or before the cutoff, among the group's
sources. -/
def best (mt : Matching) (group : Group) (backups : List Row) (cutoff : String) : List Row :=
  latestPerVmid (backups.filter (group.admits mt)) cutoff

/-- The group selects the backup. -/
def selects (mt : Matching) (group : Group) (tags : TagMap) (row : Row) : Bool :=
  (group.picks mt row || group.taggedBy mt tags row) && !group.excludes mt row

end Group

/-- `int(row["vmid"])` of rows. -/
def requireVmids (rows : List Row) : Except Exn Unit :=
  if rows.all (·.vmid.isSome) then .ok () else .error (.keyError "'vmid'")

/-- **`resolve_group_rows`.** -/
def resolveGroupRows (mt : Matching) (group : Group) (backups : List Row) (cutoff : String)
    (tags : TagMap) : Except Exn (List Row) := do
  requireVmids (backups.filter fun row => group.admits mt row ∧ row.timestamp ≤ cutoff)
  return ((group.best mt backups cutoff).filter (group.selects mt tags)).mergeSort
    fun a b => a.vmid.getD 0 ≤ b.vmid.getD 0

/-! ### The rows of a plan -/

/-- The backups whose tags are read: the newest of every VMID at or before the cutoff. -/
def tagCandidates (backups : List Row) (cutoff : String) : Except Exn (List Row) := do
  requireVmids (backups.filter (·.timestamp ≤ cutoff))
  return latestPerVmid backups cutoff

/-- A probe, whose exception is raised. -/
def ask (p : Probe) : Prog p.Reply := issue (.probe p) >>= Program.ofExcept

/-- The loop that reads the groups of a plan; a missing one is an error. -/
def loadGroups (missing : Uuid → Exn) : List Uuid → Prog (List Group)
  | [] => return []
  | id :: rest => do
    match ← issue (.getGroup id) with
    | none => .raise (missing id)
    | some group => do
      let groups ← loadGroups missing rest
      return group :: groups

/-- Whether a group asks for tags. -/
def needTags (groups : List Group) : Bool := groups.any (·.tags ≠ [])

/-- `_resolve_plan_group_rows` of `main.py`. -/
def resolvePlanGroupRows (mt : Matching) (groupIds : List Uuid) (cutoff node : String) :
    Prog (List (List Row)) := do
  let backups ← ask .backups
  let groups ← loadGroups (fun id => badRequest s!"Missing group in plan: {id}") groupIds
  let tags ←
    if needTags groups then do
      let candidates ← Program.ofExcept (tagCandidates backups cutoff)
      Prod.fst <$> ask (.tags candidates node)
    else pure []
  Program.ofExcept (groups.mapM fun group => resolveGroupRows mt group backups cutoff tags)

/-- The node on which `_start_scheduled` has tags read. -/
def tagNode (location : Location) : String :=
  match (location.nodes.map Text.strip).find? (· ≠ "") with
  | some node => node
  | none => Text.strip location.node

/-- The tags that `_start_scheduled` has read. -/
def scheduledTags (backups : List Row) (cutoff : String) (location : Location) : Prog TagMap := do
  -- rows without a VMID are passed over here
  let candidates := latestPerVmid (backups.filter (·.vmid.isSome)) cutoff
  let node := tagNode location
  if node = "" then
    .raise (.runtimeError "Scheduled plan needs a location node to resolve guest tags")
  else if candidates = [] then return []
  else Prod.fst <$> ask (.tags candidates node)

/-- The rows of a scheduled start, as `_start_scheduled` of `worker.py` resolves them. -/
def resolveScheduledRows (mt : Matching) (groupIds : List Uuid) (cutoff : String)
    (location : Location) : Prog (List (List Row)) := do
  let backups ← ask .backups
  let groups ← loadGroups (fun id => .runtimeError s!"Missing group in plan: {id}") groupIds
  let tags ← if needTags groups then scheduledTags backups cutoff location else pure []
  Program.ofExcept (groups.mapM fun group => resolveGroupRows mt group backups cutoff tags)

/-- The programs by which the engine reads the inventory, the tags and the rows of a plan. -/
def readers (mt : Matching) : Readers where
  lower := mt.lower
  listVmBackups := ask .backups
  resolveTags rows node := Prod.fst <$> ask (.tags rows node)
  resolvePlanGroupRows := resolvePlanGroupRows mt
  resolveScheduledRows := resolveScheduledRows mt

end RestoreEngine
