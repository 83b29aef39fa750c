import Mathlib.Data.List.AList
import Mathlib.Data.List.Sort
import RestoreEngine.Effects.Program
import RestoreEngine.Model.Records

/-!
# `reports.py`: saving a report, command by command

`save_report` and `_trim_reports` as the API and the worker run them beside one another: every
command of Redis is a step of its own, and a pipeline, which is a transaction, is one step. The
records are keys of their own and the index is a sorted set, so that it is something to be proved
that a report is in both or in neither.
-/

namespace RestoreEngine.Reports

open Effects Program

/-- A member of a sorted set, with its score. -/
abbrev Entry : Type := Uuid × Instant

/-- How a sorted set is ordered: by the score, and by the member among equal scores. -/
def Entry.Upto (a b : Entry) : Prop := a.2 < b.2 ∨ a.2 = b.2 ∧ a.1 ≤ b.1

instance : DecidableRel Entry.Upto := fun a b =>
  inferInstanceAs (Decidable (a.2 < b.2 ∨ a.2 = b.2 ∧ a.1 ≤ b.1))

/-- The keys of the reports and their index. What the sorted set has ever received, in that order,
is kept beside them; no command reads it. -/
structure Store where
  records : AList fun _ : Uuid => Report
  index : List Entry
  saved : List Entry
  nextUuid : Uuid

/-- The commands that the pipelines are made of. -/
inductive Command
  | set (key : Uuid) (rep : Report)
  | zadd (member : Uuid) (score : Instant)
  | delete (key : Uuid)
  | zrem (member : Uuid)
  deriving DecidableEq

/-- What a command does to the store. -/
def Command.apply (s : Store) : Command → Store
  | set key rep => { s with records := s.records.insert key rep }
  | zadd member score =>
    { s with
      index := (s.index.filter (·.1 ≠ member)).orderedInsert Entry.Upto (member, score)
      saved := s.saved ++ [(member, score)] }
  | delete key => { s with records := s.records.erase key }
  | zrem member => { s with index := s.index.filter (·.1 ≠ member) }

/-- What a process issues. -/
inductive Op
  | uuid4
  | utcNow
  | execute (pipe : List Command)
  | zcard
  | zrange (start stop : ℕ)
  deriving DecidableEq

/-- The replies. -/
abbrev Op.Res : Op → Type
  | uuid4 => Uuid
  | utcNow => Instant
  | execute _ => Unit
  | zcard => ℕ
  | zrange _ _ => List Uuid

/-- The calls of `reports.py`. -/
abbrev commands : Signature := ⟨Op, Op.Res⟩

/-- How the store answers. Clocks of different processes need not agree: a reading of the clock may
be anything. -/
def environment : Environment commands Store Instant
  | .uuid4, _, s => some (s.nextUuid, { s with nextUuid := s.nextUuid + 1 })
  | .utcNow, now, s => some (now, s)
  | .execute pipe, _, s => some ((), pipe.foldl Command.apply s)
  | .zcard, _, s => some (s.index.length, s)
  | .zrange start stop, _, s => some (((s.index.take (stop + 1)).drop start).map (·.1), s)

/-- Issue one call. -/
abbrev issue (o : Op) : Program commands Unit o.Res := perform (S := commands) o

/-- The commands that delete the reports. -/
def deletions (ids : List Uuid) : List Command := ids.flatMap fun id => [.delete id, .zrem id]

/-- `report_retain_limit`. -/
def retainLimit (cfg : Config) : ℕ := max 1 cfg.reportRetain

/-- `_trim_reports`. -/
def trimReports (cfg : Config) : Program commands Unit Unit := do
  let limit := retainLimit cfg
  let total ← issue .zcard
  if total ≤ limit then return ()
  else do
    let removeCount := total - limit
    let oldest ← issue (.zrange 0 (removeCount - 1))
    if oldest = [] then return () else issue (.execute (deletions oldest))

/-- `save_report`. -/
def saveReport (cfg : Config) (planId : Uuid) (metadata : ReportMeta) :
    Program commands Unit Report := do
  let reportId ← issue .uuid4
  let rep : Report := { id := reportId, planId, metadata }
  let score ← issue .utcNow
  issue (.execute [.set reportId rep, .zadd reportId score])
  trimReports cfg
  return rep

end RestoreEngine.Reports
