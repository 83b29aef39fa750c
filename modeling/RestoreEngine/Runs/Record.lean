import RestoreEngine.Protocols.Rules
import RestoreEngine.Runs.Settling
import RestoreEngine.Runs.Ticks

/-!
# The record of a run and its writers

What the programs may do to one run, the run `R`, as a protocol. A program knows of the run the
record that it last read or wrote, the states of jobs that it has seen, and the jobs of the run
that it has made (`RunView`). The records that it may write are edits of the one that it holds
(`RunView.Edit`): one for each way in which `plans.py` changes the stage of a run. It makes jobs of
the run only for a group whose turn it is in the record that it holds.

Nothing here says that the record that a program holds is the one that is stored. What goes wrong
when it is not is the subject of the modules that use the protocol.
-/

namespace RestoreEngine

open Effects Prog Program

/-! ### Stages -/

/-- What decides how a run goes on. -/
structure Stage where
  status : PlanRunStatus
  haltOnError : Bool
  jobIdsByGroup : List (List Uuid)
  pendingGroupRows : Option (List (List Row))
  currentGroupIndex : ℕ

namespace PlanRun

/-- The stage of a run. -/
def stage (run : PlanRun) : Stage :=
  { status := run.status
    haltOnError := run.haltOnError
    jobIdsByGroup := run.jobIdsByGroup
    pendingGroupRows := run.pendingGroupRows
    currentGroupIndex := run.currentGroupIndex }

theorem Settles.stage_eq {run run' : PlanRun} (h : run.Settles run') : run'.stage = run.stage := by
  simp only [stage, h.status, h.haltOnError, h.jobIdsByGroup, h.pendingGroupRows,
    h.currentGroupIndex]

/-- A record without jobs and without rows, as `start_plan_run` first stores it. -/
structure IsNew (run : PlanRun) : Prop where
  status : run.status = .RUNNING
  jobs : ∀ k, run.jobsAt k = []
  rows : run.pendingGroupRows = none

end PlanRun

/-! ### Jobs made for a run -/

/-- A job made for a run: the index of its group, its id, and its backup. -/
structure Made where
  group : Option ℕ
  id : Uuid
  backupId : String
  deriving DecidableEq

/-- The job that a command makes for the run `R`. -/
def Op.madeFor (R : Uuid) : Op → Option Made
  | hset id f =>
    let job := f 0 {}
    if job.planRunId = some R then some ⟨job.planGroupIndex, id, job.backupId.getD ""⟩ else none
  | _ => none

/-- The jobs are those of the group at `k`, one for each row. -/
structure MadeOf (made : List Made) (k : ℕ) (rows : List Row) (ids : List Uuid) : Prop where
  ids : made.map (·.id) = ids
  backups : made.map (·.backupId) = rows.map (·.backupId)
  group : ∀ e ∈ made, e.group = some k

/-! ### Views -/

/-- What a program knows of the run `R`. -/
structure RunView where
  /-- The rows with which the program starts the run, if it does. -/
  rows : List (List Row) := []
  /-- The program never reads the record. -/
  blind : Bool := false
  /-- The program never reads the record while it has jobs of the run in hand. -/
  careful : Bool := false
  /-- The program has made the identifier of the run. -/
  owns : Bool := false
  /-- The record that the program last read or wrote. -/
  held : Option PlanRun := none
  /-- The program has stashed the rows and not read the run since. -/
  closed : Bool := false
  /-- The states of jobs that the program has read. -/
  seen : List (Uuid × RestoreState) := []
  /-- The jobs of the run that the program has in hand: made, but not recorded yet. -/
  made : List Made := []
  /-- The jobs that it had in hand when it read the record: it will not record them. -/
  lost : List Made := []
  /-- All jobs of the run that the program has made. -/
  log : List Made := []
  /-- The job of the run that the program is about to push to the queue. -/
  making : Option Uuid := none
  /-- The jobs of the run that the program has pushed to the queue. -/
  pushed : List Uuid := []

namespace RunView

/-- The states are ones that the program has seen of the jobs. -/
def Saw (m : RunView) (ids : List Uuid) (states : List RestoreState) : Prop :=
  List.Forall₂ (fun id s => (id, s) ∈ m.seen) ids states

/-- The rows of the group at `k`: the ones that are stashed in the record, or before that the ones
with which the run is started. -/
def rowsAt (m : RunView) (h : PlanRun) (k : ℕ) : List Row :=
  match h.pendingGroupRows with
  | none => m.rows.getD k []
  | some _ => h.rowsAt k

/-- The record `run` follows on the record `h` in one of the ways in which `plans.py` changes the
stage of a run. -/
inductive Edit (m : RunView) (h run : PlanRun) : Prop
  | settle (hmade : m.made = []) (hstage : run.stage = h.stage)
  /-- `start_plan_run` records the jobs of the first group. -/
  | first (ids : List Uuid) (howns : m.owns = true) (hstatus : h.status = .RUNNING)
      (hnone : h.pendingGroupRows = none) (hlt : h.currentGroupIndex < h.jobIdsByGroup.length)
      (hjobs : ∀ k, h.jobsAt k = [])
      (hmade : MadeOf m.made h.currentGroupIndex (m.rows.getD h.currentGroupIndex []) ids)
      (hstage : run.stage =
        { h.stage with jobIdsByGroup := h.jobIdsByGroup.set h.currentGroupIndex ids })
  /-- `start_plan_run` stashes the rows. -/
  | stash (hmade : m.made = []) (howns : m.owns = true) (hstatus : h.status = .RUNNING)
      (hnone : h.pendingGroupRows = none) (hlength : m.rows.length = h.jobIdsByGroup.length)
      (hempty : ∀ k < h.currentGroupIndex, m.rows.getD k [] = [])
      (hrows : m.rows.getD h.currentGroupIndex [] ≠ [])
      (hlog : MadeOf m.log h.currentGroupIndex (m.rows.getD h.currentGroupIndex [])
        (h.jobsAt h.currentGroupIndex))
      (hothers : ∀ k, k ≠ h.currentGroupIndex → h.jobsAt k = [])
      (hstage : run.stage = { h.stage with pendingGroupRows := some m.rows })
  /-- A tick records the jobs of a group. -/
  | enqueue (k : ℕ) (ids : List Uuid) (hstatus : h.status = .RUNNING)
      (hnext : h.IsNext h.currentGroupIndex k) (hjobs : h.jobsAt k = [])
      (hmade : MadeOf m.made k (h.rowsAt k) ids)
      (hstage : run.stage =
        { h.stage with jobIdsByGroup := h.jobIdsByGroup.set k ids, currentGroupIndex := k })
  /-- A tick passes a group that has ended, with the states that it has seen. -/
  | pass (k next : ℕ) (states : List RestoreState) (hmade : m.made = [])
      (hstatus : h.status = .RUNNING) (hnext : h.IsNext h.currentGroupIndex k)
      (hjobs : h.jobsAt k ≠ []) (hsaw : m.Saw (h.jobsAt k) states)
      (hall : states.all (·.IsTerminal) = true) (houtcome : h.outcome k states = .inr next)
      (hstage : run.stage = { h.stage with currentGroupIndex := next })
  /-- A tick ends the run after a group that has ended. -/
  | finish (k : ℕ) (states : List RestoreState) (ended : PlanRun) (hmade : m.made = [])
      (hstatus : h.status = .RUNNING) (hnext : h.IsNext h.currentGroupIndex k)
      (hjobs : h.jobsAt k ≠ []) (hsaw : m.Saw (h.jobsAt k) states)
      (hall : states.all (·.IsTerminal) = true) (houtcome : h.outcome k states = .inl ended)
      (hstage : run.stage = ended.stage)
  /-- A tick finds no group left. -/
  | complete (k : ℕ) (hmade : m.made = []) (hstatus : h.status = .RUNNING)
      (hout : h.RunsOut h.currentGroupIndex)
      (hstage : run.stage = { h.stage with status := .COMPLETED, currentGroupIndex := k })
  /-- `cancel_plan_run`. -/
  | cancel (hmade : m.made = []) (hstatus : h.status = .RUNNING)
      (hstage : run.stage = { h.stage with status := .CANCELLED, pendingGroupRows := some [] })

/-- The program may store the record. -/
def MayWrite (m : RunView) (run : PlanRun) : Prop :=
  m.closed = false ∧
    match m.held with
    | none => m.owns = true ∧ m.made = [] ∧ run.IsNew
    | some h => m.Edit h run

/-- The program may make the job, as the next one of the group at `k`. -/
structure MayMake (m : RunView) (e : Made) (h : PlanRun) (k : ℕ) : Prop where
  held : m.held = some h
  status : h.status = .RUNNING
  group : e.group = some k
  same : ∀ e' ∈ m.made, e'.group = some k
  jobs : h.jobsAt k = []
  backups : List.IsPrefix ((m.made ++ [e]).map (·.backupId)) ((m.rowsAt h k).map (·.backupId))
  first : h.pendingGroupRows = none → m.owns = true ∧ k = h.currentGroupIndex
  next : h.pendingGroupRows ≠ none → h.IsNext h.currentGroupIndex k

/-- The program makes a job of the run. -/
def make (m : RunView) (e : Made) : RunView :=
  { m with made := m.made ++ [e], log := m.log ++ [e], making := some e.id }

/-- The record that the program stores is the one with the rows. -/
def closes (m : RunView) (run : PlanRun) : Bool :=
  m.held.any (·.pendingGroupRows.isNone) && run.pendingGroupRows.isSome &&
    decide (run.status = .RUNNING)

/-- The program stores the record. -/
def write (m : RunView) (run : PlanRun) : RunView :=
  { m with held := some run, made := [], closed := m.closes run }

/-- The program reads the record. -/
def read (m : RunView) (run : PlanRun) : RunView :=
  { m with held := some run, closed := false, lost := m.lost ++ m.made, made := [] }

end RunView

/-- **The protocol of the run `R`.** -/
def runProtocol (R : Uuid) : Protocol commands RunView where
  observe m o r :=
    match o, r with
    | .uuid4, (id : Uuid) => { m with owns := m.owns || decide (id = R), making := none }
    | .getRun id, (some run : Option PlanRun) => if id = R then m.read run else m
    | .setRun run, _ => if run.id = R then m.write run else m
    | .hgetall id, (job : Option Job) =>
      { m with seen := (id, (job.getD {}).stateOrPending) :: m.seen }
    | .hset id f, _ =>
      match (Op.hset id f).madeFor R with
      | some e => m.make e
      | none => m
    | .rpush id, _ => if m.making = some id then { m with pushed := m.pushed ++ [id] } else m
    | _, _ => m
  Permits m
    | .getRun id => id = R → m.blind = false ∧ (m.careful = true → m.made = [])
    | .setRun run => run.id = R → m.MayWrite run
    | .hset id f => ∀ e, (Op.hset id f).madeFor R = some e → ∃ h k, m.MayMake e h k
    | .rpush id => m.making = some id → ∃ h, m.held = some h ∧ h.status = .RUNNING
    | _ => True

section observations

variable {R : Uuid} {m : RunView} {run h : PlanRun}

theorem observe_setRun (hid : run.id = R) (r : Op.Res (.setRun run)) :
    (runProtocol R).observe m (.setRun run) r = m.write run := if_pos hid

theorem observe_setRun_ne (hid : run.id ≠ R) (r : Op.Res (.setRun run)) :
    (runProtocol R).observe m (.setRun run) r = m := if_neg hid

theorem observe_getRun :
    (runProtocol R).observe m (.getRun R) (some run : Option PlanRun) = m.read run := if_pos rfl

theorem observe_getRun_ne {id : Uuid} (hid : id ≠ R) (r : Option PlanRun) :
    (runProtocol R).observe m (.getRun id) r = m := by
  cases r with
  | none => rfl
  | some run => exact if_neg hid

theorem observe_hset {id : Uuid} {f : Instant → Job → Job} {e : Made}
    (he : (Op.hset id f).madeFor R = some e) (r : Op.Res (.hset id f)) :
    (runProtocol R).observe m (.hset id f) r = m.make e := by
  change (match (Op.hset id f).madeFor R with | some e => _ | none => m) = _
  rw [he]

theorem observe_hset_none {id : Uuid} {f : Instant → Job → Job}
    (hnone : (Op.hset id f).madeFor R = none) (r : Op.Res (.hset id f)) :
    (runProtocol R).observe m (.hset id f) r = m := by
  change (match (Op.hset id f).madeFor R with | some e => _ | none => m) = m
  rw [hnone]

theorem observe_rpush {id : Uuid} (r : Op.Res (.rpush id)) :
    ∃ pushed, (runProtocol R).observe m (.rpush id) r = { m with pushed } := by
  change ∃ pushed, (if m.making = some id then _ else m) = { m with pushed }
  split_ifs
  · exact ⟨_, rfl⟩
  · exact ⟨m.pushed, rfl⟩

/-- A record with the rows that the held one has, or without, does not stash them. -/
theorem RunView.closes_of_same (hheld : m.held = some h)
    (hrows : run.pendingGroupRows = h.pendingGroupRows) : m.closes run = false := by
  rw [RunView.closes, hheld, hrows]
  change (h.pendingGroupRows.isNone && h.pendingGroupRows.isSome && _) = false
  cases h.pendingGroupRows <;> rfl

theorem RunView.closes_of_ended (hstatus : run.status ≠ .RUNNING) : m.closes run = false := by
  rw [RunView.closes, decide_eq_false hstatus, Bool.and_false]

end observations

/-- Replies that the store gives: runs are stored under their own ids, and the run does not
disappear. -/
def GenuineRun (R : Uuid) (m : RunView) : (o : Op) → o.Res → Prop
  | .getRun id, (some run : Option PlanRun) => run.id = id
  | .getRun id, (none : Option PlanRun) => id = R → m.held = none
  | _, _ => True

end RestoreEngine
