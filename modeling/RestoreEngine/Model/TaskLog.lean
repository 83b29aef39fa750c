import Mathlib.Data.List.Infix
import RestoreEngine.Model.PveClient

/-!
# `pve_client.py`: the log of a task

`fetch_task_log` reads a window of the log of a task, and `wait_for_task` threads the offset of
the next window through its polls. The loop is a function of what the polls find: `PveClient` has
the same loop as a program that is run against a world, where the lines of a log are whatever the
surroundings answer.
-/

namespace RestoreEngine

namespace TaskLog

/-- A row of a reply: a dictionary with a line number, if `int` reads one, and two texts, or a
text, or something else. -/
inductive Row
  | entry (n : Option ℤ) (t text : String)
  | line (text : String)
  | other

/-- `str.rstrip()`. -/
def rstrip (s : String) : String := String.ofList (s.toList.rdropWhile Text.isSpace)

/-- The line that a row contributes. -/
def Row.shown : Row → Option String
  | .entry _ t text => some (rstrip (if t = "" then text else t)) |>.filter (· ≠ "")
  | .line text => some (Text.strip text) |>.filter (· ≠ "")
  | .other => none

/-- The line number of a row. -/
def Row.number : Row → Option ℤ
  | .entry n _ _ => n
  | _ => none

/-- `fetch_task_log`: the lines, and the offset of the next window. The endpoint `get` is called
with `start` and `limit`; it gives no rows if it raises, or replies in another shape. -/
def fetchTaskLog (get : ℤ → ℤ → Option (List Row)) (start limit : ℤ) : List String × ℤ :=
  match get start limit with
  | none => ([], start)
  | some rows =>
    let lines := rows.filterMap Row.shown
    let maxN := (rows.filterMap Row.number).foldl max (start - 1)
    (lines, if maxN ≥ start then maxN + 1 else start + lines.length)

/-- What one round of `wait_for_task` finds: whether the deadline has passed, whether the job is to
be cancelled, the status of the task if the reply is a dictionary, and the log endpoint. -/
structure Poll where
  expired : Bool := false
  cancel : Bool := false
  status : Option TaskStatus
  get : ℤ → ℤ → Option (List Row)

/-- How `wait_for_task` ends. -/
inductive Outcome
  | waiting
  | timedOut
  | cancelled
  | returned
  | failed (text : String)
  deriving DecidableEq

/-- The task has stopped. -/
def Outcome.Stopped : Outcome → Prop
  | returned | failed _ => True
  | _ => False

/-- The loop of `wait_for_task` from an offset: the lines that each round hands to `on_tick`, and
how the loop ends. -/
def pollTask (logOffset : ℤ) : List Poll → List (List String) × Outcome
  | [] => ([], .waiting)
  | p :: polls =>
    if p.expired then ([], .timedOut)
    else if p.cancel then ([], .cancelled)
    else
      match p.status with
      | none => pollTask logOffset polls
      | some status =>
        let (newLines, logOffset) := fetchTaskLog p.get logOffset 80
        if Text.lower status.status = "stopped" then
          if status.exitstatus ≠ "" ∧ Text.lower status.exitstatus ≠ "ok" then
            ([newLines], .failed (explainPveTaskFailure status.exitstatus))
          else ([newLines], .returned)
        else
          let rest := pollTask logOffset polls
          (newLines :: rest.1, rest.2)

/-- `wait_for_task`. -/
def waitForTask (polls : List Poll) : List (List String) × Outcome := pollTask 0 polls

/-- The log endpoint of Proxmox: the lines from `start` on, at most `limit`, numbered from one. -/
def pveLog (log : List String) (start limit : ℤ) : Option (List Row) :=
  let window := (log.drop start.toNat).take limit.toNat
  some (window.mapIdx fun i t => .entry (some (start + i + 1)) t "")

end TaskLog

end RestoreEngine
