import RestoreEngine.Model.Compliance
import RestoreEngine.Model.Readiness
import RestoreEngine.Texts.Markup

/-!
# `reports.py`: what a report says

A report on a readiness check or on a run of a plan is rendered twice, as Markdown and as a page of
HTML. `CheckData` and `RunData` are what `render_check_report` and `render_run_report` read of the
plan, the check and the run: texts as `str` gives them, empty where they are missing. What the
points in time of a run come to is an argument, `rto`.
-/

namespace RestoreEngine

open Markup

/-- What `render_check_report` and `render_run_report` return. -/
structure Rendered where
  title : String
  markdown : String
  html : String

/-- `v or default`, of texts. -/
def orText (v default : String) : String := if v = "" then default else v

/-- `_md_escape`. -/
def mdEscape (s : String) : String :=
  String.ofList (s.toList.flatMap fun c =>
    if c = '|' then ['\\', '|'] else if c = '\n' then [' '] else [c])

/-- `_html_page`. -/
def htmlPage (title bodyInner : String) : String :=
  String.join [
    "<!DOCTYPE html><html lang=\"en\"><head><meta charset=\"utf-8\"/>",
    "<title>", escape title, "</title>",
    "<style>",
    "body\x7bfont-family:ui-sans-serif,system-ui,sans-serif;margin:2rem;",
      "line-height:1.45;color:#111\x7d",
    "h1\x7bfont-size:1.35rem\x7dh2\x7bfont-size:1.1rem;margin-top:1.5rem\x7d",
    "table\x7bborder-collapse:collapse;width:100%;font-size:0.9rem\x7d",
    "th,td\x7bborder:1px solid #ccc;padding:0.4rem 0.55rem;text-align:left\x7d",
    "th\x7bbackground:#f4f4f4\x7d.ok\x7bcolor:#0a7\x7d .err\x7bcolor:#c33\x7d ",
      ".muted\x7bcolor:#666\x7d",
    "pre\x7bbackground:#f7f7f7;padding:0.75rem;overflow:auto\x7d",
    "</style></head><body>",
    bodyInner,
    "</body></html>"]

/-! ### Checks -/

/-- What is read of an item of a check. -/
structure ItemData where
  level : String := ""
  code : String := ""
  message : String := ""
  detail : String := ""

/-- What is read of a plan and its check. -/
structure CheckData where
  planName : String := ""
  planId : String := ""
  verification : String := ""
  ok : Bool
  checkedAt : String := ""
  cutoff : String := ""
  memberCount : ℤ := 0
  sizes : Option SizeSummary := none
  summary : String := ""
  items : List ItemData

namespace CheckData

variable (check : CheckData)

/-- `title`. -/
def title : String :=
  "Readiness check — " ++ orText (orText check.planName check.planId) "plan"

/-- `status`. -/
def status : String := if check.ok then "PASSED" else "FAILED"

end CheckData

/-- The net size that is told of a size summary. -/
def SizeSummary.net (sum : SizeSummary) : String :=
  if 0 < sum.estimated then
    "~" ++ formatBytes sum.nonzeroBytes ++ " approx net (" ++ toString sum.estimated ++ "/" ++
      toString (sum.estimated + sum.missing) ++ " estimated)"
  else "approx net unavailable"

/-- `_check_size_lines`: the lines for Markdown. -/
def sizeLines : Option SizeSummary → List String
  | none => []
  | some sum => ["- **Size (gross):** " ++ formatBytes sum.grossBytes,
      "- **Size (approx net):** " ++ sum.net]

/-- `_check_size_lines`: the lines for the page. -/
def sizeItems : Option SizeSummary → List String
  | none => []
  | some sum => ["<li>Size (gross): " ++ escape (formatBytes sum.grossBytes) ++ "</li>",
      "<li>Size (approx net): " ++ escape sum.net ++ "</li>"]

/-- The row of an item, in Markdown. -/
def ItemData.line (item : ItemData) : String :=
  "| " ++ mdEscape item.level ++ " | `" ++ mdEscape item.code ++ "` | " ++ mdEscape item.message ++
    " | " ++ mdEscape item.detail ++ " |"

/-- `cls` of an item. -/
def ItemData.cls (item : ItemData) : String :=
  if item.level = "error" then "err" else if item.level = "ok" then "ok" else "muted"

/-- The row of an item, in the page. -/
def ItemData.row (item : ItemData) : String :=
  String.join [
    "<tr>",
    "<td class=\"" ++ item.cls ++ "\">", escape item.level, "</td>",
    "<td><code>", escape item.code, "</code></td>",
    "<td>", escape item.message, "</td>",
    "<td class=\"muted\">", escape item.detail, "</td>",
    "</tr>"]

/-- The rows of a table, or else the one that says that there are none. -/
def rowsOr (rows : List String) (none : String) : String :=
  if String.join rows = "" then none else String.join rows

/-- The lines of the check in Markdown. -/
def CheckData.lines (check : CheckData) : List String :=
  ["# " ++ check.title,
    "",
    "- **Status:** " ++ check.status,
    "- **Plan ID:** `" ++ check.planId ++ "`",
    "- **Verification:** `" ++ check.verification ++ "`",
    "- **Checked at:** " ++ orText check.checkedAt "—",
    "- **Cutoff:** `" ++ orText check.cutoff "—" ++ "`",
    "- **Members resolved:** " ++ toString check.memberCount] ++
  sizeLines check.sizes ++
  ["- **Summary:** " ++ mdEscape check.summary,
    "",
    "## Check items",
    "",
    "| Level | Code | Message | Detail |",
    "| --- | --- | --- | --- |"] ++
  check.items.map ItemData.line

/-- The body of the page. -/
def CheckData.body (check : CheckData) : String :=
  String.join [
    "<h1>", escape check.title, "</h1>",
    "<p><strong>Status:</strong> ",
    "<span class=\"" ++ (if check.ok then "ok" else "err") ++ "\">", escape check.status,
      "</span></p>",
    "<ul>",
    "<li>Plan ID: <code>", escape check.planId, "</code></li>",
    "<li>Verification: <code>", escape check.verification, "</code></li>",
    "<li>Checked at: ", escape (orText check.checkedAt "—"), "</li>",
    "<li>Cutoff: <code>", escape (orText check.cutoff "—"), "</code></li>",
    "<li>Members resolved: ", toString check.memberCount, "</li>",
    String.join (sizeItems check.sizes),
    "<li>Summary: ", escape check.summary, "</li>",
    "</ul>",
    "<h2>Check items</h2>",
    "<table><thead><tr><th>Level</th><th>Code</th><th>Message</th><th>Detail</th></tr></thead>",
    "<tbody>",
      rowsOr (check.items.map ItemData.row)
        "<tr><td colspan=\"4\" class=\"muted\">No items</td></tr>",
    "</tbody></table>"]

/-- **`render_check_report`.** -/
def renderCheckReport (check : CheckData) : Rendered where
  title := check.title
  markdown := Text.join "\n" check.lines ++ "\n"
  html := htmlPage check.title check.body

/-! ### Runs -/

/-- What is read of a job of a run. -/
structure JobData where
  groupIndex : String := ""
  vmName : String := ""
  sourceVmid : Option ℤ := none
  proxmoxVmid : Option ℤ := none
  state : String := ""
  archive : String := ""
  backupId : String := ""
  error : String := ""

/-- What is read of a run and its plan. -/
structure RunData where
  planName : String := ""
  runPlanName : String := ""
  planId : String := ""
  id : String := ""
  drill : Bool := false
  status : String := ""
  locationName : String := ""
  locationId : String := ""
  nodes : List String := []
  node : String := ""
  storage : String := ""
  restoreMode : String := ""
  poweredOff : Bool := false
  powerOn : Bool := false
  qgaWaitSec : ℤ := 0
  liveRestore : Bool := false
  teardownStatus : String := ""
  autoTeardown : Bool := false
  cutoff : String := ""
  startedAt : String := ""
  finishedAt : String := ""
  completedJobs : ℤ := 0
  jobCount : ℤ := 0
  failedJobs : ℤ := 0
  error : String := ""
  jobs : List JobData := []

namespace RunData

variable (run : RunData)

/-- `title`. -/
def title : String :=
  (if run.drill then "Drill run — " else "Plan run — ") ++
    orText (orText (orText run.planName run.runPlanName) run.planId) "plan"

/-- The place of the run. -/
def location : String := orText run.locationName run.locationId

/-- The nodes of the run, joined. -/
def nodeNames : String :=
  let nodes := if run.nodes = [] then [run.node] else run.nodes
  Text.join ", " (nodes.filter (· ≠ ""))

/-- What is told of the teardown. -/
def teardown : String := orText run.teardownStatus (if run.autoTeardown then "auto" else "—")

/-- `yes` or `no`. -/
def yesNo (b : Bool) : String := if b then "yes" else "no"

/-- `drill` or `recovery`. -/
def kind : String := if run.drill then "drill" else "recovery"

end RunData

/-- A VMID as the page shows it. -/
def shownVmid (vmid : Option ℤ) : String :=
  match vmid.filter (· ≠ 0) with
  | some n => toString n
  | none => ""

namespace JobData

variable (job : JobData)

/-- `archive`. -/
def shownArchive : String := orText job.archive job.backupId

/-- The row of a job, in Markdown. -/
def line : String :=
  "| " ++ job.groupIndex ++ " | " ++ mdEscape job.vmName ++ " | " ++
    (job.sourceVmid.map toString).getD "" ++ " | " ++ (job.proxmoxVmid.map toString).getD "" ++
    " | " ++ mdEscape job.state ++ " | `" ++ mdEscape job.shownArchive ++ "` | " ++
    mdEscape job.error ++ " |"

/-- `cls` of a job. -/
def cls : String :=
  if job.state = "COMPLETED" then "ok" else if job.state = "FAILED" then "err" else "muted"

/-- The row of a job, in the page. -/
def row : String :=
  String.join [
    "<tr>",
    "<td>", escape job.groupIndex, "</td>",
    "<td>", escape job.vmName, "</td>",
    "<td>", escape (shownVmid job.sourceVmid), "</td>",
    "<td>", escape (shownVmid job.proxmoxVmid), "</td>",
    "<td class=\"" ++ job.cls ++ "\">", escape job.state, "</td>",
    "<td><code>", escape job.shownArchive, "</code></td>",
    "<td class=\"err\">", escape job.error, "</td>",
    "</tr>"]

end JobData

/-- The lines of the run in Markdown. -/
def RunData.lines (run : RunData) (rto : Option ℤ) : List String :=
  ["# " ++ run.title,
    "",
    "- **Status:** " ++ run.status,
    "- **Kind:** " ++ run.kind,
    "- **Run ID:** `" ++ run.id ++ "`",
    "- **Plan ID:** `" ++ run.planId ++ "`",
    "- **Location:** " ++ mdEscape run.location,
    "- **Nodes:** " ++ mdEscape run.nodeNames,
    "- **Storage:** `" ++ mdEscape run.storage ++ "`",
    "- **Restore mode:** `" ++ orText run.restoreMode "normal" ++ "`",
    "- **Powered off:** " ++ RunData.yesNo (run.poweredOff || run.drill && !run.powerOn ||
      !run.liveRestore && !run.powerOn),
    "- **Power on:** " ++ RunData.yesNo run.powerOn,
    "- **QGA wait:** " ++ toString run.qgaWaitSec ++ "s",
    "- **Live restore:** " ++ RunData.yesNo run.liveRestore,
    "- **Teardown:** " ++ mdEscape run.teardown,
    "- **Cutoff:** `" ++ orText run.cutoff "—" ++ "`",
    "- **Started:** " ++ orText run.startedAt "—",
    "- **Finished:** " ++ orText run.finishedAt "—",
    "- **Wall-clock RTO:** " ++ formatDuration rto,
    "- **Jobs:** " ++ toString run.completedJobs ++ "/" ++ toString run.jobCount ++ " completed" ++
      " (" ++ toString run.failedJobs ++ " failed)"] ++
  (if run.error = "" then [] else ["- **Error:** " ++ mdEscape run.error]) ++
  ["",
    "## Jobs",
    "",
    "| Group | VM | Source VMID | Target VMID | State | Archive / volid | Error |",
    "| --- | --- | --- | --- | --- | --- | --- |"] ++
  run.jobs.map JobData.line

/-- The body of the page. -/
def RunData.body (run : RunData) (rto : Option ℤ) : String :=
  String.join [
    "<h1>", escape run.title, "</h1>",
    "<p><strong>Status:</strong> ", escape run.status, "</p>",
    "<ul>",
    "<li>Run ID: <code>", escape run.id, "</code></li>",
    "<li>Kind: <code>", run.kind, "</code></li>",
    "<li>Plan ID: <code>", escape run.planId, "</code></li>",
    "<li>Location: ", escape run.location, "</li>",
    "<li>Nodes: ", escape run.nodeNames, "</li>",
    "<li>Storage: <code>", escape run.storage, "</code></li>",
    "<li>Restore mode: <code>", escape (orText run.restoreMode "normal"), "</code></li>",
    "<li>Powered off: ", RunData.yesNo (run.poweredOff || run.drill || !run.liveRestore), "</li>",
    "<li>Teardown: ", escape run.teardown, "</li>",
    "<li>Cutoff: <code>", escape (orText run.cutoff "—"), "</code></li>",
    "<li>Started: ", escape (orText run.startedAt "—"), "</li>",
    "<li>Finished: ", escape (orText run.finishedAt "—"), "</li>",
    "<li>Wall-clock RTO: <strong>", escape (formatDuration rto), "</strong></li>",
    "<li>Jobs: ", toString run.completedJobs, "/", toString run.jobCount, " completed (",
      toString run.failedJobs, " failed)</li>",
    (if run.error = "" then "" else
      String.join ["<li class=\"err\">Error: ", escape run.error, "</li>"]),
    "</ul>",
    "<h2>Jobs</h2>",
    "<table><thead><tr>",
    "<th>Group</th><th>VM</th><th>Source</th><th>Target</th><th>State</th><th>Archive</th>",
    "<th>Error</th>",
    "</tr></thead>",
    "<tbody>",
      rowsOr (run.jobs.map JobData.row) "<tr><td colspan=\"7\" class=\"muted\">No jobs</td></tr>",
    "</tbody></table>"]

/-- **`render_run_report`.** -/
def renderRunReport (run : RunData) (rto : Option ℤ) : Rendered where
  title := run.title
  markdown := Text.join "\n" (run.lines rto) ++ "\n"
  html := htmlPage run.title (run.body rto)

end RestoreEngine
