import RestoreEngine.Model.Rendering

/-!
# What the page of a report shows

The page of a report is put together from texts of many places: names of plans, messages of
exceptions, names of guests. Whatever they are, the page is read as it was meant: it shows the
title, the points of the list and the cells of the table, each exactly as the text it was made from,
and no further points or cells (`check_page_shows`, `run_page_shows`). So no text can add a cell or
a point, and the items of a check or the jobs of a run can be read off the page.

The source puts a page together from pieces of text; the **chunks** here are what the pieces are
made of, one chunk for each.
-/

namespace RestoreEngine

open Markup

/-- **What a page shows**: its title, in the head and as a heading, the points of its list, and the
cells of its table. -/
structure Shows (page shown : String) (points cells : List String) : Prop where
  title : contents "title" page = [shown]
  heading : contents "h1" page = [shown]
  points : contents "li" page = points
  cells : contents "td" page = cells

/-! ### What fragments show -/

/-- **What fragments show**, whatever follows them. -/
private structure Lays (ps : List Fragment) (title heading points cells : List String) : Prop where
  title : Gives "title" ps title
  heading : Gives "h1" ps heading
  points : Gives "li" ps points
  cells : Gives "td" ps cells
  sound : ∀ p ∈ ps, p.Sound

private theorem Lays.append {ps qs : List Fragment} {t t' h h' p p' c c' : List String}
    (hps : Lays ps t h p c) (hqs : Lays qs t' h' p' c') :
    Lays (ps ++ qs) (t ++ t') (h ++ h') (p ++ p') (c ++ c') where
  title := hps.title.append hqs.title
  heading := hps.heading.append hqs.heading
  points := hps.points.append hqs.points
  cells := hps.cells.append hqs.cells
  sound q hq := (List.mem_append.mp hq).elim (hps.sound q) (hqs.sound q)

/-- One list of fragments after the other. -/
private theorem lays_flatMap {α : Type} {l : List α} {f : α → List Fragment} {p c : α → List String}
    (h : ∀ a ∈ l, Lays (f a) [] [] (p a) (c a)) :
    Lays (l.flatMap f) [] [] (l.flatMap p) (l.flatMap c) := by
  have hnil : l.flatMap (fun _ => ([] : List String)) = [] := by simp
  refine ⟨hnil ▸ gives_flatMap fun a ha => (h a ha).title,
    hnil ▸ gives_flatMap fun a ha => (h a ha).heading, gives_flatMap fun a ha => (h a ha).points,
    gives_flatMap fun a ha => (h a ha).cells, fun q hq => ?_⟩
  obtain ⟨a, ha, hq⟩ := List.mem_flatMap.mp hq
  exact (h a ha).sound q hq

/-- The page that the fragments make. -/
private theorem Lays.shows {ps : List Fragment} {title : String} {points cells : List String}
    (h : Lays ps [title] [title] points cells) : Shows (html ps) title points cells where
  title := h.title.contents h.sound
  heading := h.heading.contents h.sound
  points := h.points.contents h.sound
  cells := h.cells.contents h.sound

/-- The text of a number is plain. -/
private theorem repr_plain (n : ℤ) : '<' ∉ n.repr.toList ∧ '&' ∉ n.repr.toList := by
  have hdigits : ∀ k : ℕ, ∀ c ∈ (toString k).toList, c.isDigit = true := fun k c hc =>
    Nat.isDigit_of_mem_toDigits (by omega) (by omega) (Nat.toList_repr ▸ hc)
  have hmem : ∀ c ∈ n.repr.toList, c = '-' ∨ c.isDigit = true := by
    intro c hc
    cases n with
    | ofNat k => exact .inr (hdigits k c hc)
    | negSucc k =>
      have hneg : (Int.negSucc k).repr.toList = '-' :: (toString (k + 1)).toList := by
        simp [Int.repr]
      rw [hneg, List.mem_cons] at hc
      exact hc.imp_right (hdigits (k + 1) c)
  exact ⟨fun hlt => absurd (hmem _ hlt) (by decide), fun hamp => absurd (hmem _ hamp) (by decide)⟩

/-! ### Pages -/

/-- The chunks of a page before its body. -/
private def headChunks (title : String) : List (List Fragment) :=
  [[.tag "!DOCTYPE html", .tag "html lang=\"en\"", .tag "head", .tag "meta charset=\"utf-8\"/"],
    [.tag "title"], [.text title], [.tag "/title"], [.tag "style"],
    [.plain "body\x7bfont-family:ui-sans-serif,system-ui,sans-serif;margin:2rem;"],
    [.plain "line-height:1.45;color:#111\x7d"],
    [.plain "h1\x7bfont-size:1.35rem\x7dh2\x7bfont-size:1.1rem;margin-top:1.5rem\x7d"],
    [.plain "table\x7bborder-collapse:collapse;width:100%;font-size:0.9rem\x7d"],
    [.plain "th,td\x7bborder:1px solid #ccc;padding:0.4rem 0.55rem;text-align:left\x7d"],
    [.plain "th\x7bbackground:#f4f4f4\x7d.ok\x7bcolor:#0a7\x7d .err\x7bcolor:#c33\x7d "],
    [.plain ".muted\x7bcolor:#666\x7d"],
    [.plain "pre\x7bbackground:#f7f7f7;padding:0.75rem;overflow:auto\x7d"],
    [.tag "/style", .tag "/head", .tag "body"]]

/-- The chunks of a page. -/
private def pageChunks (title : String) (body : List Fragment) : List (List Fragment) :=
  headChunks title ++ [body, [.tag "/body", .tag "/html"]]

private theorem htmlPage_eq (title : String) (body : List Fragment) :
    htmlPage title (html body) = html (pageChunks title body).flatten := by
  rw [htmlPage, ← join_html, pageChunks, headChunks]
  -- piece by piece; what is left is between literals
  refine congrArg String.join ?_
  simp only [List.cons_append, List.nil_append, List.map_cons, List.map_nil, html_singleton,
    Fragment.html, List.cons.injEq, true_and, and_true]
  decide +kernel

private theorem headChunks_lays (title : String) :
    Lays (headChunks title).flatten [title] [] [] [] := by
  refine ⟨?_, ?_, ?_, ?_, by simp [headChunks, Fragment.Sound]⟩ <;> intro rest <;>
    simp [headChunks, gather, tagName]

/-- The fragments behind the rows of a table. -/
private def footParts : List Fragment := [.tag "/tbody", .tag "/table", .tag "/body", .tag "/html"]

private theorem footParts_lays : Lays footParts [] [] [] [] := by
  refine ⟨?_, ?_, ?_, ?_, by decide⟩ <;> intro rest <;> simp [footParts, gather, tagName]

/-- The fragments of a page with a table. -/
private def tablePage (title : String) (above : List (List Fragment)) (rows : List Fragment) :
    List Fragment :=
  (headChunks title).flatten ++ (above.flatten ++ (rows ++ footParts))

/-- The page of a body is written as its fragments. -/
private theorem htmlPage_table {title body : String} {above : List (List Fragment)}
    {rows : List Fragment}
    (hbody : body = html (above ++ [rows, [.tag "/tbody", .tag "/table"]]).flatten) :
    htmlPage title body = html (tablePage title above rows) := by
  rw [hbody, htmlPage_eq]
  congr 1
  simp [pageChunks, tablePage, footParts]

private theorem tablePage_shows {title : String} {above : List (List Fragment)}
    {rows : List Fragment} {points cells : List String}
    (habove : Lays above.flatten [] [title] points []) (hrows : Lays rows [] [] [] cells) :
    Shows (html (tablePage title above rows)) title points cells := by
  have hpage := (headChunks_lays title).append (habove.append (hrows.append footParts_lays))
  simp only [List.append_nil, List.nil_append] at hpage
  exact hpage.shows

/-! ### Tables -/

/-- A cell of a class is opened by one tag. -/
private theorem td_class (cls : String) :
    "<td class=\"" ++ cls ++ "\">" = "<" ++ ("td class=\"" ++ cls ++ "\"") ++ ">" := by
  rw [← String.toList_inj]
  simp

/-- The row that says that there are none. -/
private def emptyRow (columns told : String) : List Fragment :=
  [.tag "tr", .tag ("td colspan=\"" ++ columns ++ "\" class=\"muted\""), .plain told,
    .tag "/td", .tag "/tr"]

private theorem emptyRow_lays {columns told : String} (hcolumns : '>' ∉ columns.toList)
    (htold : '<' ∉ told.toList ∧ '&' ∉ told.toList) :
    Lays (emptyRow columns told) [] [] [] [told] := by
  refine ⟨?_, ?_, ?_, ?_, by simp [emptyRow, Fragment.Sound, hcolumns, htold]⟩ <;> intro rest <;>
    simp [emptyRow, gather, tagName]

/-- The fragments of the rows of a table. -/
private def tableParts {α : Type} (row : α → List Fragment) (l : List α) (empty : List Fragment) :
    List Fragment :=
  if l = [] then empty else l.flatMap row

section Tables

variable {α : Type} {row : α → List Fragment} {empty : List Fragment}

private theorem rowsOr_eq {text : α → String} (hrow : ∀ a, text a = html (row a))
    (hne : ∀ a, text a ≠ "") (l : List α) :
    rowsOr (l.map text) (html empty) = html (tableParts row l empty) := by
  have hjoin : String.join (l.map text) = html (l.flatMap row) := by
    induction l with
    | nil => rfl
    | cons a l ih =>
      rw [List.map_cons, String.join_cons, ih, hrow, List.flatMap_cons, html_append]
  rw [rowsOr, hjoin, tableParts]
  cases l with
  | nil => rfl
  | cons a l =>
    rw [if_neg, if_neg (List.cons_ne_nil a l)]
    -- a row is never empty
    intro hempty
    rw [List.flatMap_cons, html_append, ← hrow, String.append_eq_empty_iff] at hempty
    exact hne a hempty.1

private theorem tableParts_lays {out : α → List String} {none : List String}
    (hrow : ∀ a, Lays (row a) [] [] [] (out a)) (hnone : Lays empty [] [] [] none) (l : List α) :
    Lays (tableParts row l empty) [] [] [] (if l = [] then none else l.flatMap out) := by
  rw [tableParts]
  split_ifs
  · exact hnone
  · have hnil : l.flatMap (fun _ => ([] : List String)) = [] := by simp
    have hall := lays_flatMap (l := l) fun a _ => hrow a
    rwa [hnil] at hall

end Tables

/-! ### Lists of points -/

/-- A point of a list: a label and a value, which may be in an element of its own and may be put
there without being escaped. -/
private structure Point where
  label : String
  inside : Option String := none
  value : String
  escaped : Bool := true

namespace Point

/-- The value as a fragment. -/
private def part (pt : Point) : Fragment := if pt.escaped then .text pt.value else .plain pt.value

/-- The chunks of a point. -/
private def chunks (pt : Point) : List (List Fragment) :=
  match pt.inside with
  | none => [[.tag "li", .plain pt.label], [pt.part], [.tag "/li"]]
  | some name =>
    [[.tag "li", .plain pt.label, .tag name], [pt.part], [.tag ("/" ++ name), .tag "/li"]]

/-- What a point shows. -/
private def shown (pt : Point) : String := pt.label ++ pt.value

/-- The text is plain where it has to be, and the element is a known one. -/
private structure Proper (pt : Point) : Prop where
  label : '<' ∉ pt.label.toList ∧ '&' ∉ pt.label.toList
  inside : pt.inside ∈ [none, some "code", some "strong"]
  value : pt.escaped = false → '<' ∉ pt.value.toList ∧ '&' ∉ pt.value.toList

private theorem chunks_lays {pt : Point} (h : pt.Proper) :
    Lays pt.chunks.flatten [] [] [pt.shown] [] := by
  obtain ⟨label, inside, value, escaped⟩ := pt
  obtain ⟨hlabel, hinside, hvalue⟩ := h
  simp only [List.mem_cons, List.not_mem_nil, or_false] at hlabel hinside hvalue
  -- the value is escaped or plain, and stands in one of the elements or in none
  have hsound : ∀ p ∈ (chunks ⟨label, inside, value, escaped⟩).flatten, p.Sound := by
    cases escaped <;> rcases hinside with rfl | rfl | rfl <;>
      simp [chunks, part, Fragment.Sound, hlabel, hvalue]
  cases escaped <;> rcases hinside with rfl | rfl | rfl <;>
    refine ⟨?_, ?_, ?_, ?_, hsound⟩ <;> intro rest <;> simp [chunks, part, shown, gather, tagName]

private theorem flatten_flatMap (pts : List Point) :
    (pts.flatMap chunks).flatten = pts.flatMap fun pt => pt.chunks.flatten := by
  induction pts with
  | nil => rfl
  | cons pt pts ih => rw [List.flatMap_cons, List.flatten_append, ih, List.flatMap_cons]

private theorem proper_iff {pt : Point} : pt.Proper ↔
    ('<' ∉ pt.label.toList ∧ '&' ∉ pt.label.toList) ∧
      pt.inside ∈ [none, some "code", some "strong"] ∧
      (pt.escaped = false → '<' ∉ pt.value.toList ∧ '&' ∉ pt.value.toList) :=
  ⟨fun h => ⟨h.label, h.inside, h.value⟩, fun h => ⟨h.1, h.2.1, h.2.2⟩⟩

/-- The fragments of a list of points. -/
private theorem list_lays {pts : List Point} (h : ∀ pt ∈ pts, pt.Proper) :
    Lays (pts.flatMap chunks).flatten [] [] (pts.map shown) [] := by
  have hall := lays_flatMap fun pt hpt => chunks_lays (h pt hpt)
  have hnil : pts.flatMap (fun _ => ([] : List String)) = [] := by simp
  rw [hnil] at hall
  rw [flatten_flatMap, List.map_eq_flatMap]
  exact hall

end Point

/-! ### Checks -/

/-- The chunks of the row of an item. -/
private def ItemData.chunks (item : ItemData) : List (List Fragment) :=
  [[.tag "tr"], [.tag ("td class=\"" ++ item.cls ++ "\"")], [.text item.level], [.tag "/td"],
    [.tag "td", .tag "code"], [.text item.code], [.tag "/code", .tag "/td"],
    [.tag "td"], [.text item.message], [.tag "/td"],
    [.tag "td class=\"muted\""], [.text item.detail], [.tag "/td"], [.tag "/tr"]]

private theorem ItemData.row_eq (item : ItemData) : item.row = html item.chunks.flatten := by
  rw [row, ← join_html, chunks]
  refine congrArg String.join ?_
  simp only [List.map_cons, List.map_nil, html_singleton, Fragment.html, td_class, List.cons.injEq,
    true_and, and_true]
  decide +kernel

/-- The cells of an item. -/
def ItemData.cells (item : ItemData) : List String :=
  [item.level, item.code, item.message, item.detail]

private theorem ItemData.row_ne (item : ItemData) : item.row ≠ "" := by
  rw [row, String.join_cons]
  simp

private theorem ItemData.chunks_lays (item : ItemData) :
    Lays item.chunks.flatten [] [] [] item.cells := by
  have hcls : '>' ∉ item.cls.toList := by
    rw [cls]
    split_ifs <;> decide
  refine ⟨?_, ?_, ?_, ?_, by simp [chunks, Fragment.Sound, hcls]⟩ <;> intro rest <;>
    simp [chunks, cells, gather, tagName]

/-- The points on the sizes. -/
private def sizeList : Option SizeSummary → List Point
  | none => []
  | some sum => [{ label := "Size (gross): ", value := formatBytes sum.grossBytes },
      { label := "Size (approx net): ", value := sum.net }]

private theorem sizeItems_eq (sizes : Option SizeSummary) :
    String.join (sizeItems sizes) = html ((sizeList sizes).flatMap Point.chunks).flatten := by
  cases sizes with
  | none => rfl
  | some sum =>
    rw [← String.toList_inj]
    simp [sizeItems, sizeList, Point.chunks, Point.part, html_cons, html_nil, Fragment.html]

namespace CheckData

variable (check : CheckData)

/-- The points above those on the sizes. -/
private def upper : List Point :=
  [{ label := "Plan ID: ", inside := "code", value := check.planId },
    { label := "Verification: ", inside := "code", value := check.verification },
    { label := "Checked at: ", value := orText check.checkedAt "—" },
    { label := "Cutoff: ", inside := "code", value := orText check.cutoff "—" },
    { label := "Members resolved: ", value := toString check.memberCount, escaped := false }]

/-- The point below them. -/
private def lower : List Point := [{ label := "Summary: ", value := check.summary }]

/-- The chunks of a check above its points. -/
private def top : List (List Fragment) :=
  [[.tag "h1"], [.text check.title], [.tag "/h1"],
    [.tag "p", .tag "strong", .plain "Status:", .tag "/strong", .plain " "],
    [.tag ("span class=\"" ++ (if check.ok then "ok" else "err") ++ "\"")], [.text check.status],
    [.tag "/span", .tag "/p"],
    [.tag "ul"]]

/-- The chunks between the points of a check and its rows. -/
private def between : List (List Fragment) :=
  [[.tag "/ul"],
    [.tag "h2", .plain "Check items", .tag "/h2"],
    [.tag "table", .tag "thead", .tag "tr", .tag "th", .plain "Level", .tag "/th",
      .tag "th", .plain "Code", .tag "/th", .tag "th", .plain "Message", .tag "/th",
      .tag "th", .plain "Detail", .tag "/th", .tag "/tr", .tag "/thead"],
    [.tag "tbody"]]

/-- The chunks of a check above the rows. -/
private def above : List (List Fragment) :=
  check.top ++ (check.upper.flatMap Point.chunks ++
    ([((sizeList check.sizes).flatMap Point.chunks).flatten] ++
      (check.lower.flatMap Point.chunks ++ between)))

/-- What a size summary tells. -/
def sizePoints : Option SizeSummary → List String
  | none => []
  | some sum => ["Size (gross): " ++ formatBytes sum.grossBytes,
      "Size (approx net): " ++ sum.net]

/-- **The points of a check.** -/
def points : List String :=
  ["Plan ID: " ++ check.planId, "Verification: " ++ check.verification,
    "Checked at: " ++ orText check.checkedAt "—", "Cutoff: " ++ orText check.cutoff "—",
    "Members resolved: " ++ toString check.memberCount] ++
  sizePoints check.sizes ++ ["Summary: " ++ check.summary]

private theorem top_lays : Lays check.top.flatten [] [check.title] [] [] := by
  have hsound : ∀ p ∈ check.top.flatten, p.Sound := by
    cases hok : check.ok <;> simp [top, hok, Fragment.Sound]
  refine ⟨?_, ?_, ?_, ?_, hsound⟩ <;> intro rest <;> simp [top, gather, tagName]

private theorem between_lays : Lays between.flatten [] [] [] [] := by
  refine ⟨?_, ?_, ?_, ?_, by decide⟩ <;> intro rest <;> simp [between, gather, tagName]

private theorem above_lays : Lays check.above.flatten [] [check.title] check.points [] := by
  have hupper : ∀ pt ∈ check.upper, pt.Proper := by
    simp [upper, Point.proper_iff, repr_plain]
  have hsizes : ∀ pt ∈ sizeList check.sizes, pt.Proper := by
    cases check.sizes <;> simp [sizeList, Point.proper_iff]
  have hlower : ∀ pt ∈ check.lower, pt.Proper := by
    simp [lower, Point.proper_iff]
  have hpoints : check.points = check.upper.map Point.shown ++
      ((sizeList check.sizes).map Point.shown ++ check.lower.map Point.shown) := by
    cases hsizes : check.sizes <;> simp [points, upper, lower, sizeList, sizePoints, hsizes,
      Point.shown]
  have hall := check.top_lays.append ((Point.list_lays hupper).append
    ((Point.list_lays hsizes).append ((Point.list_lays hlower).append between_lays)))
  simp only [List.nil_append, List.append_nil] at hall
  rw [hpoints, above]
  simp only [List.flatten_append, List.flatten_singleton]
  exact hall

/-- The fragments of the rows of a check. -/
private def rows : List Fragment :=
  tableParts (fun item => item.chunks.flatten) check.items (emptyRow "4" "No items")

/-- **The cells of a check**: four for each item. -/
def cells : List String :=
  if check.items = [] then ["No items"] else check.items.flatMap ItemData.cells

private theorem rows_lays : Lays check.rows [] [] [] check.cells :=
  tableParts_lays ItemData.chunks_lays (emptyRow_lays (by decide) (by decide)) check.items

private theorem body_eq :
    check.body = html (check.above ++ [check.rows, [.tag "/tbody", .tag "/table"]]).flatten := by
  have hempty : "<tr><td colspan=\"4\" class=\"muted\">No items</td></tr>" =
      html (emptyRow "4" "No items") := by decide +kernel
  have hspan : ∀ c : String, "<span class=\"" ++ c ++ "\">" =
      "<" ++ ("span class=\"" ++ c ++ "\"") ++ ">" := by
    intro c
    rw [← String.toList_inj]
    simp
  rw [← join_html (check.above ++ _), body, hempty, rowsOr_eq ItemData.row_eq ItemData.row_ne,
    ← rows, sizeItems_eq, above, top, upper, lower,
    between]
  refine congrArg String.join ?_
  simp only [List.cons_append, List.nil_append, List.append_nil, List.map_cons, List.map_nil,
    List.flatMap_cons, List.flatMap_nil, Point.chunks, Point.part, if_true, Bool.false_eq_true,
    if_false, html_singleton, Fragment.html, hspan, List.cons.injEq, true_and, and_true]
  decide +kernel

end CheckData

/-- **The page of a check shows the check.** -/
theorem check_page_shows (check : CheckData) :
    Shows (renderCheckReport check).html check.title check.points check.cells := by
  have hpage : (renderCheckReport check).html = htmlPage check.title check.body := rfl
  rw [hpage, htmlPage_table check.body_eq]
  exact tablePage_shows check.above_lays check.rows_lays

/-! ### Runs -/

namespace JobData

variable (job : JobData)

/-- The chunks of the row of a job. -/
private def chunks : List (List Fragment) :=
  [[.tag "tr"], [.tag "td"], [.text job.groupIndex], [.tag "/td"],
    [.tag "td"], [.text job.vmName], [.tag "/td"],
    [.tag "td"], [.text (shownVmid job.sourceVmid)], [.tag "/td"],
    [.tag "td"], [.text (shownVmid job.proxmoxVmid)], [.tag "/td"],
    [.tag ("td class=\"" ++ job.cls ++ "\"")], [.text job.state], [.tag "/td"],
    [.tag "td", .tag "code"], [.text job.shownArchive], [.tag "/code", .tag "/td"],
    [.tag "td class=\"err\""], [.text job.error], [.tag "/td"], [.tag "/tr"]]

private theorem row_eq : job.row = html job.chunks.flatten := by
  rw [row, ← join_html, chunks]
  refine congrArg String.join ?_
  simp only [List.map_cons, List.map_nil, html_singleton, Fragment.html, td_class, List.cons.injEq,
    true_and, and_true]
  decide +kernel

private theorem row_ne : job.row ≠ "" := by
  rw [row, String.join_cons]
  simp

/-- The cells of a job. -/
def cells : List String :=
  [job.groupIndex, job.vmName, shownVmid job.sourceVmid, shownVmid job.proxmoxVmid, job.state,
    job.shownArchive, job.error]

private theorem chunks_lays : Lays job.chunks.flatten [] [] [] job.cells := by
  have hcls : '>' ∉ job.cls.toList := by
    rw [cls]
    split_ifs <;> decide
  refine ⟨?_, ?_, ?_, ?_, by simp [chunks, Fragment.Sound, hcls]⟩ <;> intro rest <;>
    simp [chunks, cells, gather, tagName]

end JobData

namespace RunData

variable (run : RunData) (rto : Option ℤ)

/-- The chunks of the point on the error. -/
private def errorChunks : List (List Fragment) :=
  if run.error = "" then []
  else [[.tag "li class=\"err\"", .plain "Error: "], [.text run.error], [.tag "/li"]]

private theorem errorChunks_eq :
    (if run.error = "" then "" else
      String.join ["<li class=\"err\">Error: ", escape run.error, "</li>"]) =
    html run.errorChunks.flatten := by
  rw [errorChunks]
  split_ifs
  · rfl
  · rw [← join_html]
    refine congrArg String.join ?_
    simp only [List.map_cons, List.map_nil, html_singleton, Fragment.html, List.cons.injEq,
      true_and,
      and_true]
    decide +kernel

/-- The points of a run but for the jobs and the error. -/
private def upper : List Point :=
  [{ label := "Run ID: ", inside := "code", value := run.id },
    { label := "Kind: ", inside := "code", value := run.kind, escaped := false },
    { label := "Plan ID: ", inside := "code", value := run.planId },
    { label := "Location: ", value := run.location },
    { label := "Nodes: ", value := run.nodeNames },
    { label := "Storage: ", inside := "code", value := run.storage },
    { label := "Restore mode: ", inside := "code", value := orText run.restoreMode "normal" },
    { label := "Powered off: ",
      value := yesNo (run.poweredOff || run.drill || !run.liveRestore), escaped := false },
    { label := "Teardown: ", value := run.teardown },
    { label := "Cutoff: ", inside := "code", value := orText run.cutoff "—" },
    { label := "Started: ", value := orText run.startedAt "—" },
    { label := "Finished: ", value := orText run.finishedAt "—" },
    { label := "Wall-clock RTO: ", inside := "strong", value := formatDuration rto }]

/-- The chunks of a run above its points. -/
private def top : List (List Fragment) :=
  [[.tag "h1"], [.text run.title], [.tag "/h1"],
    [.tag "p", .tag "strong", .plain "Status:", .tag "/strong", .plain " "], [.text run.status],
    [.tag "/p"],
    [.tag "ul"]]

/-- The chunks of the point on the jobs. -/
private def jobsChunks : List (List Fragment) :=
  [[.tag "li", .plain "Jobs: "], [.plain (toString run.completedJobs)], [.plain "/"],
    [.plain (toString run.jobCount)], [.plain " completed ("], [.plain (toString run.failedJobs)],
    [.plain " failed)", .tag "/li"]]

/-- The chunks between the points of a run and its rows. -/
private def between : List (List Fragment) :=
  [[.tag "/ul"],
    [.tag "h2", .plain "Jobs", .tag "/h2"],
    [.tag "table", .tag "thead", .tag "tr"],
    [.tag "th", .plain "Group", .tag "/th", .tag "th", .plain "VM", .tag "/th",
      .tag "th", .plain "Source", .tag "/th", .tag "th", .plain "Target", .tag "/th",
      .tag "th", .plain "State", .tag "/th", .tag "th", .plain "Archive", .tag "/th"],
    [.tag "th", .plain "Error", .tag "/th"],
    [.tag "/tr", .tag "/thead"],
    [.tag "tbody"]]

/-- The chunks of a run above the rows. -/
private def above : List (List Fragment) :=
  run.top ++ ((run.upper rto).flatMap Point.chunks ++
    (run.jobsChunks ++ ([run.errorChunks.flatten] ++ between)))

/-- The point on the jobs of a run. -/
def jobsPoint : String :=
  "Jobs: " ++ toString run.completedJobs ++ "/" ++ toString run.jobCount ++ " completed (" ++
    toString run.failedJobs ++ " failed)"

/-- The point on the error of a run, if there is one. -/
def errorPoints : List String := if run.error = "" then [] else ["Error: " ++ run.error]

/-- **The points of a run.** -/
def points : List String :=
  ["Run ID: " ++ run.id, "Kind: " ++ run.kind, "Plan ID: " ++ run.planId,
    "Location: " ++ run.location, "Nodes: " ++ run.nodeNames, "Storage: " ++ run.storage,
    "Restore mode: " ++ orText run.restoreMode "normal",
    "Powered off: " ++ yesNo (run.poweredOff || run.drill || !run.liveRestore),
    "Teardown: " ++ run.teardown, "Cutoff: " ++ orText run.cutoff "—",
    "Started: " ++ orText run.startedAt "—", "Finished: " ++ orText run.finishedAt "—",
    "Wall-clock RTO: " ++ formatDuration rto, run.jobsPoint] ++ run.errorPoints

private theorem top_lays : Lays run.top.flatten [] [run.title] [] [] := by
  refine ⟨?_, ?_, ?_, ?_, by simp [top, Fragment.Sound]⟩ <;> intro rest <;>
    simp [top, gather, tagName]

private theorem between_lays : Lays between.flatten [] [] [] [] := by
  refine ⟨?_, ?_, ?_, ?_, by decide⟩ <;> intro rest <;> simp [between, gather, tagName]

private theorem upper_lays :
    Lays ((run.upper rto).flatMap Point.chunks).flatten [] [] ((run.upper rto).map Point.shown)
      [] := by
  have hkind : '<' ∉ run.kind.toList ∧ '&' ∉ run.kind.toList := by
    rw [kind]
    split_ifs <;> decide
  have hoff : ∀ b, '<' ∉ (yesNo b).toList ∧ '&' ∉ (yesNo b).toList := by decide
  refine Point.list_lays ?_
  simp [upper, Point.proper_iff, hkind, hoff]

private theorem jobsChunks_lays : Lays run.jobsChunks.flatten [] [] [run.jobsPoint] [] := by
  refine ⟨?_, ?_, ?_, ?_, by simp [jobsChunks, Fragment.Sound, repr_plain]⟩ <;> intro rest <;>
    simp [jobsChunks, jobsPoint, gather, tagName, String.append_assoc]

private theorem errorChunks_lays : Lays run.errorChunks.flatten [] [] run.errorPoints [] := by
  rw [errorChunks, errorPoints]
  split_ifs <;> refine ⟨?_, ?_, ?_, ?_, by simp [Fragment.Sound]⟩ <;> intro rest <;>
    simp [gather, tagName]

private theorem above_lays :
    Lays (run.above rto).flatten [] [run.title] (run.points rto) [] := by
  have hpoints : run.points rto = (run.upper rto).map Point.shown ++
      ([run.jobsPoint] ++ run.errorPoints) := by
    simp [points, upper, Point.shown]
  have hall := run.top_lays.append ((run.upper_lays rto).append
    (run.jobsChunks_lays.append (run.errorChunks_lays.append between_lays)))
  simp only [List.nil_append, List.append_nil] at hall
  rw [hpoints, above]
  simp only [List.flatten_append, List.flatten_singleton]
  exact hall

/-- The fragments of the rows of a run. -/
private def rows : List Fragment :=
  tableParts (fun job => job.chunks.flatten) run.jobs (emptyRow "7" "No jobs")

/-- **The cells of a run**: seven for each job. -/
def cells : List String :=
  if run.jobs = [] then ["No jobs"] else run.jobs.flatMap JobData.cells

private theorem rows_lays : Lays run.rows [] [] [] run.cells :=
  tableParts_lays JobData.chunks_lays (emptyRow_lays (by decide) (by decide)) run.jobs

private theorem body_eq : run.body rto =
    html (run.above rto ++ [run.rows, [.tag "/tbody", .tag "/table"]]).flatten := by
  have hempty : "<tr><td colspan=\"7\" class=\"muted\">No jobs</td></tr>" =
      html (emptyRow "7" "No jobs") := by decide +kernel
  rw [← join_html (run.above rto ++ _), body, hempty,
    rowsOr_eq JobData.row_eq JobData.row_ne, ← rows, errorChunks_eq, above, top, upper,
    jobsChunks, between]
  refine congrArg String.join ?_
  simp only [List.cons_append, List.nil_append, List.append_nil, List.map_cons, List.map_nil,
    List.flatMap_cons, List.flatMap_nil, Point.chunks, Point.part, if_true, Bool.false_eq_true,
    if_false, html_singleton, Fragment.html, List.cons.injEq, true_and, and_true]
  decide +kernel

end RunData

/-- **The page of a run shows the run.** -/
theorem run_page_shows (run : RunData) (rto : Option ℤ) :
    Shows (renderRunReport run rto).html run.title (run.points rto) run.cells := by
  have hpage : (renderRunReport run rto).html = htmlPage run.title (run.body rto) := rfl
  rw [hpage, htmlPage_table (run.body_eq rto)]
  exact tablePage_shows (run.above_lays rto) run.rows_lays

end RestoreEngine
