import Mathlib.Data.List.AList
import Mathlib.Data.List.Infix
import RestoreEngine.Model.Records

/-!
# Listing the reports

`list_reports` reads the newest entries of the index, four times as many as are wanted, and then
looks which of them match. So it misses matching reports that come after too many others. It lists
the newest matching reports exactly if its window holds as many as are wanted, or no matching report
comes after the window (`listReports_newest_iff`).
-/

namespace RestoreEngine.Reports

/-! ### The listing -/

/-- A stored report, without its texts in Markdown and HTML, which are not listed. -/
structure SavedReport where
  id : String
  kind : String
  planId : String
  planName : String := ""
  title : String := ""
  createdAt : String := ""
  metadata : List (String × String) := []
  deriving DecidableEq

/-- The keys of the reports and their index: a sorted set, which holds every member once, ordered by
the scores, and by the members among equal scores. -/
structure Shelf where
  records : AList fun _ : String => SavedReport
  index : List (String × Instant)
  sorted : index.Pairwise fun a b => a.2 < b.2 ∨ a.2 = b.2 ∧ a.1 < b.1
  nodup : (index.map Prod.fst).Nodup

variable (s : Shelf)

/-- `get_report`. -/
def Shelf.getReport (id : String) : Option SavedReport := s.records.lookup id

/-- `zrevrange(index, 0, stop)`. -/
def Shelf.zrevrange (stop : ℕ) : List String := (s.index.reverse.map Prod.fst).take (stop + 1)

/-- The loop of `list_reports`. A filter that is absent or empty is none. -/
def collect (planId kind : Option String) (limit : ℕ) (out : List SavedReport) :
    List String → List SavedReport
  | [] => out
  | rid :: ids =>
    match s.getReport rid with
    | none => collect planId kind limit out ids
    | some data =>
      if planId.getD "" ≠ "" ∧ data.planId ≠ planId.getD "" then collect planId kind limit out ids
      else if kind.getD "" ≠ "" ∧ data.kind ≠ kind.getD "" then collect planId kind limit out ids
      else
        let out := out ++ [data]
        if limit ≤ out.length then out else collect planId kind limit out ids

/-- **`list_reports`.** -/
def listReports (planId kind : Option String) (limit : ℤ) : List SavedReport :=
  let limit := (max 1 (min 200 limit)).toNat
  collect s planId kind limit [] (s.zrevrange (max (limit * 4) limit - 1))

/-! ### The reports that match -/

/-- The report passes the filters. -/
def SavedReport.Matches (planId kind : Option String) (data : SavedReport) : Prop :=
  (planId.getD "" = "" ∨ data.planId = planId.getD "") ∧
    (kind.getD "" = "" ∨ data.kind = kind.getD "")

instance (planId kind : Option String) (data : SavedReport) :
    Decidable (data.Matches planId kind) := inferInstanceAs (Decidable (_ ∧ _))

/-- The report of an entry, if it is there and matches. -/
def Shelf.matching? (planId kind : Option String) (rid : String) : Option SavedReport :=
  (s.getReport rid).filter fun data => data.Matches planId kind

/-- The matching reports among these entries. -/
def Shelf.matchingAmong (planId kind : Option String) (ids : List String) : List SavedReport :=
  ids.filterMap (s.matching? planId kind)

/-- The matching reports, newest first. -/
def Shelf.newest (planId kind : Option String) : List SavedReport :=
  s.matchingAmong planId kind (s.index.reverse.map Prod.fst)

/-- The newest entries of the index, and the others. -/
def Shelf.recent (count : ℕ) : List String := (s.index.reverse.map Prod.fst).take count
def Shelf.older (count : ℕ) : List String := (s.index.reverse.map Prod.fst).drop count

section

variable {s} {planId kind : Option String} {limit : ℕ}

/-- The report of an entry. -/
theorem matching?_of_some {rid : String} {data : SavedReport} (h : s.getReport rid = some data) :
    s.matching? planId kind rid = if data.Matches planId kind then some data else none := by
  rw [Shelf.matching?, h, Option.filter_some]
  exact if_congr decide_eq_true_iff rfl rfl

theorem matchingAmong_append (ids ids' : List String) :
    s.matchingAmong planId kind (ids ++ ids') =
      s.matchingAmong planId kind ids ++ s.matchingAmong planId kind ids' :=
  List.filterMap_append

/-- **The loop collects the matching reports** up to the limit. -/
theorem collect_eq {out : List SavedReport} (h : out.length < limit) (ids : List String) :
    collect s planId kind limit out ids =
      (out ++ s.matchingAmong planId kind ids).take limit := by
  induction ids generalizing out with
  | nil =>
    rw [collect, Shelf.matchingAmong, List.filterMap_nil, List.append_nil,
      List.take_of_length_le (by omega)]
  | cons rid ids ih =>
    rw [collect, Shelf.matchingAmong]
    cases hdata : s.getReport rid with
    | none =>
      have hnone : s.matching? planId kind rid = none := by rw [Shelf.matching?, hdata]; rfl
      rw [List.filterMap_cons_none hnone]
      exact ih h
    | some data =>
      dsimp only
      by_cases hmatch : data.Matches planId kind
      · -- the report is listed
        have hkept : s.matching? planId kind rid = some data := by
          rw [matching?_of_some hdata, if_pos hmatch]
        rw [List.filterMap_cons_some hkept, if_neg fun hplan => hmatch.1.elim hplan.1 hplan.2,
          if_neg fun hkind => hmatch.2.elim hkind.1 hkind.2]
        have hlength : (out ++ [data]).length = out.length + 1 := List.length_append
        split_ifs with hfull
        · rw [List.append_cons out data (ids.filterMap _)]
          exact (List.take_left' (by omega)).symm
        · rw [ih (by omega), Shelf.matchingAmong, List.append_assoc, List.singleton_append]
      · have hdropped : s.matching? planId kind rid = none := by
          rw [matching?_of_some hdata, if_neg hmatch]
        rw [List.filterMap_cons_none hdropped]
        by_cases hplan : planId.getD "" ≠ "" ∧ data.planId ≠ planId.getD ""
        · rw [if_pos hplan]
          exact ih h
        · have hkind : kind.getD "" ≠ "" ∧ data.kind ≠ kind.getD "" := by
            by_contra hkind
            exact hmatch ⟨(not_and_or.mp hplan).imp not_not.mp not_not.mp,
              (not_and_or.mp hkind).imp not_not.mp not_not.mp⟩
          rw [if_neg hplan, if_pos hkind]
          exact ih h

end

/-- What is listed: the matching reports of the window, up to the limit. -/
theorem listReports_eq {planId kind : Option String} {limit : ℕ}
    (hlimit : 1 ≤ limit ∧ limit ≤ 200) : listReports s planId kind limit =
      (s.matchingAmong planId kind (s.recent (4 * limit))).take limit := by
  have hclamp : (max 1 (min 200 (limit : ℤ))).toNat = limit := by omega
  have hwindow : max (limit * 4) limit - 1 + 1 = 4 * limit := by omega
  rw [listReports, hclamp, collect_eq (by rw [List.length_nil]; omega), List.nil_append,
    Shelf.zrevrange, hwindow, Shelf.recent]

/-- **When the newest matching reports are listed.** -/
theorem listReports_newest_iff (s : Shelf) (planId kind : Option String) (limit : ℕ)
    (hlimit : 1 ≤ limit ∧ limit ≤ 200) :
    listReports s planId kind limit = (s.newest planId kind).take limit ↔
      limit ≤ (s.matchingAmong planId kind (s.recent (4 * limit))).length ∨
        s.matchingAmong planId kind (s.older (4 * limit)) = [] := by
  have hsplit : s.newest planId kind = s.matchingAmong planId kind (s.recent (4 * limit)) ++
      s.matchingAmong planId kind (s.older (4 * limit)) := by
    rw [← matchingAmong_append, Shelf.recent, Shelf.older, List.take_append_drop]
    rfl
  rw [listReports_eq s hlimit, hsplit]
  generalize s.matchingAmong planId kind (s.recent (4 * limit)) = found
  generalize s.matchingAmong planId kind (s.older (4 * limit)) = missed
  constructor
  · intro heq
    by_contra hneither
    obtain ⟨hshort, hmissed⟩ := not_or.mp hneither
    have hlength := congrArg List.length heq
    have hpos := List.length_pos_iff.mpr hmissed
    rw [List.length_take, List.length_take, List.length_append] at hlength
    omega
  · rintro (hfound | rfl)
    · rw [List.take_append_of_le_length hfound]
    · rw [List.append_nil]

/-- A window that holds the whole index misses nothing. -/
theorem listReports_of_short {s : Shelf} {planId kind : Option String} {limit : ℕ}
    (hlimit : 1 ≤ limit ∧ limit ≤ 200) (hshort : s.index.length ≤ 4 * limit) :
    listReports s planId kind limit = (s.newest planId kind).take limit := by
  have hall : s.recent (4 * limit) = s.index.reverse.map Prod.fst := by
    rw [Shelf.recent, List.take_of_length_le (by rwa [List.length_map, List.length_reverse])]
  rw [listReports_eq s hlimit, hall, Shelf.newest]

/-- A readiness check, and the runs after it. -/
def checkBeforeRuns : Shelf where
  records := ["b", "c", "d", "e"].foldl (fun records id =>
    records.insert id { id, kind := "run", planId := "p" })
      (AList.singleton "a" { id := "a", kind := "check", planId := "p" })
  index := [("a", 1), ("b", 2), ("c", 3), ("d", 4), ("e", 5)]
  sorted := by decide
  nodup := by decide

/-- Asked for one run, the listing holds the newest one. -/
theorem listReports_newest_run :
    listReports checkBeforeRuns (some "p") (some "run") 1 =
      (checkBeforeRuns.newest (some "p") (some "run")).take 1 :=
  (listReports_newest_iff checkBeforeRuns (some "p") (some "run") 1 (by decide)).mpr
    (.inl (by decide))

/-- **Asked for one check, the listing is empty**, although there is one: four newer runs fill the
window. -/
theorem listReports_misses_check :
    listReports checkBeforeRuns none (some "check") 1 = [] ∧
    (checkBeforeRuns.newest none (some "check")).take 1 =
      [{ id := "a", kind := "check", planId := "p" }] ∧
    listReports checkBeforeRuns none (some "check") 1 ≠
      (checkBeforeRuns.newest none (some "check")).take 1 := by
  have hlisted : listReports checkBeforeRuns none (some "check") 1 = [] := by decide
  have hnewest : (checkBeforeRuns.newest none (some "check")).take 1 =
      [{ id := "a", kind := "check", planId := "p" }] := by decide
  refine ⟨hlisted, hnewest, ?_⟩
  rw [hlisted, hnewest]
  exact (List.cons_ne_nil _ _).symm

end RestoreEngine.Reports
