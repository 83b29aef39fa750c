import RestoreEngine.Enqueue.Cases
import RestoreEngine.Runs.FailedStart
import RestoreEngine.Runs.Turns

/-!
# A run that is under way

A run is started, and from then on the ticks of a worker advance it, while all kinds of other
things happen in between (`Underway`); they may end the run, but nobody else changes the record of
a RUNNING run. Such a run goes by what it was started with: its record keeps the terms of the
location and the rows of all groups, and lists as many jobs for a group as the group has rows
(`Underway.stands`).

What may happen in between is further restricted by `Between`, and the choices that the world makes
during starts and ticks by `A`.
-/

namespace RestoreEngine

open Effects Prog Program

variable {cfg : Config} {A : Op → Answer → Bool} {w w' : World} {run : PlanRun} {idx : ℕ}
  {starter : Starter} {plan : Plan} {location : Location} {groupRows : List (List Row)}
  {opts : StartOptions} {Between : World → World → Prop} {R : Uuid}

/-! ### Runs under way -/

/-- With what a run is started. -/
structure Commission where
  starter : Starter
  plan : Plan
  location : Location
  groupRows : List (List Row)
  opts : StartOptions

/-- The program that starts the run. -/
def Commission.program (c : Commission) : Prog PlanRun :=
  startPlanRun c.starter.enqueueFn c.plan c.location c.groupRows c.opts

/-- **A run under way**: worlds that it comes to. -/
inductive Underway (cfg : Config) (A : Op → Answer → Bool) (Between : World → World → Prop)
    (c : Commission) : Uuid → World → Prop
  | start {w w' : World} {run : PlanRun}
      (hends : Ends (environment.restrict A) c.program w (.ok run) w') :
    Underway cfg A Between c run.id w'
  | other {R : Uuid} {w w' : World} (h : Underway cfg A Between c R w) (hbetween : Between w w')
      (hrun : ∀ run, w'.run R = some run → run.status = .RUNNING → w.run R = some run) :
    Underway cfg A Between c R w'
  | tick {R : Uuid} {w w' : World} {out : Except Exn Bool} (h : Underway cfg A Between c R w)
      (hends : Ends (environment.restrict A) (advanceRun cfg enqueueRestores R) w out w') :
    Underway cfg A Between c R w'

/-! ### What a run keeps -/

/-- The terms of a run: the choices that its location and its options determine. -/
structure Terms where
  node : String
  nodes : List String
  storage : String
  storageByNode : List (String × String)
  vmidStart : ℤ
  bwlimit : ℤ
  liveRestore : Bool
  powerOn : Bool
  qgaWaitSec : ℤ
  networkMode : String
  labBridge : String
  httpCheckUrl : String
  overwrite : Bool
  restoreMode : String

def PlanRun.terms (run : PlanRun) : Terms where
  node := run.node
  nodes := run.nodes
  storage := run.storage
  storageByNode := run.storageByNode
  vmidStart := run.vmidStart
  bwlimit := run.bwlimit
  liveRestore := run.liveRestore
  powerOn := run.powerOn
  qgaWaitSec := run.qgaWaitSec
  networkMode := run.networkMode
  labBridge := run.labBridge
  httpCheckUrl := run.httpCheckUrl
  overwrite := run.overwrite
  restoreMode := run.restoreMode

/-- The terms on which a run is started. -/
def Commission.terms (c : Commission) : Terms where
  node := c.location.node
  nodes := c.location.nodeList
  storage := c.location.storage
  storageByNode := c.location.storageByNode
  vmidStart := c.location.vmidStart
  bwlimit := c.location.bwlimit
  liveRestore := c.opts.live c.location
  powerOn := c.opts.doPowerOn c.location
  qgaWaitSec := c.opts.qgaSec c.location
  networkMode := normalizeNetworkMode c.location.networkMode
  labBridge := Text.strip c.location.labBridge
  httpCheckUrl := Text.strip c.location.httpCheckUrl
  overwrite := c.opts.overwrite
  restoreMode := c.location.mode

theorem newRun_terms (c : Commission) (id : Uuid) (plan : Plan) (now : Instant) (k : ℕ) :
    (newRun id plan c.location c.opts now k).terms = c.terms := by
  rw [PlanRun.terms, newRun, Commission.terms]

/-- **A run that stands**: what a RUNNING run under way keeps. -/
structure PlanRun.Stands (c : Commission) (R : Uuid) (run : PlanRun) : Prop where
  id : run.id = R
  terms : run.terms = c.terms
  rows : run.pendingGroupRows = some (stashed c.groupRows)
  groups : run.jobIdsByGroup.length = c.groupRows.length
  later : ∀ k, run.currentGroupIndex < k → run.jobsAt k = []
  earlier : ∀ k < run.currentGroupIndex, run.jobsAt k = [] → c.groupRows.getD k [] = []
  counts : ∀ k, run.jobsAt k ≠ [] → (run.jobsAt k).length = (c.groupRows.getD k []).length

variable {c : Commission}

theorem PlanRun.Stands.rowsAt (h : run.Stands c R) (k : ℕ) :
    run.rowsAt k = (c.groupRows.getD k []).map Row.stashed := by
  rw [PlanRun.rowsAt, PlanRun.pending, h.rows, Option.getD_some, stashed_getD]

/-- Groups without jobs and rows stay behind. -/
private theorem PlanRun.Stands.skips (h : run.Stands c R) {i k : ℕ} (hk : k < i)
    (hskipped : ∀ m, run.currentGroupIndex ≤ m → m < i → run.jobsAt m = [] → ¬ run.HasGroup m)
    (hjobs : run.jobsAt k = []) : c.groupRows.getD k [] = [] := by
  by_cases hcurrent : k < run.currentGroupIndex
  · exact h.earlier k hcurrent hjobs
  · have hnone := hskipped k (by omega) hk hjobs
    have hrows : run.rowsAt k = [] := by
      by_contra hne
      exact hnone (.inr hne)
    rw [h.rowsAt] at hrows
    exact List.map_eq_nil_iff.mp hrows

/-- The run goes on with another group. -/
private theorem PlanRun.Stands.passed (h : run.Stands c R) {next : ℕ}
    (hnext : run.IsNext run.currentGroupIndex idx) (hjobs : run.jobsAt idx ≠ [])
    (hlater : run.IsNext (idx + 1) next) :
    PlanRun.Stands c R { run with currentGroupIndex := next } := by
  have hle := hnext.le
  have hlt := hlater.le
  refine ⟨h.id, h.terms, h.rows, h.groups, fun k hk => ?_, fun k hk hempty => ?_, h.counts⟩
  · have hk : next < k := hk
    exact h.later k (by omega)
  · refine h.skips hk (fun m hm hlt hnone => ?_) hempty
    have hlt : m < next := hlt
    have hne : m ≠ idx := by
      rintro rfl
      exact hjobs hnone
    by_cases hbefore : m < idx
    · exact hnext.skipped m hm hbefore
    · exact hlater.skipped m (by omega) hlt

/-- The jobs of a group are recorded. -/
private theorem PlanRun.Stands.recorded (h : run.Stands c R) {result : EnqueueResult}
    (hnext : run.IsNext run.currentGroupIndex idx)
    (hlength : result.jobIds.length = (c.groupRows.getD idx []).length) :
    PlanRun.Stands c R { recordGroup run idx result with currentGroupIndex := idx } := by
  have hle := hnext.le
  have hjobs : ∀ k, PlanRun.jobsAt { recordGroup run idx result with currentGroupIndex := idx } k =
      if k = idx then result.jobIds else run.jobsAt k := by
    intro k
    exact getD_set k hnext.lt
  refine ⟨h.id, h.terms, h.rows, ?_, fun k hk => ?_, fun k hk hempty => ?_, fun k hne => ?_⟩
  · exact (List.length_set ..).trans h.groups
  · have hk : idx < k := hk
    rw [hjobs, if_neg (by omega)]
    exact h.later k (by omega)
  · have hk : k < idx := hk
    rw [hjobs, if_neg (by omega)] at hempty
    exact h.skips hk (fun m hm hlt _ => hnext.skipped m hm hlt) hempty
  · rw [hjobs] at hne ⊢
    split_ifs at hne ⊢ with hk
    · rw [hk, hlength]
    · exact h.counts k hne

/-! ### The enqueueing of a group -/

/-- What the enqueueing of a starter makes, `enqueueRestores` makes. -/
theorem Starter.enqueues {req : EnqueueRequest} {result : EnqueueResult}
    (h : Ends (environment.restrict A) (starter.enqueueFn req) w (.ok result) w') :
    Ends (environment.restrict A) (enqueueRestores req) w (.ok result) w' := by
  cases starter with
  | scheduler => exact h
  | api =>
    rcases ends_bind.mp h with ⟨tried, w₁, htried, hrest⟩ | ⟨e, he, -⟩
    swap
    · cases he
    obtain ⟨tried', hout, hends⟩ := ends_attempt.mp htried
    obtain rfl := Except.ok.inj hout
    split at hrest
    · cases hrest
      exact hends
    · cases hrest
    · cases hrest

/-! ### The invariant -/

/-- The first group of a run that has been started is enqueued. -/
structure Commission.Begins (c : Commission) (A : Op → Answer → Bool) (w : World) (run : PlanRun)
    (w' : World) (new : PlanRun) (idx : ℕ) (result : EnqueueResult) (w₁ w₂ : World) : Prop where
  first : firstGroup c.plan c.groupRows = .ok idx
  terms : new.terms = c.terms
  begun : run = new.begun c.location c.groupRows idx result
  current : run.currentGroupIndex = idx
  jobs : ∀ k, run.jobsAt k = if k = idx then result.jobIds else []
  groups : run.jobIdsByGroup.length = c.groupRows.length
  stored : w'.run run.id = some run
  enqueues : Ends (environment.restrict A)
    (enqueueRestores (startRequest new c.location idx (c.groupRows.getD idx []))) w₁ (.ok result) w₂
  jobs_before : w₁.jobs = w.jobs
  guests_before : w₁.guests = w.guests
  jobs_after : w'.jobs = w₂.jobs
  guests_after : w'.guests = w₂.guests

/-- **The beginning of a run.** -/
theorem Commission.begins (h : Ends (environment.restrict A) c.program w (.ok run) w') :
    ∃ new idx result w₁ w₂, c.Begins A w run w' new idx result w₁ w₂ := by
  generalize hout : Except.ok run = out at h
  cases starts h with
  | refused | raises | unstashed => cases hout
  | started n startIdx new result w₂ _ hfirst hrun hends hstored hguests hjobs hqueue =>
    obtain rfl := Except.ok.inj hout
    obtain ⟨hgroups, hne, -⟩ := firstGroup_ok hfirst
    have hlt : startIdx < new.jobIdsByGroup.length := by
      rw [hrun, newRun, List.length_map, ← hgroups]
      by_contra hge
      refine hne ?_
      rw [List.getD_eq_getElem?_getD, List.getElem?_eq_none (by omega), Option.getD_none]
    have hnone : ∀ k, new.jobsAt k = [] := by
      intro k
      rw [hrun, PlanRun.jobsAt, newRun, List.getD_eq_getElem?_getD, List.getElem?_map]
      cases c.plan.groupIds[k]? <;> rfl
    have hterms : new.terms = c.terms := by
      rw [hrun]
      exact newRun_terms ..
    have hcurrent : new.currentGroupIndex = startIdx := by
      rw [hrun, newRun]
    refine ⟨new, startIdx, result, _, w₂, hfirst, hterms, rfl, hcurrent, fun k => ?_, ?_, hstored,
      Starter.enqueues hends, rfl, rfl, hjobs, hguests⟩
    · refine (getD_set k hlt).trans ?_
      split_ifs with hk
      · rfl
      · exact hnone k
    · refine (List.length_set ..).trans ?_
      rw [hrun, newRun, List.length_map, hgroups]

/-- A run that has just been started stands. -/
private theorem stands_of_start (h : Ends (environment.restrict A) c.program w (.ok run) w') :
    w'.run run.id = some run ∧ run.Stands c run.id := by
  obtain ⟨new, idx, result, w₁, w₂, h⟩ := Commission.begins h
  refine ⟨h.stored, rfl, ?_, ?_, h.groups, fun k hk => ?_, fun k hk _ => ?_, fun k hk => ?_⟩
  · rw [h.begun]
    exact h.terms
  · rw [h.begun]
    rfl
  · rw [h.current] at hk
    rw [h.jobs, if_neg (by omega)]
  · rw [h.current] at hk
    exact (firstGroup_ok h.first).2.2 k hk
  · rw [h.jobs] at hk ⊢
    split_ifs at hk ⊢ with hsame
    · rw [hsame, enqueueRestores_length h.enqueues]
      rfl
    · exact absurd rfl hk

private theorem eq_of_setRun {run' : PlanRun} (h : (w.setRun run).run R = some run')
    (hid : run.id = R) : run = run' := by
  subst hid
  exact Option.some.inj ((World.run_setRun _ _).symm.trans h)

/-- **A tick that gives a group its jobs** has enqueued the group. -/
theorem tick_enqueues {out : Except Exn Bool} {run' : PlanRun} (hrun : w.run R = some run)
    (hid : run.id = R) (hstatus : run.status = .RUNNING) (hnone : run.jobsAt idx = [])
    (htick : Ends (environment.restrict A) (advanceRun cfg enqueueRestores R) w out w')
    (hrun' : w'.run R = some run') (hjobs : run'.jobsAt idx ≠ []) :
    ∃ result w₁, Ends (environment.restrict A)
        (enqueueRestores (run.request idx (run.rowsAt idx))) w (.ok result) w₁ ∧
      run.IsNext run.currentGroupIndex idx ∧ run'.jobsAt idx = result.jobIds ∧
      w'.jobs = w₁.jobs ∧ w'.guests = w₁.guests := by
  have hsame : run'.jobIdsByGroup = run.jobIdsByGroup → run'.jobsAt idx = [] := by
    intro hids
    rw [PlanRun.jobsAt, hids]
    exact hnone
  cases turns hrun hstatus htick with
  | waits =>
    obtain rfl := Option.some.inj (hrun.symm.trans hrun')
    exact absurd hnone hjobs
  | passes =>
    obtain rfl := eq_of_setRun hrun' hid
    exact absurd hnone hjobs
  | ends _ ended hended _ hids =>
    rw [hid] at hended
    obtain rfl := Option.some.inj (hended.symm.trans hrun')
    exact absurd (hsame hids) hjobs
  | enqueues next result w₁ hnext _ hends =>
    obtain rfl := eq_of_setRun hrun' hid
    have hset : PlanRun.jobsAt { recordGroup run next result with currentGroupIndex := next } idx =
        if idx = next then result.jobIds else run.jobsAt idx := getD_set idx hnext.lt
    rw [hset] at hjobs
    by_cases hidx : idx = next
    · subst hidx
      exact ⟨result, w₁, hends, hnext, hset.trans (if_pos rfl), rfl, rfl⟩
    · rw [if_neg hidx] at hjobs
      exact absurd hnone hjobs
  | raises next e _ _ _ hends =>
    have hruns := (enqueueRestores_sameRuns hends.of_restrict).runs
    rw [World.run, hruns] at hrun'
    obtain rfl := Option.some.inj (hrun.symm.trans hrun')
    exact absurd hnone hjobs

/-- The turn of a run that stands. -/
private theorem stands_of_turn {out : Except Exn Bool} (hrun : w.run R = some run)
    (hstands : run.Stands c R) (h : Turn A enqueueRestores run w out w') :
    ∀ run', w'.run R = some run' → run'.status = .RUNNING → run'.Stands c R := by
  have hid := hstands.id
  intro run' hrun' hstatus
  cases h with
  | waits =>
    obtain rfl := Option.some.inj (hrun.symm.trans hrun')
    exact hstands
  | passes idx next hnext hjobs hlater =>
    obtain rfl := eq_of_setRun hrun' hid
    exact hstands.passed hnext hjobs hlater
  | ends _ ended hended hnot =>
    rw [hid] at hended
    obtain rfl := Option.some.inj (hended.symm.trans hrun')
    exact absurd hstatus hnot
  | enqueues idx result w₁ hnext hjobs hends =>
    obtain rfl := eq_of_setRun hrun' hid
    refine hstands.recorded hnext ?_
    have hlength := enqueueRestores_length hends
    rw [hlength]
    change (run.rowsAt idx).length = _
    rw [hstands.rowsAt, List.length_map]
  | raises idx e _ hnext hjobs hends =>
    have hsame := enqueueRestores_sameRuns hends.of_restrict
    rw [World.run, hsame.runs] at hrun'
    obtain rfl := Option.some.inj (hrun.symm.trans hrun')
    exact hstands

/-- The turn of a run that is not RUNNING leaves the records alone. -/
private theorem advanceRun_idle {out : Except Exn Bool}
    (hidle : ∀ run, w.run R = some run → run.status ≠ .RUNNING)
    (h : Ends (environment.restrict A) (advanceRun cfg enqueueRestores R) w out w') :
    w'.runs = w.runs := by
  refine h.of_restrict.post (Q := fun _ w' => w'.runs = w.runs) ?_
  rw [advanceRun, satisfies_bind, satisfies_getRun, then_ok]
  have hnone : (w.run R).filter (·.status = .RUNNING) = none := by
    rw [Option.filter_eq_none_iff]
    intro run hrun
    exact mt of_decide_eq_true (hidle run hrun)
  rw [hnone, satisfies_bind]
  refine (satisfies_issue_iff (.dropActive R)).mpr fun a r w₁ ha => ?_
  rw [then_ok]
  exact satisfies_ret.mpr (after_step ha).runs

/-- **A run under way stands** while it is RUNNING. -/
theorem Underway.stands (h : Underway cfg A Between c R w) :
    ∀ run, w.run R = some run → run.status = .RUNNING → run.Stands c R := by
  induction h with
  | start hends =>
    obtain ⟨hstored, hstands⟩ := stands_of_start hends
    intro run hrun _
    obtain rfl := Option.some.inj (hstored.symm.trans hrun)
    exact hstands
  | other _ _ hkept ih =>
    intro run hrun hstatus
    exact ih run (hkept run hrun hstatus) hstatus
  | @tick R w w' out _ hends ih =>
    by_cases hrunning : ∃ run, w.run R = some run ∧ run.status = .RUNNING
    · obtain ⟨run, hrun, hstatus⟩ := hrunning
      exact stands_of_turn hrun (ih run hrun hstatus) (turns hrun hstatus hends)
    · push Not at hrunning
      have hruns := advanceRun_idle hrunning hends
      intro run hrun hstatus
      rw [World.run, hruns] at hrun
      exact absurd hstatus (hrunning run hrun)

/-- The groups that are behind a run, or have no jobs and rows, are done. -/
private theorem PlanRun.Stands.done (h : run.Stands c R) {k : ℕ}
    (hout : run.currentGroupIndex ≤ k → k < run.jobIdsByGroup.length → run.jobsAt k = [] →
      ¬ run.HasGroup k) :
    (run.jobsAt k).length = (c.groupRows.getD k []).length := by
  by_cases hjobs : run.jobsAt k = []
  · have hrows : c.groupRows.getD k [] = [] := by
      by_cases hcurrent : k < run.currentGroupIndex
      · exact h.earlier k hcurrent hjobs
      · by_cases hlt : k < run.jobIdsByGroup.length
        · have hnone : run.rowsAt k = [] := by
            by_contra hne
            exact hout (by omega) hlt hjobs (.inr hne)
          rw [h.rowsAt] at hnone
          exact List.map_eq_nil_iff.mp hnone
        · rw [h.groups] at hlt
          rw [List.getD_eq_getElem?_getD, List.getElem?_eq_none (by omega), Option.getD_none]
    rw [hjobs, hrows]
    rfl
  · exact h.counts k hjobs

/-- **A run that completes** has a job for each row of its groups. -/
theorem Underway.completes {out : Except Exn Bool} {run' : PlanRun}
    (h : Underway cfg A Between c R w) (hrun : w.run R = some run)
    (hstatus : run.status = .RUNNING)
    (htick : Ends (environment.restrict A) (advanceRun cfg enqueueRestores R) w out w')
    (hrun' : w'.run R = some run') (hcompleted : run'.status = .COMPLETED) :
    run'.jobIdsByGroup.flatten.length = c.groupRows.flatten.length := by
  have hstands := h.stands run hrun hstatus
  have hgoesOn : run'.status = .RUNNING → False := by
    intro hrunning
    cases hrunning.symm.trans hcompleted
  cases turns hrun hstatus htick with
  | waits =>
    obtain rfl := Option.some.inj (hrun.symm.trans hrun')
    exact (hgoesOn hstatus).elim
  | passes =>
    obtain rfl := eq_of_setRun hrun' hstands.id
    exact (hgoesOn hstatus).elim
  | enqueues =>
    obtain rfl := eq_of_setRun hrun' hstands.id
    exact (hgoesOn hstatus).elim
  | raises next e _ _ _ hends =>
    have hruns := (enqueueRestores_sameRuns hends.of_restrict).runs
    rw [World.run, hruns] at hrun'
    obtain rfl := Option.some.inj (hrun.symm.trans hrun')
    exact (hgoesOn hstatus).elim
  | ends _ ended hended _ hids _ hlast =>
    rw [hstands.id] at hended
    obtain rfl := Option.some.inj (hended.symm.trans hrun')
    have hdone : ∀ k, (run.jobsAt k).length = (c.groupRows.getD k []).length := by
      intro k
      refine hstands.done fun hle hlt hnone => ?_
      rcases hlast hcompleted with hout | ⟨idx, hnext, hjobs, hout⟩
      · exact hout k hle hlt
      · by_cases hbefore : k < idx
        · exact hnext.skipped k hle hbefore
        · have hne : k ≠ idx := by
            rintro rfl
            exact hjobs hnone
          exact hout k (by omega) hlt
    have hlengths : run.jobIdsByGroup.map List.length = c.groupRows.map List.length := by
      refine List.ext_getElem (by rw [List.length_map, List.length_map, hstands.groups]) ?_
      intro k hk hk'
      rw [List.length_map] at hk hk'
      have hsame := hdone k
      rw [PlanRun.jobsAt, List.getD_eq_getElem _ _ hk, List.getD_eq_getElem _ _ hk'] at hsame
      rw [List.getElem_map, List.getElem_map, hsame]
    rw [hids, List.length_flatten, List.length_flatten, hlengths]

end RestoreEngine
