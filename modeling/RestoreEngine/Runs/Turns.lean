import Mathlib.Data.List.GetD
import RestoreEngine.Model.Changes
import RestoreEngine.Runs.Settling
import RestoreEngine.Runs.Ticks

/-!
# Turns

What an undisturbed `startPlanRun` and an undisturbed turn of a RUNNING run in `advanceRun` can do,
case by case (`starts`, `turns`): what they store of the run, and which request they hand to
`enqueue_fn`, in which world. Other modules derive the invariants of runs from these cases.

The choices that the world may make are restricted to `A`.
-/

namespace RestoreEngine

open Effects Prog Program

variable {cfg : Config} {enqueueFn : EnqueueFn} {A : Op → Answer → Bool} {w w' : World}
  {run : PlanRun} {idx : ℕ}

/-! ### Ending a run -/

/-- The run is stored as a record that settling made of `ended`. -/
def SettledFrom (ended run : PlanRun) (w : World) : Prop :=
  w.run run.id = some run ∧ ended.Settles run

/-- Settling a run in the undisturbed world. -/
private theorem settling_world (ended : PlanRun) :
    Settling environment.machine (SettledFrom ended) where
  aside {run s} o hK ho := by
    refine ⟨trivial, fun r s' ⟨a, ha⟩ => ⟨?_, hK.2⟩⟩
    have hruns : s'.runs = s.runs := by
      rw [(after_step ha).runs]
      cases o <;> first | rfl | exact ho.elim
    rw [World.run, hruns]
    exact hK.1
  save {run run' s} hK hrun := by
    refine ⟨trivial, fun r s' ⟨a, ha⟩ => ⟨?_, hK.2.trans hrun⟩⟩
    rw [World.run, (after_step ha).runs]
    exact AList.lookup_insert _
  load {run run' s} hK hid := by
    refine ⟨trivial, fun r s' ⟨a, ha⟩ => ?_⟩
    have hpair : (s.run run.id, s) = (r, s') := Option.some.inj ha
    obtain ⟨rfl, rfl⟩ := Prod.mk.inj hpair
    have hstored : s.run run.id = some run' := hid ▸ hK.1
    rw [hstored]
    exact ⟨hid, hK⟩

/-- **Ending a run** succeeds, and stores it with its status, its group and its jobs. -/
theorem endRun_settles : Satisfies environment.machine
    (fun out w' => out = .ok true ∧ ∃ run', w'.run run.id = some run' ∧ run.Settles run') w
    (endRun cfg run) := by
  rw [endRun, satisfies_bind, satisfies_utcNow]
  intro n
  rw [then_ok, satisfies_bind, satisfies_savePlanRun, then_ok]
  have hstored : SettledFrom run { run with finishedAt := some (w.clock + n) }
      (World.setRun { w with clock := w.clock + n }
        { run with finishedAt := some (w.clock + n) }) :=
    ⟨World.run_setRun _ _, rfl, rfl, rfl, rfl, rfl, rfl, rfl, rfl⟩
  refine ((settling_world run).finalize hstored cfg).bind ?_ ?_
  · rintro a w' ⟨run', -, ⟨hrun', hsettles⟩, hid⟩
    have hid : run'.id = run.id := hid
    exact satisfies_ret.mpr ⟨rfl, run', hid ▸ hrun', hsettles⟩
  · rintro e w' ⟨run', h, -⟩
    cases h

/-! ### The turn of a run -/

/-- **What the turn of a RUNNING run comes to.** -/
inductive Turn (A : Op → Answer → Bool) (enqueueFn : EnqueueFn) (run : PlanRun) (w : World) :
    Except Exn Bool → World → Prop
  /-- The jobs of the current group have not all ended. -/
  | waits (idx : ℕ) (hnext : run.IsNext run.currentGroupIndex idx) (hjobs : run.jobsAt idx ≠ []) :
    Turn A enqueueFn run w (.ok false) w
  /-- They have, and the run goes on with another group. -/
  | passes (idx next : ℕ) (hnext : run.IsNext run.currentGroupIndex idx)
      (hjobs : run.jobsAt idx ≠ []) (hlater : run.IsNext (idx + 1) next) :
    Turn A enqueueFn run w (.ok true) (w.setRun { run with currentGroupIndex := next })
  /-- The run ends, as COMPLETED only if no group is left. -/
  | ends (w' : World) (run' : PlanRun) (hrun : w'.run run.id = some run')
      (hstatus : run'.status ≠ .RUNNING) (hjobs : run'.jobIdsByGroup = run.jobIdsByGroup)
      (hpending : run'.pendingGroupRows = run.pendingGroupRows)
      (hcompleted : run'.status = .COMPLETED → run.RunsOut run.currentGroupIndex ∨
        ∃ idx, run.IsNext run.currentGroupIndex idx ∧ run.jobsAt idx ≠ [] ∧
          run.RunsOut (idx + 1)) :
    Turn A enqueueFn run w (.ok true) w'
  /-- The next group is enqueued and its jobs are recorded. -/
  | enqueues (idx : ℕ) (result : EnqueueResult) (w₁ : World)
      (hnext : run.IsNext run.currentGroupIndex idx) (hjobs : run.jobsAt idx = [])
      (hends : Ends (environment.restrict A) (enqueueFn (run.request idx (run.rowsAt idx))) w
        (.ok result) w₁) :
    Turn A enqueueFn run w (.ok true)
      (w₁.setRun { recordGroup run idx result with currentGroupIndex := idx })
  /-- The enqueueing of the next group raises. -/
  | raises (idx : ℕ) (e : Exn) (w₁ : World)
      (hnext : run.IsNext run.currentGroupIndex idx) (hjobs : run.jobsAt idx = [])
      (hends : Ends (environment.restrict A) (enqueueFn (run.request idx (run.rowsAt idx))) w
        (.error e) w₁) :
    Turn A enqueueFn run w (.error e) w₁

/-- A group that follows is the next one with jobs or rows. -/
private theorem outcome_isNext {states : List RestoreState} {next : ℕ}
    (h : run.outcome idx states = .inr next) : run.IsNext (idx + 1) next := by
  rw [PlanRun.outcome] at h
  dsimp only at h
  split_ifs at h with hhalt hcancel hout
  rw [← Sum.inr.inj h]
  exact PlanRun.isNext_nextGroup (mt (run.length_le_nextGroup_iff (idx + 1)).mpr hout)

/-- What ends a run after a group ends it as COMPLETED only if the group is the last one. -/
private theorem outcome_last {states : List RestoreState} {ended : PlanRun}
    (h : run.outcome idx states = .inl ended) (hcompleted : ended.status = .COMPLETED) :
    run.RunsOut (idx + 1) := by
  rw [PlanRun.outcome] at h
  dsimp only at h
  split_ifs at h with hhalt hcancel hout
  · rw [← Sum.inl.inj h] at hcompleted
    cases hcompleted
  · rw [← Sum.inl.inj h] at hcompleted
    cases hcompleted
  · exact (run.length_le_nextGroup_iff (idx + 1)).mp hout

/-- A run that is ended. -/
private theorem turn_of_ended {ended : PlanRun} {out : Except Exn Bool}
    (hends : Ends (environment.restrict A) (endRun cfg ended) w out w') (hid : ended.id = run.id)
    (hstatus : ended.status ≠ .RUNNING) (hjobs : ended.jobIdsByGroup = run.jobIdsByGroup)
    (hpending : ended.pendingGroupRows = run.pendingGroupRows)
    (hcompleted : ended.status = .COMPLETED → run.RunsOut run.currentGroupIndex ∨
      ∃ idx, run.IsNext run.currentGroupIndex idx ∧ run.jobsAt idx ≠ [] ∧
        run.RunsOut (idx + 1)) : Turn A enqueueFn run w out w' := by
  obtain ⟨rfl, run', hrun', hsettles⟩ := hends.of_restrict.post endRun_settles
  exact .ends w' run' (hid ▸ hrun') (hsettles.status ▸ hstatus)
    (hsettles.jobIdsByGroup.trans hjobs) (hsettles.pendingGroupRows.trans hpending)
    fun h => hcompleted (hsettles.status ▸ h)

/-- Storing the record of a run. -/
private theorem ends_savePlanRun {run : PlanRun} {out : Except Exn PlanRun}
    (h : Ends (environment.restrict A) (savePlanRun run) w out w') :
    out = .ok run ∧ w' = w.setRun run :=
  h.of_restrict.post (Q := fun out w' => out = .ok run ∧ w' = w.setRun run)
    (satisfies_savePlanRun.mpr ⟨rfl, rfl⟩)

private theorem ends_ret {α : Type} {a : α} {out : Except Exn α}
    (h : Ends (environment.restrict A) (pure a : Prog α) w out w') : out = .ok a ∧ w = w' := by
  cases h
  exact ⟨rfl, rfl⟩

/-- Storing a record is the last thing that is done. -/
private theorem ends_save_true {run : PlanRun} {out : Except Exn Bool}
    (h : Ends (environment.restrict A) (savePlanRun run >>= fun _ => pure true) w out w') :
    out = .ok true ∧ w' = w.setRun run := by
  rcases ends_bind.mp h with ⟨a, w₁, hsave, hret⟩ | ⟨e, -, hsave⟩
  · obtain ⟨-, rfl⟩ := ends_savePlanRun hsave
    obtain ⟨rfl, rfl⟩ := ends_ret hret
    exact ⟨rfl, rfl⟩
  · cases (ends_savePlanRun hsave).1

/-- **The turns of a run.** -/
theorem turns {out : Except Exn Bool} {R : Uuid} (hrun : w.run R = some run)
    (hstatus : run.status = .RUNNING)
    (h : Ends (environment.restrict A) (advanceRun cfg enqueueFn R) w out w') :
    Turn A enqueueFn run w out w' := by
  rw [advanceRun] at h
  rcases ends_bind.mp h with ⟨found, w₁, hget, h⟩ | ⟨e, -, hget⟩
  swap
  · have hnever : Except.error e = Except.ok (w.run R) :=
      hget.of_restrict.post (Q := fun out _ => out = .ok (w.run R)) (satisfies_getRun.mpr rfl)
    cases hnever
  obtain ⟨hfound, rfl⟩ := hget.of_restrict.post
    (Q := fun out w' => out = .ok (w.run R) ∧ w = w') (satisfies_getRun.mpr ⟨rfl, rfl⟩)
  obtain rfl := Except.ok.inj hfound
  rw [hrun, Option.filter_some] at h
  simp only [hstatus, decide_true, if_true] at h
  rw [advanceRunning] at h
  by_cases hout : run.RunsOut run.currentGroupIndex
  · rw [if_pos ((run.length_le_nextGroup_iff _).mpr hout)] at h
    exact turn_of_ended h rfl (by rintro ⟨⟩) rfl rfl fun _ => .inl hout
  have hnext := PlanRun.isNext_nextGroup hout
  rw [if_neg (mt (run.length_le_nextGroup_iff _).mp hout)] at h
  generalize run.nextGroup run.jobIdsByGroup.length run.currentGroupIndex = idx at hnext h
  by_cases hjobs : run.jobsAt idx = []
  · rw [if_pos hjobs, enqueueGroup, if_neg (hnext.has.resolve_left (not_not.mpr hjobs))] at h
    rcases ends_bind.mp h with ⟨result, w₂, henqueue, h⟩ | ⟨e, rfl, henqueue⟩
    · obtain ⟨rfl, rfl⟩ := ends_save_true h
      exact .enqueues idx result w₂ hnext hjobs henqueue
    · exact .raises idx e w' hnext hjobs henqueue
  rw [if_neg hjobs, awaitGroup] at h
  rcases ends_bind.mp h with ⟨states, w₂, hstates, h⟩ | ⟨e, -, hstates⟩
  swap
  · have hnever := hstates.of_restrict.post (Q := fun out _ => ∃ states, out = .ok states)
      (satisfies_jobStates.mpr ⟨_, rfl⟩)
    obtain ⟨states, hnever⟩ := hnever
    cases hnever
  obtain rfl := hstates.of_restrict.post (Q := fun _ w' => w = w') (satisfies_jobStates.mpr rfl)
  split_ifs at h with hall
  · cases houtcome : run.outcome idx states with
    | inl ended =>
      rw [houtcome] at h
      have hlast := outcome_last houtcome
      obtain ⟨status, error, current, hne, rfl⟩ := outcome_spec houtcome
      exact turn_of_ended h rfl hne rfl rfl fun hcompleted =>
        .inr ⟨idx, hnext, hjobs, hlast hcompleted⟩
    | inr next =>
      rw [houtcome] at h
      obtain ⟨rfl, rfl⟩ := ends_save_true h
      exact .passes idx next hnext hjobs (outcome_isNext houtcome)
  · obtain ⟨rfl, rfl⟩ := ends_ret h
    exact .waits idx hnext hjobs

/-! ### The start of a run -/

/-- What `first_group` finds. -/
theorem firstGroup_ok {plan : Plan} {groupRows : List (List Row)} {startIdx : ℕ}
    (h : firstGroup plan groupRows = .ok startIdx) :
    groupRows.length = plan.groupIds.length ∧ groupRows.getD startIdx [] ≠ [] ∧
      ∀ k < startIdx, groupRows.getD k [] = [] := by
  rw [firstGroup] at h
  split_ifs at h with hlength
  split at h
  · cases h
  · next found hfound =>
    obtain rfl := Except.ok.inj h
    obtain ⟨hlt, hne, hbefore⟩ := List.findIdx?_eq_some_iff_getElem.mp hfound
    refine ⟨not_not.mp hlength, ?_, fun k hk => ?_⟩
    · rw [List.getD_eq_getElem?_getD, List.getElem?_eq_getElem hlt, Option.getD_some]
      simpa using hne
    · rw [List.getD_eq_getElem?_getD, List.getElem?_eq_getElem (hk.trans hlt), Option.getD_some]
      simpa using hbefore k hk

theorem stashRows_ok {groupRows stash : List (List Row)} (h : stashRows groupRows = .ok stash) :
    stash = stashed groupRows := by
  rw [stashRows] at h
  split_ifs at h
  exact (Except.ok.inj h).symm

/-- The stashed rows of a group. -/
theorem stashed_getD (groupRows : List (List Row)) (k : ℕ) :
    (stashed groupRows).getD k [] = (groupRows.getD k []).map Row.stashed := by
  exact List.getD_map _ [] fun rows : List Row => rows.map Row.stashed

/-- A stashed row is one of the same backup. -/
theorem backupIds_stashed (rows : List Row) :
    (rows.map Row.stashed).map (·.backupId) = rows.map (·.backupId) := by
  rw [List.map_map]
  rfl

/-- The jobs of a group that has been entered. -/
theorem getD_set {lists : List (List Uuid)} {k : ℕ} {ids : List Uuid} (i : ℕ)
    (hk : k < lists.length) :
    (lists.set k ids).getD i [] = if i = k then ids else lists.getD i [] := by
  split_ifs with hi
  · subst hi
    rw [List.getD_eq_getElem?_getD, List.getElem?_set_self hk, Option.getD_some]
  · rw [List.getD_eq_getElem?_getD, List.getElem?_set_ne (fun h => hi h.symm),
      ← List.getD_eq_getElem?_getD]

/-- The record that a start leaves, once the first group has been enqueued. -/
def PlanRun.begun (run : PlanRun) (location : Location) (groupRows : List (List Row))
    (startIdx : ℕ) (result : EnqueueResult) : PlanRun :=
  let recorded := recordGroup run startIdx result
  { recorded with
    nextVmid := some (orElse (recorded.nextVmid.getD 0) location.vmidStart)
    pendingGroupRows := some (stashed groupRows) }

/-- **What a start comes to.** -/
inductive Start (A : Op → Answer → Bool) (enqueueFn : EnqueueFn) (plan : Plan)
    (location : Location) (groupRows : List (List Row)) (opts : StartOptions) (w : World) :
    Except Exn PlanRun → World → Prop
  /-- There is nothing to enqueue. -/
  | refused (text : String) : Start A enqueueFn plan location groupRows opts w
      (.error (.valueError text)) w
  /-- The enqueueing of the first group raises. -/
  | raises (n startIdx : ℕ) (run : PlanRun) (e : Exn) (w' : World)
      (hfirst : firstGroup plan groupRows = .ok startIdx)
      (hrun : run = newRun w.nextUuid plan location opts (w.clock + n) startIdx)
      (hends : Ends (environment.restrict A)
        (enqueueFn (startRequest run location startIdx (groupRows.getD startIdx [])))
        (World.setRun { w with nextUuid := w.nextUuid + 1, clock := w.clock + n } run)
        (.error e) w') :
    Start A enqueueFn plan location groupRows opts w (.error e) w'
  /-- The rows of the groups cannot be stashed. -/
  | unstashed (text : String) (w' : World) :
    Start A enqueueFn plan location groupRows opts w (.error (.keyError text)) w'
  /-- The run has been started. -/
  | started (n startIdx : ℕ) (run : PlanRun) (result : EnqueueResult) (w' w'' : World)
      (hfirst : firstGroup plan groupRows = .ok startIdx)
      (hrun : run = newRun w.nextUuid plan location opts (w.clock + n) startIdx)
      (hends : Ends (environment.restrict A)
        (enqueueFn (startRequest run location startIdx (groupRows.getD startIdx [])))
        (World.setRun { w with nextUuid := w.nextUuid + 1, clock := w.clock + n } run)
        (.ok result) w')
      (hstored : w''.run run.id = some (run.begun location groupRows startIdx result))
      (hguests : w''.guests = w'.guests) (hjobs : w''.jobs = w'.jobs)
      (hqueue : w''.queue = w'.queue) :
    Start A enqueueFn plan location groupRows opts w
      (.ok (run.begun location groupRows startIdx result)) w''

private theorem firstGroup_error {plan : Plan} {groupRows : List (List Row)} {e : Exn}
    (h : firstGroup plan groupRows = .error e) : ∃ text, e = .valueError text := by
  rw [firstGroup] at h
  split_ifs at h
  · exact ⟨_, (Except.error.inj h).symm⟩
  · split at h
    · exact ⟨_, (Except.error.inj h).symm⟩
    · cases h

private theorem stashRows_error {groupRows : List (List Row)} {e : Exn}
    (h : stashRows groupRows = .error e) : ∃ text, e = .keyError text := by
  rw [stashRows] at h
  split_ifs at h
  exact ⟨_, (Except.error.inj h).symm⟩

private theorem ends_ofExcept {α : Type} {x : Except Exn α} {out : Except Exn α}
    (h : Ends (environment.restrict A) (Program.ofExcept x : Prog α) w out w') :
    out = x ∧ w = w' :=
  h.of_restrict.post (Q := fun out w' => out = x ∧ w = w') (satisfies_ofExcept.mpr ⟨rfl, rfl⟩)

/-- What follows the first save of a run. -/
private theorem enqueueFirst_cases {location : Location} {groupRows : List (List Row)}
    {startIdx : ℕ} {out : Except Exn PlanRun}
    (h : Ends (environment.restrict A) (enqueueFirst enqueueFn run location startIdx groupRows) w
      out w') :
    (∃ e, out = .error e ∧ (Ends (environment.restrict A)
        (enqueueFn (startRequest run location startIdx (groupRows.getD startIdx []))) w
        (.error e) w' ∨ ∃ text, e = .keyError text)) ∨
      ∃ result w₁, Ends (environment.restrict A)
          (enqueueFn (startRequest run location startIdx (groupRows.getD startIdx []))) w
          (.ok result) w₁ ∧
        out = .ok (run.begun location groupRows startIdx result) ∧
        w'.run run.id = some (run.begun location groupRows startIdx result) ∧
        w'.guests = w₁.guests ∧ w'.jobs = w₁.jobs ∧ w'.queue = w₁.queue := by
  rw [enqueueFirst] at h
  rcases ends_bind.mp h with ⟨result, w₁, henqueue, h⟩ | ⟨e, rfl, henqueue⟩
  swap
  · exact .inl ⟨e, rfl, .inl henqueue⟩
  rcases ends_bind.mp h with ⟨recorded, w₂, hsave, h⟩ | ⟨e, -, hsave⟩
  swap
  · cases (ends_savePlanRun hsave).1
  obtain ⟨-, rfl⟩ := ends_savePlanRun hsave
  rcases ends_bind.mp h with ⟨stash, w₂, hstash, hlast⟩ | ⟨e, rfl, hstash⟩
  · obtain ⟨hok, rfl⟩ := ends_ofExcept hstash
    obtain rfl := stashRows_ok hok.symm
    obtain ⟨rfl, rfl⟩ := ends_savePlanRun hlast
    exact .inr ⟨result, w₁, henqueue, rfl, World.run_setRun _ _, rfl, rfl, rfl⟩
  · obtain ⟨herror, -⟩ := ends_ofExcept hstash
    exact .inl ⟨e, rfl, .inr (stashRows_error herror.symm)⟩

/-- **The starts of a run.** -/
theorem starts {plan : Plan} {location : Location} {groupRows : List (List Row)}
    {opts : StartOptions} {out : Except Exn PlanRun}
    (h : Ends (environment.restrict A) (startPlanRun enqueueFn plan location groupRows opts) w out
      w') : Start A enqueueFn plan location groupRows opts w out w' := by
  rw [startPlanRun] at h
  rcases ends_bind.mp h with ⟨startIdx, w₁, hcheck, h⟩ | ⟨e, rfl, hcheck⟩
  swap
  · obtain ⟨hfirst, rfl⟩ := ends_ofExcept hcheck
    obtain ⟨text, rfl⟩ := firstGroup_error hfirst.symm
    exact .refused text
  obtain ⟨hfirst, rfl⟩ := ends_ofExcept hcheck
  rcases ends_bind.mp h with ⟨runId, w₁, huuid, h⟩ | ⟨e, -, huuid⟩
  swap
  · have hnever := huuid.of_restrict.post (Q := fun out _ => out = .ok w.nextUuid)
      (satisfies_uuid4.mpr rfl)
    cases hnever
  obtain ⟨hid, rfl⟩ := huuid.of_restrict.post (Q := fun out w' => out = .ok w.nextUuid ∧
    w' = { w with nextUuid := w.nextUuid + 1 }) (satisfies_uuid4.mpr ⟨rfl, rfl⟩)
  obtain rfl := Except.ok.inj hid
  rcases ends_bind.mp h with ⟨now, w₁, hnow, h⟩ | ⟨e, -, hnow⟩
  swap
  · obtain ⟨n, hnever⟩ := hnow.of_restrict.post
      (Q := fun out _ => ∃ n : ℕ, out = .ok (w.clock + n)) (satisfies_utcNow.mpr fun n => ⟨n, rfl⟩)
    cases hnever
  obtain ⟨n, hclock, rfl⟩ := hnow.of_restrict.post (Q := fun out w' => ∃ n : ℕ,
    out = .ok (w.clock + n) ∧ w' = { w with nextUuid := w.nextUuid + 1, clock := w.clock + n })
      (satisfies_utcNow.mpr fun n => ⟨n, rfl, rfl⟩)
  obtain rfl := Except.ok.inj hclock
  rcases ends_bind.mp h with ⟨run, w₁, hsave, h⟩ | ⟨e, -, hsave⟩
  swap
  · cases (ends_savePlanRun hsave).1
  obtain ⟨hrun, rfl⟩ := ends_savePlanRun hsave
  have hrun := Except.ok.inj hrun
  rw [← hrun] at h
  rcases ends_bind.mp h with ⟨begun, w₂, hbegin, h⟩ | ⟨e, rfl, hbegin⟩
  · rcases enqueueFirst_cases hbegin with ⟨e, hnever, -⟩ |
      ⟨result, w₃, henqueue, hok, hstored, hguests, hjobs, hqueue⟩
    · cases hnever
    obtain rfl := Except.ok.inj hok
    obtain ⟨rfl, hworld⟩ := h.of_restrict.post
      (Q := fun out w' => out = .ok (run.begun location groupRows startIdx result) ∧
        w'.runs = w₂.runs ∧ w'.guests = w₂.guests ∧ w'.jobs = w₂.jobs ∧ w'.queue = w₂.queue) (by
        rw [satisfies_bind, satisfies_setPlan, then_ok, pure_eq_ret, satisfies_ret]
        exact ⟨rfl, rfl, rfl, rfl, rfl⟩)
    obtain ⟨hruns, hguests', hjobs', hqueue'⟩ := hworld
    refine .started n startIdx run result w₃ w' hfirst.symm hrun henqueue ?_
      (hguests'.trans hguests) (hjobs'.trans hjobs) (hqueue'.trans hqueue)
    rw [World.run, hruns]
    exact hstored
  · rcases enqueueFirst_cases hbegin with ⟨e, herror, hwhy⟩ | ⟨result, w₃, -, hnever, -⟩
    · obtain rfl := Except.error.inj herror
      rcases hwhy with henqueue | ⟨text, rfl⟩
      · exact .raises n startIdx run e w' hfirst.symm hrun henqueue
      · exact .unstashed text w'
    · cases hnever

end RestoreEngine
