import RestoreEngine.Runs.Ended

/-!
# Whether the groups of a run are enqueued once

A tick that finds a group without jobs enqueues the stashed rows of the group, and records the jobs
only when all of them are made. In between, and for good if the tick is cut short, the jobs exist
and the record does not list them; nothing tells another tick that the group has been claimed. So
the groups are enqueued once, as long as nobody makes jobs of a group, or writes the record, while
there are jobs that the record or the copy in hand does not list (`enqueuedOnce`). A worker that is
restarted enqueues a second time what the tick before it has left unrecorded
(`group_enqueued_twice`).
-/

namespace RestoreEngine

open Effects Prog Program

variable {ι : Type} [DecidableEq ι] {R : Uuid} {cfg : Config} {polls : ℕ} {w₀ w w' : World}
  {v : ι → RunView} {i : ι} {m : RunView} {o : Op} {a : Answer} {r : o.Res}
  {c₀ c : Pool commands Exn World RunView ι} {rows : List (List Row)} {k : ℕ}

/-- The jobs of the group at `k`. -/
def ofGroup (k : ℕ) (made : List Made) : List Made := made.filter (·.group = some k)

/-- The rows of the run: the ones that are stashed at first, or with which it is started. -/
structure HasRows (R : Uuid) (w₀ : World) (v : ι → RunView) (rows : List (List Row)) : Prop where
  stashed : ∀ run, w₀.run R = some run → run.pending = rows
  started : ∀ i, (v i).owns = true → (v i).rows = rows

/-- The jobs made of the group at `k`: a single program has made them, at most one for each row and
in the order of the rows, and none if the group has had jobs before. -/
structure MadeOnce (R : Uuid) (w₀ : World) (rows : List (List Row)) (k : ℕ) (v : ι → RunView) :
    Prop where
  unique : ∀ i j, ofGroup k (v i).log ≠ [] → ofGroup k (v j).log ≠ [] → i = j
  backups : ∀ i,
    List.IsPrefix ((ofGroup k (v i).log).map (·.backupId)) ((rows.getD k []).map (·.backupId))
  before : ∀ run, w₀.run R = some run → run.jobsAt k ≠ [] → ∀ i, ofGroup k (v i).log = []

/-- **The rows of each group are enqueued once.** -/
def EnqueuedOnce (R : Uuid) (cond : Condition commands World RunView ι)
    (c₀ : Pool commands Exn World RunView ι) : Prop :=
  ∀ c, Reachable environment (runProtocol R) cond c₀ c →
    ∃ rows, HasRows R c₀.world c.view rows ∧ ∀ k, MadeOnce R c₀.world rows k c.view

/-- Whether the command writes the record of the run. -/
def Op.writes (R : Uuid) : Op → Bool
  | setRun run => run.id = R
  | _ => false

theorem Op.writes_iff : o.writes R = true ↔ o.Writes R := by
  cases o <;> simp [writes, Writes]

instance : Decidable (o.Writes R) := decidable_of_iff _ Op.writes_iff

/-- Nobody writes the run or makes a job of it with a copy that lists other jobs than the stored
record. -/
def JobsKnown (R : Uuid) : Condition commands World RunView ι := fun w v i o _ =>
  o.Writes R ∨ o.madeFor R ≠ none → ∀ h run, (v i).held = some h → w.run R = some run →
    h.jobIdsByGroup = run.jobIdsByGroup

instance : Decidable (JobsKnown R w v i o r) :=
  decidable_of_iff (o.Writes R ∨ o.madeFor R ≠ none → ∀ h ∈ (v i).held, ∀ run ∈ w.run R,
      h.jobIdsByGroup = run.jobIdsByGroup)
    ⟨fun hknown hacts h run hheld hrun => hknown hacts h hheld run hrun,
      fun hknown hacts h hheld run hrun => hknown hacts h run hheld hrun⟩

/-- Nobody makes a job of a group that has unrecorded jobs, other than those that the program has
in hand itself. -/
def TakesTurns (R : Uuid) : Condition commands World RunView ι := fun _ v i o _ =>
  ∀ e, o.madeFor R = some e → ∀ j, (∀ e' ∈ (v j).lost, e'.group ≠ e.group) ∧
    (j ≠ i → ∀ e' ∈ (v j).made, e'.group ≠ e.group)

instance [Fintype ι] : Decidable (TakesTurns R w v i o r) :=
  inferInstanceAs (Decidable (∀ e ∈ o.madeFor R, ∀ j, (∀ e' ∈ (v j).lost, e'.group ≠ e.group) ∧
    (j ≠ i → ∀ e' ∈ (v j).made, e'.group ≠ e.group)))

/-- The jobs of the run that the program has made, and that it has not recorded. -/
def RunView.unrecorded (m : RunView) : List Made := m.lost ++ m.made

/-! ### Jobs of a group -/

theorem ofGroup_append (made made' : List Made) :
    ofGroup k (made ++ made') = ofGroup k made ++ ofGroup k made' := List.filter_append ..

theorem ofGroup_of_forall {made : List Made} (h : ∀ e ∈ made, e.group = some k) :
    ofGroup k made = made := List.filter_eq_self.mpr fun e he => decide_eq_true (h e he)

theorem ofGroup_eq_nil {made : List Made} (h : ∀ e ∈ made, e.group ≠ some k) :
    ofGroup k made = [] :=
  List.filter_eq_nil_iff.mpr fun e he hgroup => h e he (of_decide_eq_true hgroup)

/-! ### The invariant -/

/-- The jobs that are made of the group at `k` fit the stored record: while that lists none, all of
them are still to be recorded. -/
structure GroupKept (R : Uuid) (w₀ : World) (rows : List (List Row)) (k : ℕ) (w : World)
    (v : ι → RunView) : Prop extends MadeOnce R w₀ rows k v where
  unlisted : ∀ run, w.run R = some run → run.jobsAt k = [] →
    ∀ i, ofGroup k (v i).log = ofGroup k (v i).unrecorded
  listed : ∀ run, w₀.run R = some run → run.jobsAt k ≠ [] →
    ∃ run', w.run R = some run' ∧ run'.jobsAt k ≠ []

/-- The rows that records of the run have stashed. -/
def Stashes (rows : List (List Row)) (run : PlanRun) : Prop := run.pending = rows ∨ run.pending = []

/-- The jobs that are made, and the rows, fit the stored record. -/
structure GroupsKept (R : Uuid) (w₀ : World) (rows : List (List Row)) (w : World)
    (v : ι → RunView) : Prop where
  source : HasRows R w₀ v rows
  stored : ∀ run, w.run R = some run → Stashes rows run
  held : ∀ i h, (v i).held = some h → Stashes rows h
  unmade : w.run R = none → w₀.run R = none ∧ ∀ i, (v i).log = [] ∧ (v i).unrecorded = []
  groups : ∀ k, GroupKept R w₀ rows k w v

omit [DecidableEq ι] in
/-- What does not change the record or the jobs of the group. -/
private theorem GroupKept.congr {v' : ι → RunView} (hk : GroupKept R w₀ rows k w v)
    (hrun : w'.run R = w.run R) (hlog : ∀ j, ofGroup k (v' j).log = ofGroup k (v j).log)
    (hleft : ∀ j, ofGroup k (v' j).unrecorded = ofGroup k (v j).unrecorded) :
    GroupKept R w₀ rows k w' v' := by
  refine ⟨⟨fun j j' => ?_, fun j => ?_, fun run h hjobs j => ?_⟩, fun run h hjobs j => ?_,
    fun run h hjobs => ?_⟩
  · rw [hlog, hlog]
    exact hk.unique j j'
  · rw [hlog]
    exact hk.backups j
  · rw [hlog]
    exact hk.before run h hjobs j
  · rw [hlog, hleft]
    exact hk.unlisted run (hrun ▸ h) hjobs j
  · rw [hrun]
    exact hk.listed run h hjobs

/-- Steps that make no job, and leave the record and the copies of it alone. -/
theorem GroupsKept.same (hg : GroupsKept R w₀ rows w v) (hrun : w'.run R = w.run R)
    (hrows : m.rows = (v i).rows) (howns : m.owns = (v i).owns)
    (hheld : ∀ h, m.held = some h → (v i).held = some h ∨ w.run R = some h)
    (hlog : m.log = (v i).log) (hleft : m.unrecorded = (v i).unrecorded) :
    GroupsKept R w₀ rows w' (Function.update v i m) := by
  have hlogs := update_field RunView.log hlog
  have hlefts := update_field RunView.unrecorded hleft
  refine ⟨⟨hg.source.stashed, fun j => ?_⟩, fun run h => hg.stored run (hrun ▸ h), ?_,
    fun hnone => ?_, fun k => ?_⟩
  · rw [update_field RunView.rows hrows, update_field RunView.owns howns]
    exact hg.source.started j
  · refine (Function.forall_update_iff v fun j m => ∀ h, m.held = some h → Stashes rows h).mpr
      ⟨fun h hh => ?_, fun j _ => hg.held j⟩
    rcases hheld h hh with hold | hstored
    · exact hg.held i h hold
    · exact hg.stored h hstored
  · obtain ⟨hfirst, hnil⟩ := hg.unmade (hrun ▸ hnone)
    exact ⟨hfirst, fun j => by rw [hlogs, hlefts]; exact hnil j⟩
  · exact (hg.groups k).congr hrun (fun j => by rw [hlogs]) fun j => by rw [hlefts]

/-- The identifier of the run is made: there is nothing of the run yet. -/
theorem GroupsKept.mint (hg : GroupsKept R w₀ rows w v) (hnone : w.run R = none)
    (hothers : ∀ j, j ≠ i → (v j).owns = false) (hheld : ∀ j, (v j).held = none)
    (hrun : w'.run R = w.run R) (hm : m = { v i with owns := true, making := none }) :
    GroupsKept R w₀ (v i).rows w' (Function.update v i m) := by
  obtain ⟨hfirst, hnil⟩ := hg.unmade hnone
  have hlogs (j : ι) :
      (Function.update v i m j).log = [] ∧ (Function.update v i m j).unrecorded = [] := by
    rw [update_field RunView.log (hm ▸ rfl), update_field RunView.unrecorded (hm ▸ rfl)]
    exact hnil j
  refine ⟨⟨fun run h => ?_, ?_⟩, fun run h => ?_, fun j h hh => ?_, fun _ => ⟨hfirst, hlogs⟩,
    fun k => ?_⟩
  · cases hfirst.symm.trans h
  · refine (Function.forall_update_iff v fun j m => m.owns = true → m.rows = (v i).rows).mpr
      ⟨fun _ => hm ▸ rfl, fun j hj h => ?_⟩
    cases (hothers j hj).symm.trans h
  · cases (hrun.trans hnone).symm.trans h
  · rw [update_field RunView.held (hm ▸ rfl), hheld] at hh
    cases hh
  · refine ⟨⟨fun j j' h => ?_, fun j => ?_, fun run h => ?_⟩, fun run h => ?_, fun run h => ?_⟩
    · rw [(hlogs j).1] at h
      exact absurd rfl h
    · rw [(hlogs j).1]
      exact List.nil_prefix
    · cases hfirst.symm.trans h
    · cases (hrun.trans hnone).symm.trans h
    · cases hfirst.symm.trans h

/-- The program writes the record, and what it has in hand is recorded, or there is nothing. -/
private theorem GroupKept.write (hk : GroupKept R w₀ rows k w v) {run : PlanRun}
    (hrun : w'.run R = some run)
    (hunlisted : run.jobsAt k = [] → ofGroup k (v i).made = [] ∧
      ∀ j, ofGroup k (v j).log = ofGroup k (v j).unrecorded)
    (hlisted : ∀ stored, w.run R = some stored → stored.jobsAt k ≠ [] → run.jobsAt k ≠ []) :
    GroupKept R w₀ rows k w' (Function.update v i ((v i).write run)) := by
  have hlogs := update_field (v := v) (i := i) (m := (v i).write run) RunView.log rfl
  refine ⟨⟨fun j j' => ?_, fun j => ?_, fun run h hjobs j => ?_⟩, fun run' h hjobs j => ?_,
    fun run₀ h hjobs => ?_⟩
  · rw [hlogs, hlogs]
    exact hk.unique j j'
  · rw [hlogs]
    exact hk.backups j
  · rw [hlogs]
    exact hk.before run h hjobs j
  · obtain rfl := Option.some.inj (hrun.symm.trans h)
    obtain ⟨hi, hall⟩ := hunlisted hjobs
    rw [hlogs, hall j]
    by_cases hj : j = i
    · subst hj
      rw [Function.update_self, RunView.unrecorded, ofGroup_append, hi]
      exact (ofGroup_append (v j).lost []).symm
    · rw [Function.update_of_ne hj]
  · obtain ⟨stored, hstored, hne⟩ := hk.listed run₀ h hjobs
    exact ⟨run, hrun, hlisted stored hstored hne⟩

/-- The jobs of a group after a write in turn. -/
private theorem GroupsKept.writeGroup (hg : GroupsKept R w₀ rows w v) (hk : RunKept R w v)
    {run : PlanRun} (hmay : (v i).MayWrite run)
    (hknown : ∀ h stored, (v i).held = some h → w.run R = some stored →
      h.jobIdsByGroup = stored.jobIdsByGroup)
    (hrun : w'.run R = some run) (k : ℕ) :
    GroupKept R w₀ rows k w' (Function.update v i ((v i).write run)) := by
  have hgroup := hg.groups k
  rcases hk.writer hmay with ⟨-, -, hnone, hnew⟩ | ⟨h, hheld, hedit⟩
  · have hnil := (hg.unmade hnone).2
    have hmade : (v i).made = [] := (List.append_eq_nil_iff.mp (hnil i).2).2
    refine hgroup.write hrun (fun _ => ⟨by rw [hmade]; rfl, fun j => ?_⟩) fun stored h => ?_
    · rw [(hnil j).1, (hnil j).2]
    · cases hnone.symm.trans h
  obtain ⟨stored, hstored⟩ :=
    Option.ne_none_iff_exists'.mp ((hk.fits i).held (hheld ▸ nofun))
  have hsame (j : ℕ) : h.jobsAt j = stored.jobsAt j := by
    rw [PlanRun.jobsAt, hknown h stored hheld hstored]
    rfl
  rcases hedit.jobs with ⟨hmade, hjobs⟩ | ⟨k', rows', ids, hmade, hlt, hempty, hjobs⟩
  · have hrunJobs : run.jobsAt k = stored.jobsAt k := by
      rw [← hsame, PlanRun.jobsAt, hjobs]
      rfl
    refine hgroup.write hrun (fun hnil => ⟨by rw [hmade]; rfl, ?_⟩) fun stored' h hne => ?_
    · exact hgroup.unlisted stored hstored (hrunJobs ▸ hnil)
    · obtain rfl := Option.some.inj (hstored.symm.trans h)
      exact hrunJobs ▸ hne
  · have hrunJobs : run.jobsAt k = if k = k' then ids else stored.jobsAt k := by
      rw [← hsame, PlanRun.jobsAt, hjobs, getD_set k hlt]
      rfl
    refine hgroup.write hrun (fun hnil => ?_) fun stored' h hne => ?_
    · rw [hrunJobs] at hnil
      split_ifs at hnil with hkk
      · subst hkk
        have hnone : (v i).made = [] := List.map_eq_nil_iff.mp (hmade.ids.trans hnil)
        exact ⟨by rw [hnone]; rfl, hgroup.unlisted stored hstored ((hsame k).symm.trans hempty)⟩
      · refine ⟨ofGroup_eq_nil fun e he h => hkk ?_, hgroup.unlisted stored hstored hnil⟩
        exact Option.some.inj (h.symm.trans (hmade.group e he))
    · obtain rfl := Option.some.inj (hstored.symm.trans h)
      rw [hrunJobs, if_neg]
      · exact hne
      · rintro rfl
        exact hne ((hsame k).symm.trans hempty)

/-- The record is written. -/
theorem GroupsKept.write (hg : GroupsKept R w₀ rows w v) (hk : RunKept R w v) {run : PlanRun}
    (hmay : (v i).MayWrite run)
    (hknown : ∀ h stored, (v i).held = some h → w.run R = some stored →
      h.jobIdsByGroup = stored.jobIdsByGroup)
    (hrun : w'.run R = some run) :
    GroupsKept R w₀ rows w' (Function.update v i ((v i).write run)) := by
  have hstashes : Stashes rows run := by
    rcases hk.writer hmay with ⟨-, -, -, hnew⟩ | ⟨h, hheld, hedit⟩
    · right
      rw [PlanRun.pending, hnew.rows]
      rfl
    · rcases hedit.rows with hsame | ⟨howns, hsome⟩ | hsome
      · have hpending : run.pending = h.pending := by rw [PlanRun.pending, hsame]; rfl
        rw [Stashes, hpending]
        exact hg.held i h hheld
      · left
        rw [PlanRun.pending, hsome]
        exact hg.source.started i howns
      · right
        rw [PlanRun.pending, hsome]
        rfl
  refine ⟨⟨hg.source.stashed, fun j => ?_⟩, fun run' h => ?_, ?_, fun hnone => ?_,
    hg.writeGroup hk hmay hknown hrun⟩
  · rw [update_field (v := v) (i := i) (m := (v i).write run) RunView.rows rfl,
      update_field (v := v) (i := i) (m := (v i).write run) RunView.owns rfl]
    exact hg.source.started j
  · exact Option.some.inj (hrun.symm.trans h) ▸ hstashes
  · refine (Function.forall_update_iff v fun j m => ∀ h, m.held = some h → Stashes rows h).mpr
      ⟨fun h hh => ?_, fun j _ => hg.held j⟩
    exact Option.some.inj hh ▸ hstashes
  · cases hnone.symm.trans hrun

omit [DecidableEq ι] in
/-- The rows of a group, as the program that enqueues it finds them. -/
private theorem GroupsKept.rowsAt (hg : GroupsKept R w₀ rows w v) {e : Made} {h : PlanRun}
    (hmay : (v i).MayMake e h k) : (v i).rowsAt h k = rows.getD k [] := by
  rw [RunView.rowsAt]
  cases hpending : h.pendingGroupRows with
  | none => rw [hg.source.started i (hmay.first hpending).1]
  | some stash =>
    rcases hg.held i h hmay.held with hsame | hnil
    · exact congrArg (fun rows : List (List Row) => rows.getD k []) hsame
    · have hbackups := hmay.backups
      rw [RunView.rowsAt, hpending] at hbackups
      change _ <+: List.map _ (h.rowsAt k) at hbackups
      rw [PlanRun.rowsAt, hnil] at hbackups
      simp at hbackups

/-- The jobs of the group at `k`, when one more is made of it in turn. -/
private theorem GroupsKept.makeGroup (hg : GroupsKept R w₀ rows w v) {e : Made} {h stored : PlanRun}
    (hmay : (v i).MayMake e h k) (hstored : w.run R = some stored)
    (hknown : h.jobIdsByGroup = stored.jobIdsByGroup)
    (hturn : ∀ j, (∀ e' ∈ (v j).lost, e'.group ≠ e.group) ∧
      (j ≠ i → ∀ e' ∈ (v j).made, e'.group ≠ e.group))
    (hrun : w'.run R = w.run R) :
    GroupKept R w₀ rows k w' (Function.update v i ((v i).make e)) := by
  have hk := hg.groups k
  have hempty : stored.jobsAt k = [] := by
    rw [← hmay.jobs, PlanRun.jobsAt, ← hknown]
    rfl
  -- the group has no jobs yet, so all that are made of it are unrecorded, and it is this one's turn
  have hunlisted := hk.unlisted stored hstored hempty
  have hlost (j : ι) : ofGroup k (v j).lost = [] :=
    ofGroup_eq_nil fun e' he' => hmay.group ▸ (hturn j).1 e' he'
  have hothers (j : ι) (hj : j ≠ i) : ofGroup k (v j).log = [] := by
    rw [hunlisted j, RunView.unrecorded, ofGroup_append, hlost j]
    exact ofGroup_eq_nil fun e' he' => hmay.group ▸ (hturn j).2 hj e' he'
  have hnew : ofGroup k ((v i).made ++ [e]) = (v i).made ++ [e] := by
    rw [ofGroup_append, ofGroup_of_forall hmay.same,
      ofGroup_of_forall (List.forall_mem_singleton.mpr hmay.group)]
  have hmine : ofGroup k ((v i).make e).log = (v i).made ++ [e] := by
    change ofGroup k ((v i).log ++ [e]) = _
    rw [ofGroup_append, hunlisted i, RunView.unrecorded, ofGroup_append, hlost i, List.nil_append,
      ← ofGroup_append, hnew]
  have honly (j : ι) (hj : ofGroup k (Function.update v i ((v i).make e) j).log ≠ []) : j = i := by
    by_contra hne
    rw [Function.update_of_ne hne] at hj
    exact hj (hothers j hne)
  refine ⟨⟨fun j j' hj hj' => (honly j hj).trans (honly j' hj').symm, fun j => ?_,
    fun run₀ h₀ hjobs => ?_⟩, fun run' h' _ j => ?_, fun run₀ h₀ hjobs => ?_⟩
  · by_cases hj : j = i
    · subst hj
      rw [Function.update_self, hmine, ← hg.rowsAt hmay]
      exact hmay.backups
    · rw [Function.update_of_ne hj, hothers j hj]
      exact List.nil_prefix
  · obtain ⟨stored', hstored', hne⟩ := hk.listed run₀ h₀ hjobs
    obtain rfl := Option.some.inj (hstored.symm.trans hstored')
    exact absurd hempty hne
  · by_cases hj : j = i
    · subst hj
      rw [Function.update_self, hmine, RunView.unrecorded, ofGroup_append]
      change _ = ofGroup k (v j).lost ++ ofGroup k ((v j).made ++ [e])
      rw [hlost j, hnew, List.nil_append]
    · rw [Function.update_of_ne hj, hunlisted j]
  · rw [hrun]
    exact hk.listed run₀ h₀ hjobs

/-- A job is made in turn. -/
theorem GroupsKept.make (hg : GroupsKept R w₀ rows w v) {e : Made} {h stored : PlanRun} {k : ℕ}
    (hmay : (v i).MayMake e h k) (hstored : w.run R = some stored)
    (hknown : h.jobIdsByGroup = stored.jobIdsByGroup)
    (hturn : ∀ j, (∀ e' ∈ (v j).lost, e'.group ≠ e.group) ∧
      (j ≠ i → ∀ e' ∈ (v j).made, e'.group ≠ e.group))
    (hrun : w'.run R = w.run R) :
    GroupsKept R w₀ rows w' (Function.update v i ((v i).make e)) := by
  refine ⟨⟨hg.source.stashed, fun j => ?_⟩, fun run h => hg.stored run (hrun ▸ h), fun j h hh => ?_,
    fun hnone => ?_, fun k' => ?_⟩
  · rw [update_field (v := v) (i := i) (m := (v i).make e) RunView.rows rfl,
      update_field (v := v) (i := i) (m := (v i).make e) RunView.owns rfl]
    exact hg.source.started j
  · rw [update_field (v := v) (i := i) (m := (v i).make e) RunView.held rfl] at hh
    exact hg.held j h hh
  · cases hstored.symm.trans (hrun.symm.trans hnone)
  · by_cases hk : k' = k
    · subst hk
      exact hg.makeGroup hmay hstored hknown hturn hrun
    -- The new job is one of another group.
    have hother : ofGroup k' [e] = [] := ofGroup_eq_nil fun e' he' hgroup => by
      rw [List.mem_singleton.mp he', hmay.group] at hgroup
      exact hk (Option.some.inj hgroup).symm
    refine (hg.groups k').congr hrun (fun j => ?_) fun j => ?_
    · refine update_field (fun m => ofGroup k' m.log) ?_ j
      change ofGroup k' ((v i).log ++ [e]) = _
      rw [ofGroup_append, hother, List.append_nil]
    · refine update_field (fun m => ofGroup k' m.unrecorded) ?_ j
      change ofGroup k' ((v i).lost ++ ((v i).made ++ [e])) = _
      rw [← List.append_assoc, ofGroup_append, hother, List.append_nil]
      rfl

/-! ### Whole runs -/

/-- Every step in turn keeps the invariant. -/
theorem GroupsKept.step (hg : GroupsKept R w₀ rows w v) (hk : RunKept R w v)
    (hstep : RunStep R w (v i) o w' m) (hknown : JobsKnown R w v i o r)
    (hturn : TakesTurns R w v i o r) :
    ∃ rows, GroupsKept R w₀ rows w' (Function.update v i m) := by
  cases hstep with
  | spare _ _ hrun hpast howns =>
    refine ⟨rows, hg.same hrun hpast.rows howns (fun h hh => .inl (hpast.held ▸ hh)) hpast.log ?_⟩
    rw [RunView.unrecorded, hpast.lost, hpast.made]
    rfl
  | mint _ hnext _ hrun hview =>
    obtain ⟨hnone, hothers, hheld⟩ := hk.unowned hnext
    exact ⟨_, hg.mint hnone (fun j _ => hothers j) hheld hrun hview⟩
  | read run _ hstored hw _ _ hview =>
    subst hview
    refine ⟨rows, hg.same (hw ▸ rfl) rfl rfl (fun h hh => .inr ?_) rfl ?_⟩
    · exact hstored.trans hh
    · exact List.append_nil _
  | write run ho hid hmay hrun _ hview =>
    subst ho hview
    exact ⟨rows, hg.write hk hmay (fun h stored => hknown (.inl hid) h stored) hrun⟩
  | make id f e h k ho he hmay hrun _ hview =>
    subst ho hview
    obtain ⟨stored, hstored⟩ :=
      Option.ne_none_iff_exists'.mp ((hk.fits i).held (hmay.held ▸ nofun))
    have hjobs := hknown (.inr (he ▸ nofun)) h stored hmay.held hstored
    exact ⟨rows, hg.make hmay hstored hjobs (hturn e he) hrun⟩
  | push _ _ _ _ _ _ hrun _ hview =>
    subst hview
    exact ⟨rows, hg.same hrun rfl rfl (fun h hh => .inl hh) rfl rfl⟩

omit [DecidableEq ι] in
/-- Programs that have not begun have made nothing. -/
theorem groupsKept_of_unbegun (hv : ∀ i, (v i).Unbegun) :
    ∃ rows, GroupsKept R w rows w v := by
  have hleft (i : ι) : (v i).unrecorded = [] := by
    rw [RunView.unrecorded, (hv i).lost, (hv i).made]
    rfl
  have hnil (i : ι) (k : ℕ) : ofGroup k (v i).log = [] ∧ ofGroup k (v i).unrecorded = [] := by
    rw [(hv i).log, hleft i]
    exact ⟨rfl, rfl⟩
  have hsource : ∃ rows, ∀ run, w.run R = some run → run.pending = rows := by
    cases hrun : w.run R with
    | none => exact ⟨[], fun run h => by cases h⟩
    | some run => exact ⟨run.pending, fun run' h => Option.some.inj h ▸ rfl⟩
  obtain ⟨rows, hrows⟩ := hsource
  refine ⟨rows, ⟨hrows, fun i h => ?_⟩, fun run h => .inl (hrows run h), fun i h hh => ?_,
    fun hnone => ⟨hnone, fun i => ⟨(hv i).log, hleft i⟩⟩, fun k => ?_⟩
  · cases (hv i).owns.symm.trans h
  · cases (hv i).held.symm.trans hh
  · refine ⟨⟨fun i j h => absurd (hnil i k).1 h, fun i => ?_, fun _ _ _ i => (hnil i k).1⟩,
      fun _ _ _ i => ?_, fun run h hjobs => ⟨run, h, hjobs⟩⟩
    · rw [(hnil i k).1]
      exact List.nil_prefix
    · rw [(hnil i k).1, (hnil i k).2]

/-- **The groups are enqueued once, in turn**: if nobody makes jobs of a group, or writes the run,
while there are jobs that its copy of the record does not list, or that another program has not
recorded. -/
theorem enqueuedOnce (hw : w.RunsInOrder) (acts : ι → RunProcess) :
    EnqueuedOnce R (fun w v i o r => JobsKnown R w v i o r ∧ TakesTurns R w v i o r)
      (runPool cfg polls w acts) := by
  intro c hc
  obtain ⟨-, rows, hg⟩ := (runPool_onRun hw acts).invariant hc
    (fun w' v => ∃ rows, GroupsKept R w rows w' v)
    (groupsKept_of_unbegun fun i => (acts i).unbegun)
    fun w v i o a r w' m hk ⟨rows, hg⟩ _ hstep ⟨hknown, hturn⟩ => hg.step hk hstep hknown hturn
  exact ⟨rows, hg.source, fun k => (hg.groups k).toMadeOnce⟩

/-- Two workers, one tick each, of which the first may be cut short. -/
abbrev twoTicks : Pool commands Exn World RunView Bool :=
  runPool {} 0 waitingWorld fun _ => .ticks 1

/-- **Two ticks that overlap in turn**: one lists the active runs, the other enqueues the group and
records its job, and then the first reads the run and finds the job there. -/
theorem enqueuedOnce_inTurn : ∃ c rows,
    Reachable environment (runProtocol 1)
      (fun w v i o r => JobsKnown 1 w v i o r ∧ TakesTurns 1 w v i o r) twoTicks c ∧
    (∀ i, c.proc i = .ret ()) ∧ (ofGroup 0 (c.view true).log).map (·.backupId) = ["b"] ∧
    ofGroup 0 (c.view false).log = [] ∧ (c.world.run 1).map (·.jobIdsByGroup) = some [[2]] ∧
    HasRows 1 twoTicks.world c.view rows ∧ ∀ k, MadeOnce 1 twoTicks.world rows k c.view := by
  have hexec : (twoTicks.execWhen environment (runProtocol 1)
      (fun w v i o r => JobsKnown 1 w v i o r ∧ TakesTurns 1 w v i o r)
      ([(false, .ok)] ++ List.replicate 10 (true, .ok) ++ List.replicate 2 (false, .ok))).any
      (fun c => (c.proc true).returned && (c.proc false).returned &&
        decide ((ofGroup 0 (c.view true).log).map (·.backupId) = ["b"] ∧
          (c.world.run 1).map (·.jobIdsByGroup) = some [[2]])) = true := by decide +kernel
  obtain ⟨c, hc, hend⟩ := Pool.exists_reachable_when hexec
  simp only [Bool.and_eq_true, decide_eq_true_eq] at hend
  obtain ⟨⟨htrue, hfalse⟩, hlog, hrecord⟩ := hend
  obtain ⟨rows, hrows, honce⟩ := enqueuedOnce waitingWorld_runsInOrder _ c hc
  refine ⟨c, rows, hc, fun i => ?_, hlog, ?_, hrecord, hrows, honce⟩
  · cases i with
    | true => exact eq_ret_of_returned htrue
    | false => exact eq_ret_of_returned hfalse
  · -- one of them has made the job, so the other has not
    by_contra hother
    have hmade : ofGroup 0 (c.view true).log ≠ [] := by
      intro hnil
      rw [hnil] at hlog
      cases hlog
    cases (honce 0).unique true false hmade hother

/-- The first tick makes the job of the group, and is cut short before it has recorded it. The
second tick makes the job again. -/
theorem group_enqueued_twice : ¬ EnqueuedOnce 1 (fun _ _ _ _ _ => True) twoTicks := by
  intro honce
  have hexec : (twoTicks.exec environment (runProtocol 1)
      (List.replicate 8 (true, .ok) ++ List.replicate 9 (false, .ok))).any (fun c =>
        decide (ofGroup 0 (c.view true).log ≠ [] ∧ ofGroup 0 (c.view false).log ≠ [])) = true := by
    decide +kernel
  obtain ⟨c, hc, hboth⟩ := Pool.exists_reachable (fun _ _ _ _ _ => trivial) hexec
  obtain ⟨hfirst, hsecond⟩ := of_decide_eq_true hboth
  obtain ⟨rows, -, hgroups⟩ := honce c hc
  cases (hgroups 0).unique true false hfirst hsecond

end RestoreEngine
