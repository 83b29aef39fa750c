import RestoreEngine.Model.Changes
import RestoreEngine.Runs.Writers

/-!
# The steps of a run

What a step of a pool does to the run `R`, if the program that moves keeps to the protocol of the
run: it leaves the run alone, makes its identifier, reads it, writes it, makes a job of it, or
pushes one to the queue (`RunStep`). The invariants of runs are proved by these cases.
-/

namespace RestoreEngine

open Effects Prog Program

variable {R : Uuid} {w w' : World} {m : RunView} {o : Op} {a : Answer} {r : o.Res}

/-- Runs are stored under their own ids. -/
def World.Keyed (w : World) : Prop := ∀ id run, w.run id = some run → run.id = id

theorem World.Keyed.step (hw : w.Keyed) (h : environment o a w = some (r, w')) : w'.Keyed := by
  have hruns := (after_step h).runs
  intro id run hrun
  rw [World.run, hruns] at hrun
  cases o with
  | setRun new =>
    by_cases hid : id = new.id
    · subst hid
      rw [← Option.some.inj ((AList.lookup_insert w.runs).symm.trans hrun)]
    · exact hw id run ((AList.lookup_insert_ne hid).symm.trans hrun)
  | _ => exact hw id run hrun

theorem nextUuid_le (h : environment o a w = some (r, w')) : w.nextUuid ≤ w'.nextUuid := by
  rw [(after_step h).nextUuid]
  cases o <;> first | exact le_rfl | exact Nat.le_succ _

/-- The command writes the record of the run `R`. -/
def Op.Writes (R : Uuid) : Op → Prop
  | setRun run => run.id = R
  | _ => False

theorem run_kept (h : environment o a w = some (r, w')) (ho : ¬ o.Writes R) :
    w'.run R = w.run R := by
  rw [World.run, (after_step h).runs]
  cases o with
  | setRun run => exact AList.lookup_insert_ne fun hid => ho hid.symm
  | _ => rfl

private theorem uuid4_reply {id : Op.uuid4.Res} (h : environment .uuid4 a w = some (id, w')) :
    id = w.nextUuid ∧ w' = { w with nextUuid := w.nextUuid + 1 } := by
  obtain ⟨rfl, rfl⟩ := Prod.mk.inj (Option.some.inj h)
  exact ⟨rfl, rfl⟩

private theorem getRun_reply {id : Uuid} {found : (Op.getRun id).Res}
    (h : environment (.getRun id) a w = some (found, w')) : found = w.run id ∧ w' = w := by
  obtain ⟨rfl, rfl⟩ := Prod.mk.inj (Option.some.inj h)
  exact ⟨rfl, rfl⟩

/-- **What a step does to the run `R`**, for a program that keeps to the protocol. -/
inductive RunStep (R : Uuid) (w : World) (m : RunView) (o : Op) (w' : World) (m' : RunView) : Prop
  | spare (hmade : o.madeFor R = none) (hwrite : ¬ o.Writes R)
      (hrun : w'.run R = w.run R) (hpast : m.Past m') (howns : m'.owns = m.owns)
  | mint (ho : o = .uuid4) (hnext : w.nextUuid = R) (hnext' : w'.nextUuid = R + 1)
      (hrun : w'.run R = w.run R) (hview : m' = { m with owns := true, making := none })
  | read (run : PlanRun) (ho : o = .getRun R) (hrun : w.run R = some run) (hsame : w' = w)
      (hcareful : m.careful = true → m.made = []) (hblind : m.blind = false)
      (hview : m' = m.read run)
  | write (run : PlanRun) (ho : o = .setRun run) (hid : run.id = R) (hmay : m.MayWrite run)
      (hrun : w'.run R = some run) (hnext : w'.nextUuid = w.nextUuid) (hview : m' = m.write run)
  | make (id : Uuid) (f : Instant → Job → Job) (e : Made) (h : PlanRun) (k : ℕ)
      (ho : o = .hset id f) (he : (Op.hset id f).madeFor R = some e) (hmay : m.MayMake e h k)
      (hrun : w'.run R = w.run R) (hnext : w'.nextUuid = w.nextUuid) (hview : m' = m.make e)
  | push (id : Uuid) (h : PlanRun) (ho : o = .rpush id) (hmaking : m.making = some id)
      (hheld : m.held = some h) (hstatus : h.status = .RUNNING) (hrun : w'.run R = w.run R)
      (hnext : w'.nextUuid = w.nextUuid) (hview : m' = { m with pushed := m.pushed ++ [id] })

/-- **The steps of a run.** -/
theorem runStep (h : environment o a w = some (r, w')) (hpermits : (runProtocol R).Permits m o) :
    RunStep R w m o w' ((runProtocol R).observe m o r) := by
  have hafter := after_step h
  have hrun := @run_kept R w w' o a r h
  cases o with
  | uuid4 =>
    obtain ⟨hid, hw'⟩ := uuid4_reply h
    by_cases hR : r = R
    · refine .mint rfl (hid.symm.trans hR) ?_ (hrun not_false) ?_
      · rw [hw', ← hR, hid]
      · change { m with owns := m.owns || decide (r = R), making := none } = _
        rw [decide_eq_true hR, Bool.or_true]
    · refine .spare rfl not_false (hrun not_false) (Op.SparesRun.observe (o := .uuid4) trivial r) ?_
      change (m.owns || decide (r = R)) = m.owns
      rw [decide_eq_false hR, Bool.or_false]
  | getRun id =>
    obtain ⟨hfound, hsame⟩ := getRun_reply h
    by_cases hR : id = R
    · subst hR
      cases r with
      | none => exact .spare rfl not_false (hrun not_false) (.refl m) rfl
      | some run =>
        obtain ⟨hblind, hcareful⟩ := hpermits rfl
        exact .read run rfl hfound.symm hsame hcareful hblind observe_getRun
    · rw [observe_getRun_ne hR]
      exact .spare rfl not_false (hrun not_false) (.refl m) rfl
  | setRun run =>
    by_cases hR : run.id = R
    · refine .write run rfl hR (hpermits hR) ?_ hafter.nextUuid (observe_setRun hR r)
      rw [World.run, hafter.runs, ← hR]
      exact AList.lookup_insert _
    · rw [observe_setRun_ne hR]
      exact .spare rfl hR (hrun hR) (.refl m) rfl
  | hset id f =>
    cases hmade : (Op.hset id f).madeFor R with
    | none =>
      rw [observe_hset_none hmade]
      exact .spare hmade not_false (hrun not_false) (.refl m) rfl
    | some e =>
      obtain ⟨h₀, k, hmay⟩ := hpermits e hmade
      exact .make id f e h₀ k rfl hmade hmay (hrun not_false) hafter.nextUuid (observe_hset hmade r)
  | rpush id =>
    by_cases hmaking : m.making = some id
    · obtain ⟨h₀, hheld, hstatus⟩ := hpermits hmaking
      exact .push id h₀ rfl hmaking hheld hstatus (hrun not_false) hafter.nextUuid (if_pos hmaking)
    · have hview : (runProtocol R).observe m (.rpush id) r = m := if_neg hmaking
      rw [hview]
      exact .spare rfl not_false (hrun not_false) (.refl m) rfl
  | hgetall id =>
    have hspares : (Op.hgetall id).SparesRun R := trivial
    exact .spare rfl not_false (hrun not_false) (hspares.observe r) rfl
  | _ => exact .spare rfl not_false (hrun not_false) (.refl m) rfl

/-! ### What an edit changes -/

section edits

variable {h run : PlanRun}

/-- An edit leaves the jobs alone, or records the jobs of a group that has none yet. -/
theorem RunView.Edit.jobs (hedit : m.Edit h run) :
    m.made = [] ∧ run.jobIdsByGroup = h.jobIdsByGroup ∨
      ∃ k rows ids, MadeOf m.made k rows ids ∧ k < h.jobIdsByGroup.length ∧ h.jobsAt k = [] ∧
        run.jobIdsByGroup = h.jobIdsByGroup.set k ids := by
  cases hedit with
  | settle hmade hstage | stash hmade _ _ _ _ _ _ _ _ hstage | pass _ _ _ hmade _ _ _ _ _ _ hstage
  | complete _ hmade _ _ hstage | cancel hmade _ hstage =>
    exact .inl ⟨hmade, congrArg Stage.jobIdsByGroup hstage⟩
  | finish _ _ _ hmade _ _ _ _ _ houtcome hstage =>
    obtain ⟨status, error, current, -, rfl⟩ := outcome_spec houtcome
    exact .inl ⟨hmade, congrArg Stage.jobIdsByGroup hstage⟩
  | first ids _ _ _ hlt hjobs hmade hstage =>
    exact .inr ⟨_, _, ids, hmade, hlt, hjobs _, congrArg Stage.jobIdsByGroup hstage⟩
  | enqueue k ids _ hnext hjobs hmade hstage =>
    exact .inr ⟨k, _, ids, hmade, hnext.lt, hjobs, congrArg Stage.jobIdsByGroup hstage⟩

/-- An edit leaves the stashed rows alone, stashes those of the start, or drops them. -/
theorem RunView.Edit.rows (hedit : m.Edit h run) :
    run.pendingGroupRows = h.pendingGroupRows ∨
      m.owns = true ∧ run.pendingGroupRows = some m.rows ∨ run.pendingGroupRows = some [] := by
  cases hedit with
  | settle _ hstage | pass _ _ _ _ _ _ _ _ _ _ hstage | complete _ _ _ _ hstage
  | first _ _ _ _ _ _ _ hstage | enqueue _ _ _ _ _ _ hstage =>
    exact .inl (congrArg Stage.pendingGroupRows hstage)
  | finish _ _ _ _ _ _ _ _ _ houtcome hstage =>
    obtain ⟨status, error, current, -, rfl⟩ := outcome_spec houtcome
    exact .inl (congrArg Stage.pendingGroupRows hstage)
  | stash _ howns _ _ _ _ _ _ _ hstage =>
    exact .inr (.inl ⟨howns, congrArg Stage.pendingGroupRows hstage⟩)
  | cancel _ _ hstage => exact .inr (.inr (congrArg Stage.pendingGroupRows hstage))

end edits

/-- The world gives genuine replies. -/
theorem genuineRun_of_keyed (hw : w.Keyed) (hheld : m.held ≠ none → w.run R ≠ none)
    (h : environment o a w = some (r, w')) : GenuineRun R m o r := by
  cases o with
  | getRun id =>
    obtain ⟨hfound, -⟩ := getRun_reply h
    cases r with
    | none =>
      rintro rfl
      by_contra hsome
      exact hheld hsome hfound.symm
    | some run => exact hw id run hfound.symm
  | _ => trivial

end RestoreEngine
