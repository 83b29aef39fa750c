import RestoreEngine.Runs.Record
import RestoreEngine.Runs.Turns

/-!
# The writers keep to the protocol

`start_plan_run`, the ticks of `advance_plan_runs` and `cancel_plan_run` keep to the protocol of
every run, whatever the other programs do between their commands. The `enqueue_fn` that they use
is assumed to make one job for each row of its request, in order, unless it raises in between, and
to leave runs alone otherwise (`EnqueueFn.Keeps`); `enqueue_restores` does
(`enqueueRestores_keeps`). A program that has made jobs of the run records them before it does
anything else with the run, unless the `enqueue_fn` raises. With one that does not, the program is
careful: it never reads the record with jobs in hand.
-/

namespace RestoreEngine

open Effects Prog Program

variable {R : Uuid} {careful : Bool} {m m' m'' : RunView} {run run' : PlanRun} {α : Type}

/-- The machine of the protocol of the run `R`. -/
abbrev runMachine (R : Uuid) : Machine commands RunView := (runProtocol R).guarded (GenuineRun R)

/-! ### What leaves the run alone -/

/-- Commands that neither read nor write the run `R` and make no job of it. -/
def Op.SparesRun (R : Uuid) : Op → Prop
  | setRun run => run.id ≠ R
  | getRun id => id ≠ R
  | hset id f => (hset id f).madeFor R = none
  | rpush _ => False
  | _ => True

/-- The later view knows the same of the run, and may have seen more jobs. -/
structure RunView.Past (m m' : RunView) : Prop where
  rows : m'.rows = m.rows
  blind : m'.blind = m.blind
  careful : m'.careful = m.careful
  owns : m.owns = true → m'.owns = true
  held : m'.held = m.held
  closed : m'.closed = m.closed
  seen : ∀ e ∈ m.seen, e ∈ m'.seen
  made : m'.made = m.made
  lost : m'.lost = m.lost
  log : m'.log = m.log
  pushed : m'.pushed = m.pushed

theorem RunView.Past.refl (m : RunView) : m.Past m :=
  ⟨rfl, rfl, rfl, id, rfl, rfl, fun _ => id, rfl, rfl, rfl, rfl⟩

theorem RunView.Past.trans (h : m.Past m') (h' : m'.Past m'') : m.Past m'' :=
  ⟨h'.rows.trans h.rows, h'.blind.trans h.blind, h'.careful.trans h.careful, h'.owns ∘ h.owns,
    h'.held.trans h.held, h'.closed.trans h.closed, fun e he => h'.seen e (h.seen e he),
    h'.made.trans h.made, h'.lost.trans h.lost, h'.log.trans h.log, h'.pushed.trans h.pushed⟩

theorem Op.SparesRun.permits {o : Op} (ho : o.SparesRun R) : (runProtocol R).Permits m o := by
  cases o with
  | setRun run => exact fun hid => absurd hid ho
  | getRun id => exact fun hid => absurd hid ho
  | hset id f =>
    intro e he
    rw [show (Op.hset id f).madeFor R = none from ho] at he
    cases he
  | rpush id => exact ho.elim
  | _ => trivial

theorem Op.SparesRun.observe {o : Op} (ho : o.SparesRun R) (r : o.Res) :
    m.Past ((runProtocol R).observe m o r) := by
  have hself := RunView.Past.refl m
  cases o with
  | setRun run =>
    rw [observe_setRun_ne ho]
    exact hself
  | getRun id =>
    rw [observe_getRun_ne ho]
    exact hself
  | hset id f =>
    rw [observe_hset_none ho]
    exact hself
  | uuid4 =>
    refine ⟨rfl, rfl, rfl, fun howns => ?_, rfl, rfl, fun _ he => he, rfl, rfl, rfl, rfl⟩
    exact Bool.or_eq_true_iff.mpr (.inl howns)
  | hgetall _ =>
    refine ⟨rfl, rfl, rfl, fun howns => howns, rfl, rfl, fun _ he => ?_, rfl, rfl, rfl, rfl⟩
    exact List.mem_cons_of_mem _ he
  | rpush _ => exact ho.elim
  | _ => exact hself

/-- A program that leaves the run alone. -/
theorem spares_run {p : Prog α} (hp : p.Only (Op.SparesRun R)) :
    Satisfies (runMachine R) (fun _ m' => m.Past m') m p := by
  refine hp.satisfies (.refl m) (fun _ _ ho _ => ho.permits) ?_
  rintro m₁ o r m₂ ho h₁ ⟨-, rfl⟩
  exact h₁.trans (ho.observe r)

/-! ### What is known between the commands -/

namespace RunView

/-- Between two commands on runs: a careful program has no jobs of the run in hand. -/
structure Rests (careful : Bool) (m : RunView) : Prop where
  careful_eq : m.careful = careful
  sighted : m.blind = false
  made : careful = true → m.made = []

/-- The program holds a record of the stage of `run`, and no jobs, if that is a record of the run
`R`. -/
structure Knows (R : Uuid) (careful : Bool) (run : PlanRun) (m : RunView) : Prop
    extends m.Rests careful where
  held : run.id = R → m.closed = false ∧ m.made = [] ∧ ∃ h, m.held = some h ∧ h.stage = run.stage

theorem Past.rests (h : m.Past m') (hm : m.Rests careful) : m'.Rests careful :=
  ⟨h.careful.trans hm.careful_eq, h.blind.trans hm.sighted, fun hc => h.made.trans (hm.made hc)⟩

theorem Past.knows (h : m.Past m') (hm : m.Knows R careful run) : m'.Knows R careful run where
  toRests := h.rests hm.toRests
  held hid := by
    obtain ⟨hclosed, hmade, h₀, hheld, hstage⟩ := hm.held hid
    exact ⟨h.closed.trans hclosed, h.made.trans hmade, h₀, h.held.trans hheld, hstage⟩

/-- The program may read the run. -/
theorem Rests.permits (hm : m.Rests careful) (id : Uuid) :
    (runProtocol R).Permits m (.getRun id) :=
  fun _ => ⟨hm.sighted, fun hc => hm.made (hm.careful_eq.symm.trans hc)⟩

end RunView

/-- The view after a record is written. -/
theorem RunView.Knows.written (hcareful : m.careful = careful) (hsighted : m.blind = false)
    (hother : run.id ≠ R → careful = true → m.made = [])
    (hwrite : run.id = R → m.closes run = false) (r : Op.Res (.setRun run)) :
    ((runProtocol R).observe m (.setRun run) r).Knows R careful run := by
  by_cases hid : run.id = R
  · rw [observe_setRun hid]
    exact ⟨⟨hcareful, hsighted, fun _ => rfl⟩, fun _ => ⟨hwrite hid, rfl, run, rfl, rfl⟩⟩
  · rw [observe_setRun_ne hid]
    exact ⟨⟨hcareful, hsighted, hother hid⟩, fun h => absurd h hid⟩

/-- A record that may be written is written. -/
theorem savePlanRun_onRun (hcareful : m.careful = careful) (hsighted : m.blind = false)
    (hother : run.id ≠ R → careful = true → m.made = [])
    (hwrite : run.id = R → m.MayWrite run ∧ m.closes run = false) :
    Satisfies (runMachine R) (fun out m' => out = .ok run ∧ m'.Knows R careful run) m
      (savePlanRun run) := by
  rw [savePlanRun, satisfies_bind]
  refine (guarded_issue (.setRun run)).mpr ⟨fun hid => (hwrite hid).1, fun r _ => ?_⟩
  refine then_ok.mpr (satisfies_ret.mpr ⟨rfl, ?_⟩)
  exact .written hcareful hsighted hother (fun hid => (hwrite hid).2) r

/-- A run that is known can be settled. -/
theorem settling_onRun : Settling (runMachine R) (RunView.Knows R careful) where
  aside {run m} o hK ho := by
    have hspares : o.SparesRun R := by
      cases o <;> trivial
    refine ⟨hspares.permits, ?_⟩
    rintro r m' ⟨-, rfl⟩
    exact (hspares.observe r).knows hK
  save {run run' m} hK hrun := by
    have hwrite (hid : run'.id = R) : m.MayWrite run' ∧ m.closes run' = false := by
      obtain ⟨hclosed, hmade, h, hheld, hstage⟩ := hK.held (hrun.id.symm.trans hid)
      have hsame : run'.stage = h.stage := hrun.stage_eq.trans hstage.symm
      refine ⟨⟨hclosed, ?_⟩, RunView.closes_of_same hheld (congrArg Stage.pendingGroupRows hsame)⟩
      rw [hheld]
      exact .settle hmade hsame
    refine ⟨fun hid => (hwrite hid).1, ?_⟩
    rintro r m' ⟨-, rfl⟩
    exact .written hK.careful_eq hK.sighted (fun _ => hK.made) (fun hid => (hwrite hid).2) r
  load {run run' m} hK hid := by
    refine ⟨hK.permits run.id, ?_⟩
    rintro r m' ⟨hgenuine, rfl⟩
    by_cases hR : run.id = R
    · subst hR
      cases r with
      | none =>
        obtain ⟨-, -, h, hheld, -⟩ := hK.held hid
        have hnone : m.held = none := hgenuine rfl
        rw [hnone] at hheld
        cases hheld
      | some new =>
        rw [observe_getRun]
        refine ⟨hgenuine, ⟨hK.careful_eq, hK.sighted, fun _ => rfl⟩, fun _ => ?_⟩
        exact ⟨rfl, rfl, new, rfl, rfl⟩
    · rw [observe_getRun_ne hR]
      have hsame : (r.getD run).id = run.id := by
        cases r with
        | none => rfl
        | some new => exact hgenuine
      exact ⟨hsame, hK.toRests, fun h => absurd (hsame.symm.trans h) hR⟩

/-! ### Enqueueing -/

/-- A group of the run may be enqueued by the request. -/
def RunView.MayEnqueue (R : Uuid) (m : RunView) (req : EnqueueRequest) : Prop :=
  req.planRunId = some R → m.made = [] ∧ ∃ h k, m.held = some h ∧ h.status = .RUNNING ∧
    req.planGroupIndex = some k ∧ h.jobsAt k = [] ∧
      req.rows.map (·.backupId) = (m.rowsAt h k).map (·.backupId) ∧
      (h.pendingGroupRows = none → m.owns = true ∧ k = h.currentGroupIndex) ∧
      (h.pendingGroupRows ≠ none → h.IsNext h.currentGroupIndex k)

/-- From the one view to the other the program has made the jobs `new` of the run. -/
structure RunView.Makes (m : RunView) (new : List Made) (m' : RunView) : Prop where
  rows : m'.rows = m.rows
  blind : m'.blind = m.blind
  careful : m'.careful = m.careful
  owns : m.owns = true → m'.owns = true
  held : m'.held = m.held
  closed : m'.closed = m.closed
  made : m'.made = m.made ++ new
  log : m'.log = m.log ++ new

theorem RunView.Past.makes (h : m.Past m') : m.Makes [] m' :=
  ⟨h.rows, h.blind, h.careful, h.owns, h.held, h.closed, by rw [h.made, List.append_nil],
    by rw [h.log, List.append_nil]⟩

theorem RunView.Makes.trans {new new' : List Made} (h : m.Makes new m') (h' : m'.Makes new' m'') :
    m.Makes (new ++ new') m'' :=
  ⟨h'.rows.trans h.rows, h'.blind.trans h.blind, h'.careful.trans h.careful, h'.owns ∘ h.owns,
    h'.held.trans h.held, h'.closed.trans h.closed, by rw [h'.made, h.made, List.append_assoc],
    by rw [h'.log, h.log, List.append_assoc]⟩

/-- What a call of an `enqueue_fn` leaves that has made the jobs `new` of the run: one for each row
of the request, if it succeeds. -/
structure RunView.Enqueued (R : Uuid) (m : RunView) (req : EnqueueRequest) (new : List Made)
    (out : Except Exn EnqueueResult) (m' : RunView) : Prop extends m.Makes new m' where
  other : req.planRunId ≠ some R → new = []
  result : ∀ result k, out = .ok result → req.planRunId = some R → req.planGroupIndex = some k →
    MadeOf new k req.rows result.jobIds

/-- **What is assumed of an `enqueue_fn`**: it touches the run only by making jobs of the group of
its request, and these are its result. One that a careful program uses succeeds. -/
def EnqueueFn.Keeps (R : Uuid) (careful : Bool) (enqueueFn : EnqueueFn) : Prop :=
  ∀ req m, m.careful = careful → m.MayEnqueue R req →
    Satisfies (runMachine R) (fun out m' => (careful = true → ∃ result, out = .ok result) ∧
      ∃ new, m.Enqueued R req new out m') m (enqueueFn req)

/-! ### Ticks -/

private theorem jobStates_onRun (ids : List Uuid) :
    Satisfies (runMachine R)
      (fun out m' => ∃ states, out = .ok states ∧ m.Past m' ∧ m'.Saw ids states) m
      (jobStates ids) := by
  induction ids generalizing m with
  | nil => exact satisfies_ret.mpr ⟨[], rfl, .refl m, .nil⟩
  | cons id rest ih =>
    rw [jobStates, satisfies_bind]
    refine (guarded_issue (.hgetall id)).mpr ⟨trivial, fun r _ => then_ok.mpr ?_⟩
    have hspares : (Op.hgetall id).SparesRun R := trivial
    have hpast := hspares.observe (m := m) r
    have hseen : (id, (r.getD {}).stateOrPending) ∈
        ((runProtocol R).observe m (.hgetall id) r).seen := List.mem_cons_self
    refine ih.bind ?_ ?_
    · rintro a m' ⟨states, hout, hpast', hsaw⟩
      obtain rfl := Except.ok.inj hout
      refine satisfies_ret.mpr ⟨_, rfl, hpast.trans hpast', ?_⟩
      exact .cons (hpast'.seen _ hseen) hsaw
    · rintro e m' ⟨states, hout, -⟩
      cases hout

/-- The program ends between two commands on runs, whether it raises or not. -/
abbrev Resting (careful : Bool) (_ : Except Exn α) (m : RunView) : Prop := m.Rests careful

/-- A record is saved, and the program goes on. -/
private theorem resting_save {p : PlanRun → Prog α} (hcareful : m.careful = careful)
    (hsighted : m.blind = false) (hother : run.id ≠ R → careful = true → m.made = [])
    (hwrite : run.id = R → m.MayWrite run ∧ m.closes run = false)
    (hp : ∀ m', m'.Knows R careful run → Satisfies (runMachine R) (Resting careful) m' (p run)) :
    Satisfies (runMachine R) (Resting careful) m (savePlanRun run >>= p) := by
  refine (savePlanRun_onRun hcareful hsighted hother hwrite).bind ?_ ?_
  · rintro saved m' ⟨hout, hK⟩
    obtain rfl := Except.ok.inj hout
    exact hp m' hK
  · rintro e m' ⟨hout, -⟩
    cases hout

private theorem endRun_onRun (cfg : Config) (hm : m.Rests careful) {ended : PlanRun}
    (hwrite : ∀ now, ended.id = R →
      m.MayWrite { ended with finishedAt := some now } ∧
        m.closes { ended with finishedAt := some now } = false) :
    Satisfies (runMachine R) (Resting careful) m (endRun cfg ended) := by
  rw [endRun, satisfies_bind]
  refine (guarded_issue .utcNow).mpr ⟨trivial, fun now _ => then_ok.mpr ?_⟩
  refine resting_save (m := m) hm.careful_eq hm.sighted (fun _ => hm.made) (hwrite now)
    fun m' hK => ?_
  refine (settling_onRun.finalize hK cfg).bind ?_ ?_
  · rintro _ m'' ⟨run', -, hK', -⟩
    exact satisfies_ret.mpr hK'.toRests
  · rintro e m'' ⟨run', hout, -⟩
    cases hout

/-- The program holds the record, and no jobs, if it is one of the run `R`. -/
structure RunView.Holds (R : Uuid) (careful : Bool) (run : PlanRun) (m : RunView) : Prop
    extends m.Rests careful where
  held : run.id = R → m.held = some run
  closed : run.id = R → m.closed = false
  none : run.id = R → m.made = []

private theorem RunView.Holds.past (hm : m.Holds R careful run) (h : m.Past m') :
    m'.Holds R careful run :=
  ⟨h.rests hm.toRests, fun hid => h.held.trans (hm.held hid),
    fun hid => h.closed.trans (hm.closed hid), fun hid => h.made.trans (hm.none hid)⟩

/-- An edit of a held record that leaves the rows alone may be written. -/
private theorem RunView.Holds.mayWrite (hm : m.Holds R careful run)
    (hedit : m.made = [] → m.Edit run run')
    (hrows : run'.pendingGroupRows = run.pendingGroupRows) (hid : run.id = R) :
    m.MayWrite run' ∧ m.closes run' = false := by
  refine ⟨⟨hm.closed hid, ?_⟩, RunView.closes_of_same (hm.held hid) hrows⟩
  rw [hm.held hid]
  exact hedit (hm.none hid)

private theorem enqueueGroup_onRun {enqueueFn : EnqueueFn} (hfn : enqueueFn.Keeps R careful)
    {idx : ℕ} (hm : m.Holds R careful run) (hstatus : run.status = .RUNNING)
    (hnext : run.IsNext run.currentGroupIndex idx) (hjobs : run.jobsAt idx = []) :
    Satisfies (runMachine R) (Resting careful) m (enqueueGroup enqueueFn run idx) := by
  have hrows : run.rowsAt idx ≠ [] := hnext.has.resolve_left (not_not.mpr hjobs)
  have hsome : run.pendingGroupRows ≠ none := fun hnone => hrows (by
    rw [PlanRun.rowsAt, PlanRun.pending, hnone]
    rfl)
  have hmay : m.MayEnqueue R (run.request idx (run.rowsAt idx)) := by
    intro hplan
    have hid : run.id = R := Option.some.inj hplan
    refine ⟨hm.none hid, run, idx, hm.held hid, hstatus, rfl, hjobs, ?_, fun h => absurd h hsome,
      fun _ => hnext⟩
    obtain ⟨rows, hpending⟩ := Option.ne_none_iff_exists'.mp hsome
    rw [RunView.rowsAt, hpending]
    rfl
  rw [enqueueGroup, if_neg hrows]
  refine (hfn _ m hm.careful_eq hmay).bind ?_ ?_
  · rintro result m' ⟨-, new, h⟩
    have hmade (hid : run.id = R) : MadeOf m'.made idx (run.rowsAt idx) result.jobIds := by
      rw [h.made, hm.none hid, List.nil_append]
      exact h.result result idx rfl (congrArg some hid) rfl
    refine resting_save (h.careful.trans hm.careful_eq) (h.blind.trans hm.sighted)
      (fun hid hc => ?_) (fun hid => ?_) fun m'' hK => satisfies_ret.mpr hK.toRests
    · rw [h.made, hm.made hc, h.other fun hplan => hid (Option.some.inj hplan), List.append_nil]
    · have hheld : m'.held = some run := h.held.trans (hm.held hid)
      refine ⟨⟨h.closed.trans (hm.closed hid), ?_⟩, RunView.closes_of_same hheld rfl⟩
      rw [hheld]
      exact .enqueue idx result.jobIds hstatus hnext hjobs (hmade hid) rfl
  · rintro e m' ⟨hok, new, h⟩
    refine ⟨h.careful.trans hm.careful_eq, h.blind.trans hm.sighted, fun hc => ?_⟩
    obtain ⟨result, hout⟩ := hok hc
    cases hout

private theorem awaitGroup_onRun (cfg : Config) {idx : ℕ} (hm : m.Holds R careful run)
    (hstatus : run.status = .RUNNING) (hnext : run.IsNext run.currentGroupIndex idx)
    (hjobs : run.jobsAt idx ≠ []) :
    Satisfies (runMachine R) (Resting careful) m (awaitGroup cfg run idx) := by
  refine (jobStates_onRun (run.jobsAt idx)).bind ?_ ?_
  · rintro states m' ⟨states', hout, hpast, hsaw⟩
    obtain rfl := Except.ok.inj hout
    have hm' := hm.past hpast
    refine Satisfies.ite (fun hall => ?_) fun _ => satisfies_ret.mpr hm'.toRests
    cases houtcome : run.outcome idx states with
    | inl ended =>
      obtain ⟨status, error, current, hended, rfl⟩ := outcome_spec houtcome
      exact endRun_onRun cfg hm'.toRests fun now hid => hm'.mayWrite (fun hnone =>
        .finish idx states _ hnone hstatus hnext hjobs hsaw hall houtcome rfl) rfl hid
    | inr next =>
      refine resting_save hm'.careful_eq hm'.sighted (fun _ => hm'.made) (fun hid => ?_)
        fun m'' hK => satisfies_ret.mpr hK.toRests
      exact hm'.mayWrite (fun hnone =>
        .pass idx next states hnone hstatus hnext hjobs hsaw hall houtcome rfl) rfl hid
  · rintro e m' ⟨states, hout, -⟩
    cases hout

private theorem advanceRunning_onRun (cfg : Config) {enqueueFn : EnqueueFn}
    (hfn : enqueueFn.Keeps R careful) (hm : m.Holds R careful run)
    (hstatus : run.status = .RUNNING) :
    Satisfies (runMachine R) (Resting careful) m (advanceRunning cfg enqueueFn run) := by
  rw [advanceRunning]
  refine Satisfies.ite (fun hout => ?_) fun hsome => ?_
  · exact endRun_onRun cfg hm.toRests fun now hid => hm.mayWrite (fun hnone =>
      .complete _ hnone hstatus ((run.length_le_nextGroup_iff _).mp hout) rfl) rfl hid
  · have hnext := PlanRun.isNext_nextGroup (mt (run.length_le_nextGroup_iff _).mpr hsome)
    exact Satisfies.ite (fun hjobs => enqueueGroup_onRun hfn hm hstatus hnext hjobs)
      fun hjobs => awaitGroup_onRun cfg hm hstatus hnext hjobs

/-- A run has been read. -/
private theorem holds_of_read {runId : Uuid} (hm : m.Rests careful) (r : Option PlanRun)
    (hr : GenuineRun R m (.getRun runId) r) :
    ((runProtocol R).observe m (.getRun runId) r).Rests careful ∧ ∀ run, r = some run →
      ((runProtocol R).observe m (.getRun runId) r).Holds R careful run := by
  by_cases hR : runId = R
  · subst hR
    cases r with
    | none => exact ⟨hm, fun run h => by cases h⟩
    | some new =>
      rw [observe_getRun]
      refine ⟨⟨hm.careful_eq, hm.sighted, fun _ => rfl⟩, fun run h => ?_⟩
      obtain rfl := Option.some.inj h
      exact ⟨⟨hm.careful_eq, hm.sighted, fun _ => rfl⟩, fun _ => rfl, fun _ => rfl, fun _ => rfl⟩
  · rw [observe_getRun_ne hR]
    refine ⟨hm, fun run h => ?_⟩
    subst h
    have hid : run.id = runId := hr
    have hne : run.id ≠ R := fun h => hR (hid.symm.trans h)
    exact ⟨hm, fun h => absurd h hne, fun h => absurd h hne, fun h => absurd h hne⟩

private theorem advanceRun_onRun (cfg : Config) {enqueueFn : EnqueueFn}
    (hfn : enqueueFn.Keeps R careful) (hm : m.Rests careful) (runId : Uuid) :
    Satisfies (runMachine R) (Resting careful) m (advanceRun cfg enqueueFn runId) := by
  have hdrop (m : RunView) (hm : m.Rests careful) :
      Satisfies (runMachine R) (Resting careful) m
        (issue (.dropActive runId) >>= fun _ => (.ret false : Prog Bool)) := by
    rw [satisfies_bind]
    exact (guarded_issue (.dropActive runId)).mpr
      ⟨trivial, fun _ _ => then_ok.mpr (satisfies_ret.mpr hm)⟩
  rw [advanceRun, satisfies_bind]
  refine (guarded_issue (.getRun runId)).mpr ⟨hm.permits runId, fun r hr => then_ok.mpr ?_⟩
  have hm' := holds_of_read hm r hr
  cases hrunning : Option.filter (fun run : PlanRun => decide (run.status = .RUNNING)) r with
  | none => exact hdrop _ hm'.1
  | some run =>
    obtain ⟨hrun, hstatus⟩ := Option.filter_eq_some_iff.mp hrunning
    exact advanceRunning_onRun cfg hfn (hm'.2 run hrun) (of_decide_eq_true hstatus)

private theorem advanceRuns_onRun (cfg : Config) {enqueueFn : EnqueueFn}
    (hfn : enqueueFn.Keeps R careful) (hm : m.Rests careful) (ids : List Uuid) :
    Satisfies (runMachine R) (Resting careful) m (advanceRuns cfg enqueueFn ids) := by
  induction ids generalizing m with
  | nil => exact satisfies_ret.mpr hm
  | cons id rest ih =>
    refine (advanceRun_onRun cfg hfn hm id).bind (fun _ m' hm' => ?_) fun _ _ hm' => hm'
    exact (ih hm').bind (fun _ _ hm'' => satisfies_ret.mpr hm'') fun _ _ hm'' => hm''

/-- **A tick** keeps to the protocol. -/
theorem advancePlanRuns_onRun (cfg : Config) {enqueueFn : EnqueueFn}
    (hfn : enqueueFn.Keeps R careful) (hm : m.Rests careful) :
    Satisfies (runMachine R) (Resting careful) m (advancePlanRuns cfg enqueueFn) := by
  rw [advancePlanRuns, satisfies_bind]
  refine (guarded_issue .activeRuns).mpr ⟨trivial, fun ids _ => then_ok.mpr ?_⟩
  exact advanceRuns_onRun cfg hfn hm ids

/-- **The ticks of a worker** keep to the protocol. -/
theorem workerTicks_onRun (cfg : Config) {enqueueFn : EnqueueFn}
    (hfn : enqueueFn.Keeps R careful) (hm : m.Rests careful) (n : ℕ) :
    Satisfies (runMachine R) (Resting careful) m (workerTicks cfg enqueueFn n) := by
  induction n generalizing m with
  | zero => exact satisfies_ret.mpr hm
  | succ n ih =>
    rw [workerTicks, satisfies_bind, satisfies_attempt]
    exact (advancePlanRuns_onRun cfg hfn hm).mono fun _ m' hm' => then_ok.mpr (ih hm')

/-! ### Cancelling -/

private theorem cancelJobs_only (ids : List Uuid) : (cancelJobs ids).Only (Op.SparesRun R) := by
  induction ids with
  | nil => exact only_ret
  | cons id rest ih =>
    refine Only.bind (Only.bind (only_perform.mpr trivial) fun found => ?_) fun _ =>
      Only.bind ih fun _ => only_ret
    split
    · exact Only.bind (only_perform.mpr trivial) fun _ => only_ret
    · exact Only.bind (only_perform.mpr rfl) fun _ => only_ret
    · exact only_ret

/-- **`cancel_plan_run`** keeps to the protocol. -/
theorem cancelPlanRun_onRun (cfg : Config) (runId : Uuid) (hm : m.Rests careful) :
    Satisfies (runMachine R) (Resting careful) m (cancelPlanRun cfg runId) := by
  rw [cancelPlanRun, satisfies_bind]
  refine (guarded_issue (.getRun runId)).mpr ⟨hm.permits runId, fun r hr => then_ok.mpr ?_⟩
  have hm' := holds_of_read hm r hr
  generalize (runProtocol R).observe m (.getRun runId) r = m₁ at hm'
  cases r with
  | none => exact satisfies_raise.mpr hm'.1
  | some run =>
    have hhold := hm'.2 run rfl
    refine Satisfies.ite (fun _ => ?_) fun hstatus => ?_
    · have hread := spares_run (m := m₁) (aggregatePlanRun_only (F := Op.SparesRun R)
        (fun _ => trivial) run)
      exact hread.mono fun _ m₂ hpast => hpast.rests hm'.1
    have hspares := spares_run (m := m₁) (cancelJobs_only (R := R) run.jobIdsByGroup.flatten)
    refine hspares.bind (fun stats m₂ hpast => ?_) fun _ m₂ hpast => hpast.rests hm'.1
    have hhold₂ := hhold.past hpast
    rw [satisfies_bind]
    refine (guarded_issue .utcNow).mpr ⟨trivial, fun now _ => then_ok.mpr ?_⟩
    refine resting_save (m := m₂) hhold₂.careful_eq hhold₂.sighted (fun _ => hhold₂.made)
      (fun hid => ?_) fun m₃ hK => ?_
    · refine ⟨⟨hhold₂.closed hid, ?_⟩, RunView.closes_of_ended nofun⟩
      rw [hhold₂.held hid]
      exact .cancel (hhold₂.none hid) (not_not.mp hstatus) rfl
    · refine (settling_onRun.finalize hK cfg).bind ?_ ?_
      · rintro _ m₄ ⟨run', -, hK', hid'⟩
        rw [satisfies_bind]
        refine settling_onRun.reload ⟨run', hK', hid'⟩ fun again m₅ _ hK'' => then_ok.mpr ?_
        exact (settling_onRun.aggregatePlanRun hK'' again).mono fun _ m₆ h => h.2.toRests
      · rintro e m₄ ⟨run', hout, -⟩
        cases hout

/-! ### Starting -/

/-- What is known of a run whose first group is about to be enqueued. -/
structure RunView.Starts (R : Uuid) (run : PlanRun) (groupRows : List (List Row)) (m : RunView) :
    Prop where
  made : m.made = []
  owns : run.id = R → m.owns = true
  held : run.id = R → m.held = some run
  closed : run.id = R → m.closed = false
  log : run.id = R → m.log = []
  rows : run.id = R → m.rows = stashed groupRows

/-- What is known of a run whose first group has been enqueued. -/
structure RunView.Begun (R : Uuid) (run : PlanRun) (groupRows : List (List Row)) (ids : List Uuid)
    (m : RunView) : Prop where
  other : run.id ≠ R → m.made = []
  owns : run.id = R → m.owns = true
  held : run.id = R → m.held = some run
  closed : run.id = R → m.closed = false
  rows : run.id = R → m.rows = stashed groupRows
  made : run.id = R → MadeOf m.made run.currentGroupIndex
    ((stashed groupRows).getD run.currentGroupIndex []) ids
  log : run.id = R → m.log = m.made

/-- What a program that starts runs leaves, whether it raises or not. -/
structure RunView.Leaves (careful : Bool) (m m' : RunView) : Prop where
  careful_eq : m'.careful = careful
  blind : m'.blind = m.blind
  made : careful = true → m'.made = []

/-- A record is written by a program that has no jobs of other runs in hand. -/
private theorem leaves_of_setRun (hcareful : m.careful = careful)
    (hother : run.id ≠ R → m.made = []) (r : Op.Res (.setRun run)) :
    ((runProtocol R).observe m (.setRun run) r).made = [] ∧
      m.Leaves careful ((runProtocol R).observe m (.setRun run) r) := by
  by_cases hR : run.id = R
  · rw [observe_setRun hR]
    exact ⟨rfl, hcareful, rfl, fun _ => rfl⟩
  · rw [observe_setRun_ne hR]
    exact ⟨hother hR, hcareful, rfl, fun _ => hother hR⟩

/-- The jobs of the first group are recorded, and the rows are stashed. -/
private theorem recordFirst_onRun {groupRows : List (List Row)} {recorded : PlanRun}
    {ids : List Uuid} (hcareful : m.careful = careful) (hnew : run.IsNew)
    (hm : m.Begun R run groupRows ids) (hlength : groupRows.length = run.jobIdsByGroup.length)
    (hrows : groupRows.getD run.currentGroupIndex [] ≠ [])
    (hempty : ∀ k < run.currentGroupIndex, groupRows.getD k [] = [])
    (hid : recorded.id = run.id) (hstage : recorded.stage =
      { run.stage with jobIdsByGroup := run.jobIdsByGroup.set run.currentGroupIndex ids }) :
    Satisfies (runMachine R) (fun _ m' => m.Leaves careful m') m (do
      let _ ← savePlanRun recorded
      let stash ← Program.ofExcept (stashRows groupRows)
      savePlanRun { recorded with pendingGroupRows := some stash }) := by
  have hjobs : recorded.jobIdsByGroup = run.jobIdsByGroup.set run.currentGroupIndex ids :=
    congrArg Stage.jobIdsByGroup hstage
  have hcurrent : recorded.currentGroupIndex = run.currentGroupIndex :=
    congrArg Stage.currentGroupIndex hstage
  have hnone : recorded.pendingGroupRows = none :=
    (congrArg Stage.pendingGroupRows hstage).trans hnew.rows
  have hstatus : recorded.status = .RUNNING := (congrArg Stage.status hstage).trans hnew.status
  have hlt : run.currentGroupIndex < run.jobIdsByGroup.length := by
    by_contra hge
    refine hrows ?_
    rw [List.getD_eq_getElem?_getD, List.getElem?_eq_none (by omega), Option.getD_none]
  have hstashed : (stashed groupRows).length = run.jobIdsByGroup.length ∧
      (stashed groupRows).getD run.currentGroupIndex [] ≠ [] ∧
      ∀ k < run.currentGroupIndex, (stashed groupRows).getD k [] = [] := by
    refine ⟨(List.length_map ..).trans hlength, ?_, fun k hk => ?_⟩
    · rw [stashed_getD]
      exact mt List.map_eq_nil_iff.mp hrows
    · rw [stashed_getD, hempty k hk]
      rfl
  obtain ⟨hlength, hrows, hempty⟩ := hstashed
  have hfirst (hR : recorded.id = R) : m.MayWrite recorded := by
    have hR' := hid.symm.trans hR
    refine ⟨hm.closed hR', ?_⟩
    rw [hm.held hR']
    exact .first ids (hm.owns hR') hnew.status hnew.rows hlt hnew.jobs
      ((hm.rows hR').symm ▸ hm.made hR') hstage
  rw [savePlanRun, satisfies_bind, satisfies_bind]
  refine (guarded_issue (.setRun recorded)).mpr ⟨hfirst, fun r _ => then_ok.mpr ?_⟩
  refine satisfies_ret.mpr (then_ok.mpr ?_)
  have hstash (hR : recorded.id = R) : ((runProtocol R).observe m (.setRun recorded) r).MayWrite
      { recorded with pendingGroupRows := some (stashed groupRows) } := by
    have hR' := hid.symm.trans hR
    have hjobsAt (i : ℕ) : recorded.jobsAt i =
        if i = run.currentGroupIndex then ids else run.jobsAt i := by
      rw [PlanRun.jobsAt, hjobs, getD_set i hlt]
      rfl
    rw [observe_setRun hR]
    refine ⟨RunView.closes_of_same (hm.held hR') (hnone.trans hnew.rows.symm), ?_⟩
    refine .stash rfl (hm.owns hR') hstatus hnone ?_ ?_ ?_ ?_ ?_ ?_
    · rw [hjobs, List.length_set]
      exact (congrArg List.length (hm.rows hR')).trans hlength
    · rw [hcurrent]
      exact (hm.rows hR').symm ▸ hempty
    · rw [hcurrent]
      exact (hm.rows hR').symm ▸ hrows
    · rw [hcurrent, hjobsAt, if_pos rfl]
      exact (hm.log hR').symm ▸ (hm.rows hR').symm ▸ hm.made hR'
    · intro k hk
      rw [hjobsAt, if_neg (hcurrent ▸ hk)]
      exact hnew.jobs k
    · exact congrArg (fun rows => { recorded.stage with pendingGroupRows := some rows })
        (hm.rows hR').symm
  obtain ⟨hmade, hleaves⟩ :=
    leaves_of_setRun hcareful (fun h => hm.other fun hR => h (hid.trans hR)) r
  rw [satisfies_bind, satisfies_ofExcept]
  cases hok : stashRows groupRows with
  | error e => exact then_error.mpr hleaves
  | ok stash =>
    obtain rfl := stashRows_ok hok
    rw [then_ok, savePlanRun, satisfies_bind]
    refine (guarded_issue (.setRun _)).mpr ⟨hstash, fun r' _ => then_ok.mpr ?_⟩
    obtain ⟨-, hlast⟩ := leaves_of_setRun hleaves.careful_eq (fun _ => hmade) r'
    exact satisfies_ret.mpr ⟨hlast.careful_eq, hlast.blind.trans hleaves.blind, hlast.made⟩

private theorem enqueueFirst_onRun {enqueueFn : EnqueueFn} (hfn : enqueueFn.Keeps R careful)
    {location : Location} {groupRows : List (List Row)} (hcareful : m.careful = careful)
    (hnew : run.IsNew) (hm : m.Starts R run groupRows)
    (hlength : groupRows.length = run.jobIdsByGroup.length)
    (hrows : groupRows.getD run.currentGroupIndex [] ≠ [])
    (hempty : ∀ k < run.currentGroupIndex, groupRows.getD k [] = []) :
    Satisfies (runMachine R) (fun _ m' => m.Leaves careful m') m
      (enqueueFirst enqueueFn run location run.currentGroupIndex groupRows) := by
  have hmay : m.MayEnqueue R (startRequest run location run.currentGroupIndex
      (groupRows.getD run.currentGroupIndex [])) := fun hplan => by
    have hid : run.id = R := Option.some.inj hplan
    refine ⟨hm.made, run, _, hm.held hid, hnew.status, rfl, hnew.jobs _, ?_,
      fun _ => ⟨hm.owns hid, rfl⟩, fun h => absurd hnew.rows h⟩
    rw [RunView.rowsAt, hnew.rows]
    change _ = List.map _ (m.rows.getD _ [])
    rw [hm.rows hid, stashed_getD, backupIds_stashed]
    rfl
  refine (hfn _ m hcareful hmay).bind ?_ ?_
  · rintro result m' ⟨-, new, h⟩
    have hbegun : m'.Begun R run groupRows result.jobIds := by
      refine ⟨fun hid => ?_, fun hid => h.owns (hm.owns hid),
        fun hid => h.held.trans (hm.held hid), fun hid => h.closed.trans (hm.closed hid),
        fun hid => h.rows.trans (hm.rows hid), fun hid => ?_, fun hid => ?_⟩
      · rw [h.made, hm.made, h.other fun hplan => hid (Option.some.inj hplan), List.append_nil]
      · rw [h.made, hm.made, List.nil_append]
        obtain ⟨hids, hbackups, hgroup⟩ := h.result result _ rfl (congrArg some hid) rfl
        refine ⟨hids, hbackups.trans ?_, hgroup⟩
        rw [stashed_getD, backupIds_stashed]
        rfl
      · rw [h.log, h.made, hm.log hid, hm.made]
    refine Satisfies.mono (recordFirst_onRun (h.careful.trans hcareful) hnew hbegun hlength hrows
      hempty ?_ ?_) fun _ m'' hleaves => ?_
    · rfl
    · rfl
    · exact ⟨hleaves.careful_eq, hleaves.blind.trans h.blind, hleaves.made⟩
  · rintro e m' ⟨hok, new, h⟩
    refine ⟨h.careful.trans hcareful, h.blind, fun hc => ?_⟩
    obtain ⟨result, hout⟩ := hok hc
    cases hout

private theorem newRun_isNew {id : Uuid} {plan : Plan} {location : Location} {opts : StartOptions}
    {now : Instant} {startIdx : ℕ} : (newRun id plan location opts now startIdx).IsNew := by
  refine ⟨rfl, fun k => ?_, rfl⟩
  change ((plan.groupIds.map fun _ => ([] : List Uuid)).getD k []) = []
  rw [List.getD_eq_getElem?_getD, List.getElem?_map]
  cases plan.groupIds[k]? <;> rfl

/-- What a program that starts a run knows of the run `R` before. -/
structure RunView.Fresh (groupRows : List (List Row)) (m : RunView) : Prop where
  rows : m.rows = stashed groupRows
  held : m.held = none
  closed : m.closed = false
  made : m.made = []
  log : m.log = []

/-- **`start_plan_run`** keeps to the protocol. -/
theorem startPlanRun_onRun {enqueueFn : EnqueueFn} (hfn : enqueueFn.Keeps R careful)
    (plan : Plan) (location : Location) {groupRows : List (List Row)} (opts : StartOptions)
    (hcareful : m.careful = careful) (hm : m.Fresh groupRows) :
    Satisfies (runMachine R) (fun _ m' => m.Leaves careful m') m
      (startPlanRun enqueueFn plan location groupRows opts) := by
  rw [startPlanRun, satisfies_bind, satisfies_ofExcept]
  cases hfirst : firstGroup plan groupRows with
  | error e => exact then_error.mpr ⟨hcareful, rfl, fun _ => hm.made⟩
  | ok startIdx =>
    obtain ⟨hlength, hrows, hempty⟩ := firstGroup_ok hfirst
    rw [then_ok, satisfies_bind]
    refine (guarded_issue .uuid4).mpr ⟨trivial, fun runId _ => then_ok.mpr ?_⟩
    rw [satisfies_bind]
    refine (guarded_issue .utcNow).mpr ⟨trivial, fun now _ => then_ok.mpr ?_⟩
    have hnew : (newRun runId plan location opts now startIdx).IsNew := newRun_isNew
    have hid : (newRun runId plan location opts now startIdx).id = runId := rfl
    have hcurrent : (newRun runId plan location opts now startIdx).currentGroupIndex = startIdx :=
      rfl
    have hgroups : (newRun runId plan location opts now startIdx).jobIdsByGroup.length =
        plan.groupIds.length := List.length_map _
    generalize newRun runId plan location opts now startIdx = run at hnew hid hcurrent hgroups
    subst hid hcurrent
    have hm₁ : RunView.Fresh groupRows
        { m with owns := m.owns || decide (run.id = R), making := none } :=
      ⟨hm.rows, hm.held, hm.closed, hm.made, hm.log⟩
    have howns : run.id = R →
        { m with owns := m.owns || decide (run.id = R), making := none }.owns = true :=
      fun h => Bool.or_eq_true_iff.mpr (.inr (decide_eq_true h))
    have hcareful₁ : { m with owns := m.owns || decide (run.id = R), making := none }.careful =
      careful := hcareful
    have hblind₁ : { m with owns := m.owns || decide (run.id = R), making := none }.blind =
      m.blind := rfl
    change Satisfies _ _ { m with owns := m.owns || decide (run.id = R), making := none } _
    generalize { m with owns := m.owns || decide (run.id = R), making := none } = m₁ at *
    have hstarts : ∀ r, ((runProtocol R).observe m₁ (.setRun run) r).Starts R run groupRows := by
      intro r
      by_cases hR : run.id = R
      · rw [observe_setRun hR]
        refine ⟨rfl, fun _ => howns hR, fun _ => rfl, fun _ => ?_, fun _ => hm₁.log,
          fun _ => hm₁.rows⟩
        change m₁.closes run = false
        rw [RunView.closes, hm₁.held]
        rfl
      · rw [observe_setRun_ne hR]
        exact ⟨hm₁.made, fun h => absurd h hR, fun h => absurd h hR, fun h => absurd h hR,
          fun h => absurd h hR, fun h => absurd h hR⟩
    rw [satisfies_bind, savePlanRun, satisfies_bind]
    refine (guarded_issue (.setRun run)).mpr ⟨fun hR => ⟨hm₁.closed, ?_⟩, fun r _ => ?_⟩
    · rw [hm₁.held]
      exact ⟨howns hR, hm₁.made, hnew⟩
    refine then_ok.mpr (satisfies_ret.mpr (then_ok.mpr ?_))
    obtain ⟨-, hsaved⟩ := leaves_of_setRun hcareful₁ (fun _ => hm₁.made) r
    have hleaves {m₂ : RunView}
        (h : ((runProtocol R).observe m₁ (.setRun run) r).Leaves careful m₂) :
        m.Leaves careful m₂ :=
      ⟨h.careful_eq, h.blind.trans (hsaved.blind.trans hblind₁), h.made⟩
    refine (enqueueFirst_onRun hfn hsaved.careful_eq hnew (hstarts r) (hlength.trans hgroups.symm)
      hrows hempty).bind ?_ fun _ m₂ h => hleaves h
    intro final m₂ hm₂
    rw [satisfies_bind]
    refine (guarded_issue (.setPlan _)).mpr ⟨trivial, fun _ _ => then_ok.mpr ?_⟩
    exact satisfies_ret.mpr (hleaves hm₂)

end RestoreEngine
