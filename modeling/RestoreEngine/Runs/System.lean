import RestoreEngine.Enqueue.Jobs
import RestoreEngine.Runs.FailedStart
import RestoreEngine.Runs.Steps

/-!
# The processes that share a run

The API and the workers as one pool: starts and cancellations of runs, workers that tick, and
workers that claim jobs, any number of each, with their commands interleaved in any way. Whatever
run `R` is looked at, they all keep to its protocol (`RunProcess.onProtocol`), and what they know of
the run fits the store (`RunKept`). The invariants of runs are proved with `OnRun.invariant`, which
leaves one obligation for each kind of step.
-/

namespace RestoreEngine

open Effects Prog Program

variable {ι : Type} {R : Uuid} {cfg : Config} {polls : ℕ} {w w' : World} {m : RunView}

/-- What a process does. -/
inductive RunProcess
  | start (starter : Starter) (plan : Plan) (location : Location) (groupRows : List (List Row))
      (opts : StartOptions)
  | ticks (n : ℕ)
  | cancel (runId : Uuid)
  | work

namespace RunProcess

/-- The program of the process. -/
def program (cfg : Config) (polls : ℕ) : RunProcess → Prog Unit
  | start starter plan location groupRows opts =>
    discard (startPlanRun starter.enqueueFn plan location groupRows opts)
  | ticks n => workerTicks cfg enqueueRestores n
  | cancel runId => discard (cancelPlanRun cfg runId)
  | work => claimJob cfg polls

/-- What the process knows of a run at first. -/
def view : RunProcess → RunView
  | start _ _ _ groupRows _ => { rows := stashed groupRows, blind := true }
  | _ => {}

end RunProcess

/-- The processes, none of which has begun. -/
def runPool (cfg : Config) (polls : ℕ) (w : World) (acts : ι → RunProcess) :
    Pool commands Exn World RunView ι where
  world := w
  proc i := (acts i).program cfg polls
  view i := (acts i).view

/-! ### What is known of a run -/

/-- What a program knows of the run `R` fits the store. -/
structure RunView.Fits (R : Uuid) (w : World) (m : RunView) : Prop where
  owner : m.owns = true → R < w.nextUuid
  fresh : m.owns = true → m.held = none → w.run R = none
  held : m.held ≠ none → w.run R ≠ none

/-- **What the programs know of a run fits the store.** -/
structure RunKept (R : Uuid) (w : World) (v : ι → RunView) : Prop where
  keyed : w.Keyed
  stored : w.run R ≠ none → R < w.nextUuid
  fits : ∀ i, (v i).Fits R w
  unique : ∀ i j, (v i).owns = true → (v j).owns = true → i = j

/-- The programs of a pool keep to the protocol of the run, and know what is stored. -/
structure OnRun (R : Uuid) (c : Pool commands Exn World RunView ι) : Prop where
  kept : RunKept R c.world c.view
  proc : ∀ i, (c.proc i).Satisfies (runMachine R) (fun _ _ => True) (c.view i)

section invariants

variable [DecidableEq ι] {v : ι → RunView} {i : ι} {o : Op} {a : Answer} {r : o.Res}
  {c₀ c : Pool commands Exn World RunView ι} {cond : Condition commands World RunView ι}

/-- A field that the step leaves alone is what it was in every view. -/
theorem update_field {β : Type} (f : RunView → β) (h : f m = f (v i)) (j : ι) :
    f (Function.update v i m j) = f (v j) := by
  by_cases hj : j = i
  · rw [hj, Function.update_self, h]
  · rw [Function.update_of_ne hj]

omit [DecidableEq ι] in
/-- A write of the run comes from the program that has made its identifier, or from one that has
read the run. -/
theorem RunKept.writer (hk : RunKept R w v) {run : PlanRun} (hmay : (v i).MayWrite run) :
    ((v i).held = none ∧ (v i).owns = true ∧ w.run R = none ∧ run.IsNew) ∨
      ∃ h, (v i).held = some h ∧ (v i).Edit h run := by
  obtain ⟨-, hmay⟩ := hmay
  cases hheld : (v i).held with
  | none =>
    rw [hheld] at hmay
    exact .inl ⟨rfl, hmay.1, (hk.fits i).fresh hmay.1 hheld, hmay.2.2⟩
  | some h =>
    rw [hheld] at hmay
    exact .inr ⟨h, rfl, hmay⟩

private theorem RunKept.unique_update (hk : RunKept R w v) (howns : m.owns = (v i).owns)
    (j j' : ι) (hj : (Function.update v i m j).owns = true)
    (hj' : (Function.update v i m j').owns = true) : j = j' := by
  have hold := update_field RunView.owns howns
  exact hk.unique j j' ((hold j).symm.trans hj) ((hold j').symm.trans hj')

/-- A step that leaves the record alone. -/
private theorem RunKept.same (hk : RunKept R w v) (hkeyed : w'.Keyed)
    (hnext : w.nextUuid ≤ w'.nextUuid) (hrun : w'.run R = w.run R) (howns : m.owns = (v i).owns)
    (hheld : m.held = (v i).held ∨ m.held ≠ none ∧ w.run R ≠ none) :
    RunKept R w' (Function.update v i m) where
  keyed := hkeyed
  stored h := (hk.stored (hrun ▸ h)).trans_le hnext
  fits := by
    have hi := hk.fits i
    refine (Function.forall_update_iff v fun _ m => m.Fits R w').mpr ⟨?_, fun j _ => ?_⟩
    · refine ⟨fun h => (hi.owner (howns ▸ h)).trans_le hnext, fun h hnone => ?_, fun h => ?_⟩
      · rw [hrun]
        rcases hheld with hsame | ⟨hsome, -⟩
        · exact hi.fresh (howns ▸ h) (hsame.symm.trans hnone)
        · exact absurd hnone hsome
      · rw [hrun]
        rcases hheld with hsame | ⟨-, hstored⟩
        · exact hi.held (hsame ▸ h)
        · exact hstored
    · have hj := hk.fits j
      exact ⟨fun h => (hj.owner h).trans_le hnext, fun h hnone => hrun.trans (hj.fresh h hnone),
        fun h => hrun ▸ hj.held h⟩
  unique := hk.unique_update howns

omit [DecidableEq ι] in
/-- Nobody knows anything of a run whose identifier has not been made. -/
theorem RunKept.unowned (hk : RunKept R w v) (hnext : w.nextUuid = R) :
    w.run R = none ∧ (∀ j, (v j).owns = false) ∧ ∀ j, (v j).held = none := by
  have hnone : w.run R = none := by
    by_contra hsome
    exact (hk.stored hsome).ne' hnext
  refine ⟨hnone, fun j => ?_, fun j => ?_⟩
  · cases howns : (v j).owns with
    | false => rfl
    | true => exact absurd hnext ((hk.fits j).owner howns).ne'
  · by_contra hsome
    exact (hk.fits j).held hsome hnone

/-- The identifier of the run is made. -/
private theorem RunKept.mint (hk : RunKept R w v) (hkeyed : w'.Keyed) (hnext : w.nextUuid = R)
    (hnext' : w'.nextUuid = R + 1) (hrun : w'.run R = w.run R) (hheld : m.held = (v i).held) :
    RunKept R w' (Function.update v i m) := by
  obtain ⟨hnone, hothers, hheld'⟩ := hk.unowned hnext
  refine ⟨hkeyed, fun h => absurd (hrun.trans hnone) h, ?_, fun j j' hj hj' => ?_⟩
  · refine (Function.forall_update_iff v fun _ m => m.Fits R w').mpr ⟨?_, fun j _ => ?_⟩
    · exact ⟨fun _ => hnext' ▸ Nat.lt_succ_self R, fun _ _ => hrun.trans hnone,
        fun h => absurd (hheld.trans (hheld' i)) h⟩
    · exact ⟨fun h => absurd ((hothers j).symm.trans h) nofun,
        fun _ _ => hrun.trans hnone, fun h => absurd (hheld' j) h⟩
  · have hi (j : ι) (hj : (Function.update v i m j).owns = true) : j = i := by
      by_contra hji
      rw [Function.update_of_ne hji, hothers j] at hj
      cases hj
    exact (hi j hj).trans (hi j' hj').symm

/-- The record is written. -/
private theorem RunKept.write (hk : RunKept R w v) (hkeyed : w'.Keyed)
    (hnext : w'.nextUuid = w.nextUuid) {run : PlanRun} (hmay : (v i).MayWrite run)
    (hrun : w'.run R = some run) (howns : m.owns = (v i).owns) (hheld : m.held = some run) :
    RunKept R w' (Function.update v i m) := by
  have hsome : w'.run R ≠ none := hrun ▸ nofun
  have hwriter := hk.writer hmay
  have hlt : R < w'.nextUuid := by
    rw [hnext]
    rcases hwriter with ⟨-, howner, -, -⟩ | ⟨h, hi, -⟩
    · exact (hk.fits i).owner howner
    · exact hk.stored ((hk.fits i).held (hi ▸ nofun))
  refine ⟨hkeyed, fun _ => hlt, ?_, hk.unique_update howns⟩
  refine (Function.forall_update_iff v fun _ m => m.Fits R w').mpr ⟨?_, fun j hj => ?_⟩
  · exact ⟨fun _ => hlt, fun _ hnone => absurd (hheld.symm.trans hnone) nofun, fun _ => hsome⟩
  · refine ⟨fun _ => hlt, fun howner hnone => ?_, fun _ => hsome⟩
    rcases hwriter with ⟨-, howner', -, -⟩ | ⟨h, hi, -⟩
    · exact absurd (hk.unique j i howner howner') hj
    · exact absurd ((hk.fits j).fresh howner hnone) ((hk.fits i).held (hi ▸ nofun))

/-- Every step keeps what is known of the run. -/
theorem RunKept.step (hk : RunKept R w v) (h : environment o a w = some (r, w'))
    (hstep : RunStep R w (v i) o w' m) : RunKept R w' (Function.update v i m) := by
  have hkeyed := hk.keyed.step h
  have hle := nextUuid_le h
  cases hstep with
  | spare _ _ hrun hpast howns => exact hk.same hkeyed hle hrun howns (.inl hpast.held)
  | mint _ hnext hnext' hrun hview =>
    exact hk.mint hkeyed hnext hnext' hrun (hview ▸ rfl)
  | read run _ hrun hsame _ _ hview =>
    exact hk.same hkeyed hle (hsame ▸ rfl) (hview ▸ rfl) (.inr ⟨hview ▸ nofun, hrun ▸ nofun⟩)
  | write run _ _ hmay hrun hnext hview =>
    exact hk.write hkeyed hnext hmay hrun (hview ▸ rfl) (hview ▸ rfl)
  | make _ _ _ _ _ _ _ _ hrun _ hview =>
    exact hk.same hkeyed hle hrun (hview ▸ rfl) (.inl (hview ▸ rfl))
  | push _ _ _ _ _ _ hrun _ hview =>
    exact hk.same hkeyed hle hrun (hview ▸ rfl) (.inl (hview ▸ rfl))

/-- **The invariant rule for a run.** An invariant is kept, if every kind of step keeps it. -/
theorem OnRun.invariant (h₀ : OnRun R c₀)
    (h : Reachable environment (runProtocol R) cond c₀ c) (Inv : World → (ι → RunView) → Prop)
    (hinit : Inv c₀.world c₀.view)
    (hstep : ∀ w v i o a r w' m, RunKept R w v → Inv w v → environment o a w = some (r, w') →
      RunStep R w (v i) o w' m → cond w v i o r → Inv w' (Function.update v i m)) :
    OnRun R c ∧ Inv c.world c.view := by
  obtain ⟨⟨hk, hinv⟩, hproc⟩ := h.guarded_invariant
    (fun w v => RunKept R w v ∧ Inv w v) h₀.proc ⟨h₀.kept, hinit⟩
    (fun w v i o a r w' ⟨hk, _⟩ _ henv _ => genuineRun_of_keyed hk.keyed (hk.fits i).held henv)
    (fun w v i o a r w' ⟨hk, hinv⟩ hpermits henv hcond =>
      ⟨hk.step henv (runStep henv hpermits),
        hstep w v i o a r w' _ hk hinv henv (runStep henv hpermits) hcond⟩)
  exact ⟨⟨hk, hproc⟩, hinv⟩

/-- The programs stay on the protocol. -/
theorem OnRun.reachable (h₀ : OnRun R c₀)
    (h : Reachable environment (runProtocol R) cond c₀ c) : OnRun R c :=
  (h₀.invariant h (fun _ _ => True) trivial fun _ _ _ _ _ _ _ _ _ _ _ _ _ => trivial).1

end invariants

/-! ### The processes keep to the protocol -/

/-- `enqueue_restores` as the API calls it is an `enqueue_fn`, too. -/
theorem apiEnqueueRestores_keeps : EnqueueFn.Keeps R false apiEnqueueRestores := by
  intro req m hcareful hmay
  rw [apiEnqueueRestores, satisfies_bind, satisfies_attempt]
  refine (enqueueRestores_keeps req m hcareful hmay).mono ?_
  rintro out m' ⟨-, new, h⟩
  have hraised (e : Exn) : m.Enqueued R req new (.error e) m' :=
    { h.toMakes with other := h.other, result := fun _ _ hout => by cases hout }
  rw [then_ok]
  split
  · exact satisfies_ret.mpr ⟨by rintro ⟨⟩, new, h⟩
  · exact satisfies_raise.mpr ⟨by rintro ⟨⟩, new, hraised _⟩
  · exact satisfies_raise.mpr ⟨by rintro ⟨⟩, new, hraised _⟩

theorem Starter.keeps (starter : Starter) : EnqueueFn.Keeps R false starter.enqueueFn := by
  cases starter with
  | api => exact apiEnqueueRestores_keeps
  | scheduler => exact enqueueRestores_keeps

/-- A worker makes no jobs, and leaves runs alone. -/
theorem Op.OfWork.sparesRun {o : Op} (ho : o.OfWork) : o.SparesRun R := by
  obtain rfl | ⟨id, hwatch | ⟨node, p, rfl⟩ | ⟨node, v, rfl⟩⟩ := ho
  · trivial
  · cases o with
    | hset i f =>
      have hplan : (f 0 {}).planRunId = none := congrArg (·.2.2.2.1) (hwatch.2 0 {})
      exact if_neg fun h => by cases hplan.symm.trans h
    | _ => first | exact hwatch.elim | trivial
  · trivial
  · trivial

private theorem discard_onProtocol {α : Type} {p : Prog α} {A : Machine commands RunView}
    {Q : Except Exn α → RunView → Prop} (hp : Satisfies A Q m p) :
    Satisfies A (fun _ _ => True) m (discard p) :=
  hp.bind (fun _ _ _ => satisfies_ret.mpr trivial) fun _ _ _ => trivial

theorem RunProcess.onProtocol (act : RunProcess) :
    (act.program cfg polls).Satisfies (runMachine R) (fun _ _ => True) act.view := by
  cases act with
  | start starter plan location groupRows opts =>
    exact discard_onProtocol (startPlanRun_onRun starter.keeps plan location opts rfl
      ⟨rfl, rfl, rfl, rfl, rfl⟩)
  | ticks n =>
    exact (workerTicks_onRun cfg enqueueRestores_keeps ⟨rfl, rfl, nofun⟩ n).mono
      fun _ _ _ => trivial
  | cancel runId => exact discard_onProtocol (cancelPlanRun_onRun cfg runId ⟨rfl, rfl, nofun⟩)
  | work =>
    exact (spares_run (claimJob_only.mono fun _ ho => ho.sparesRun)).mono fun _ _ _ => trivial

/-- Runs are stored under their own ids, which have been made before. -/
structure World.RunsInOrder (w : World) : Prop where
  keyed : w.Keyed
  made : ∀ id, w.run id ≠ none → id < w.nextUuid

/-- A program that has not begun knows nothing of the run. -/
structure RunView.Unbegun (m : RunView) : Prop where
  owns : m.owns = false
  held : m.held = none
  made : m.made = []
  lost : m.lost = []
  log : m.log = []

theorem RunProcess.unbegun (act : RunProcess) : act.view.Unbegun := by
  cases act <;> exact ⟨rfl, rfl, rfl, rfl, rfl⟩

theorem runKept_of_unbegun (hw : w.RunsInOrder) {v : ι → RunView} (hv : ∀ i, (v i).Unbegun) :
    RunKept R w v := by
  refine ⟨hw.keyed, hw.made R, fun i => ?_, fun i _ hi => ?_⟩
  · exact ⟨fun h => absurd ((hv i).owns.symm.trans h) nofun,
      fun h => absurd ((hv i).owns.symm.trans h) nofun, fun h => absurd (hv i).held h⟩
  · exact absurd ((hv i).owns.symm.trans hi) nofun

/-- The processes of a pool are on the protocol of the run. -/
theorem runPool_onRun (hw : w.RunsInOrder) (acts : ι → RunProcess) :
    OnRun R (runPool cfg polls w acts) :=
  ⟨runKept_of_unbegun hw fun i => (acts i).unbegun, fun i => (acts i).onProtocol⟩

end RestoreEngine
