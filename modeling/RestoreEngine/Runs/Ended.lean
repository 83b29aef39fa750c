import RestoreEngine.Runs.System

/-!
# Runs that have ended

`start_plan_run`, `advance_plan_runs` and `cancel_plan_run` store the whole record of a run, made
from a copy that they have read or stored before, and `enqueue_restores` comes in between. None of
them ends a run again, or enqueues for one, that they have seen to have ended. So a run that has
ended stays as it is as long as nobody acts on a copy that is out of date (`endedStays`). Nothing
keeps them from that: a tick that has read the run before it is cancelled enqueues the next group
and makes it RUNNING again (`cancelled_run_revived`).
-/

namespace RestoreEngine

open Effects Prog Program

variable {ι : Type} [DecidableEq ι] {R : Uuid} {cfg : Config} {polls : ℕ} {w w' : World}
  {v : ι → RunView} {i : ι} {m : RunView} {o : Op} {a : Answer} {r : o.Res}
  {c₀ c c' : Pool commands Exn World RunView ι} {status : PlanRunStatus}

/-- The command writes the run, makes a job of it, or pushes one to the queue. -/
def Op.ActsOn (R : Uuid) (m : RunView) : Op → Prop
  | setRun run => run.id = R
  | hset id f => (hset id f).madeFor R ≠ none
  | rpush id => m.making = some id
  | _ => False

/-- Whether the command does. -/
def Op.actsOn (R : Uuid) (m : RunView) : Op → Bool
  | setRun run => run.id = R
  | hset id f => ((hset id f).madeFor R).isSome
  | rpush id => m.making = some id
  | _ => false

theorem Op.actsOn_iff : o.actsOn R m = true ↔ o.ActsOn R m := by
  cases o <;> simp [actsOn, ActsOn, Option.isSome_iff_ne_none]

instance : Decidable (o.ActsOn R m) := decidable_of_iff _ Op.actsOn_iff

/-- **Acting in time**: a program whose copy of the run says RUNNING writes the run, or enqueues a
job for it, only while that is what is stored. -/
def ActsInTime (R : Uuid) : Condition commands World RunView ι := fun w v i o _ =>
  o.ActsOn R (v i) → ∀ h, (v i).held = some h → h.status = .RUNNING →
    ∃ run, w.run R = some run ∧ run.status = .RUNNING

instance : Decidable (ActsInTime R w v i o r) :=
  inferInstanceAs (Decidable (o.ActsOn R (v i) → ∀ h ∈ (v i).held, h.status = .RUNNING →
    ∃ run ∈ w.run R, run.status = .RUNNING))

/-- **An ended run stays as it is**: once the stored status of the run is not RUNNING, it stays the
same, and nobody makes a job of the run or pushes one to the queue. -/
def EndedStays (R : Uuid) (cond : Condition commands World RunView ι)
    (c₀ : Pool commands Exn World RunView ι) : Prop :=
  ∀ c c', Reachable environment (runProtocol R) cond c₀ c →
    Reachable environment (runProtocol R) cond c c' →
    ∀ run, c.world.run R = some run → run.status ≠ .RUNNING →
      (∃ run', c'.world.run R = some run' ∧ run'.status = run.status) ∧
        ∀ i, (c'.view i).log = (c.view i).log ∧ (c'.view i).pushed = (c.view i).pushed

/-! ### What the steps do to an ended run -/

/-- The copies that say that the run has ended are right. -/
def EndsKnown (R : Uuid) (w : World) (v : ι → RunView) : Prop :=
  ∀ i h, (v i).held = some h → h.status ≠ .RUNNING →
    ∃ run, w.run R = some run ∧ run.status = h.status

/-- An edit of a copy that says that the run has ended leaves the status. -/
theorem RunView.Edit.status_of_ended {h run : PlanRun} (hedit : m.Edit h run)
    (hended : h.status ≠ .RUNNING) : run.status = h.status := by
  cases hedit with
  | settle _ hstage => exact congrArg Stage.status hstage
  | first _ _ hstatus | stash _ _ hstatus | enqueue _ _ hstatus | pass _ _ _ _ hstatus
  | finish _ _ _ _ hstatus | complete _ _ hstatus | cancel _ hstatus =>
    exact absurd hstatus hended

omit [DecidableEq ι] in
/-- What a write in time does to a stored record: if that has ended, the status stays. -/
private theorem status_of_write (hk : RunKept R w v) (hknown : EndsKnown R w v)
    (hintime : ActsInTime R w v i o r) {run stored : PlanRun} (ho : o = .setRun run)
    (hid : run.id = R) (hmay : (v i).MayWrite run) (hstored : w.run R = some stored)
    (hended : stored.status ≠ .RUNNING) : run.status = stored.status := by
  subst ho
  rcases hk.writer hmay with ⟨-, -, hnone, -⟩ | ⟨h, hheld, hedit⟩
  · cases hstored.symm.trans hnone
  by_cases hrunning : h.status = .RUNNING
  · obtain ⟨run', hrun', hstatus⟩ := hintime hid h hheld hrunning
    obtain rfl := Option.some.inj (hstored.symm.trans hrun')
    exact absurd hstatus hended
  · obtain ⟨run', hrun', hstatus⟩ := hknown i h hheld hrunning
    obtain rfl := Option.some.inj (hstored.symm.trans hrun')
    exact (hedit.status_of_ended hrunning).trans hstatus.symm

theorem EndsKnown.step (hk : RunKept R w v) (hknown : EndsKnown R w v)
    (hstep : RunStep R w (v i) o w' m) (hintime : ActsInTime R w v i o r) :
    EndsKnown R w' (Function.update v i m) := by
  have hsame (hrun : w'.run R = w.run R)
      (hi : ∀ h, m.held = some h → (v i).held = some h ∨ w.run R = some h) :
      EndsKnown R w' (Function.update v i m) := by
    refine (Function.forall_update_iff v fun _ m => ∀ h, m.held = some h → h.status ≠ .RUNNING →
      ∃ run, w'.run R = some run ∧ run.status = h.status).mpr ⟨fun h hheld hended => ?_, ?_⟩
    · rw [hrun]
      rcases hi h hheld with hold | hstored
      · exact hknown i h hold hended
      · exact ⟨h, hstored, rfl⟩
    · exact fun j _ => hrun.symm ▸ hknown j
  cases hstep with
  | spare _ _ hrun hpast => exact hsame hrun fun h hheld => .inl (hpast.held ▸ hheld)
  | mint _ _ _ hrun hview => exact hsame hrun fun h hheld => .inl (by rwa [hview] at hheld)
  | read run _ hrun hw _ _ hview =>
    refine hsame (hw ▸ rfl) fun h hheld => .inr ?_
    rw [hview] at hheld
    exact hrun.trans hheld
  | write run ho hid hmay hrun _ hview =>
    refine (Function.forall_update_iff v fun _ m => ∀ h, m.held = some h → h.status ≠ .RUNNING →
      ∃ run, w'.run R = some run ∧ run.status = h.status).mpr ⟨fun h hheld _ => ?_, ?_⟩
    · rw [hview] at hheld
      obtain rfl := Option.some.inj hheld
      exact ⟨_, hrun, rfl⟩
    · intro j _ h hheld hended
      obtain ⟨stored, hstored, hstatus⟩ := hknown j h hheld hended
      have hwrite := status_of_write hk hknown hintime ho hid hmay hstored (hstatus ▸ hended)
      exact ⟨run, hrun, hwrite.trans hstatus⟩
  | make _ _ _ _ _ _ _ _ hrun _ hview =>
    exact hsame hrun fun h hheld => .inl (by rwa [hview] at hheld)
  | push _ _ _ _ _ _ hrun _ hview =>
    exact hsame hrun fun h hheld => .inl (by rwa [hview] at hheld)

/-- The run has ended with the status, and its jobs are the given ones. -/
structure Rested (R : Uuid) (status : PlanRunStatus) (v₀ : ι → RunView) (w : World)
    (v : ι → RunView) : Prop where
  run : ∃ run, w.run R = some run ∧ run.status = status
  jobs : ∀ i, (v i).log = (v₀ i).log ∧ (v i).pushed = (v₀ i).pushed

theorem Rested.step {v₀ : ι → RunView} (hended : status ≠ .RUNNING) (hk : RunKept R w v)
    (hknown : EndsKnown R w v) (hrested : Rested R status v₀ w v)
    (hstep : RunStep R w (v i) o w' m) (hintime : ActsInTime R w v i o r) :
    Rested R status v₀ w' (Function.update v i m) := by
  obtain ⟨⟨stored, hstored, rfl⟩, hjobs⟩ := hrested
  have hquiet (hrun : ∃ run, w'.run R = some run ∧ run.status = stored.status)
      (hlog : m.log = (v i).log) (hpushed : m.pushed = (v i).pushed) :
      Rested R stored.status v₀ w' (Function.update v i m) := by
    refine ⟨hrun, ?_⟩
    refine (Function.forall_update_iff v fun i m => m.log = (v₀ i).log ∧
      m.pushed = (v₀ i).pushed).mpr ⟨?_, fun j _ => hjobs j⟩
    exact ⟨hlog.trans (hjobs i).1, hpushed.trans (hjobs i).2⟩
  -- Whoever makes or pushes a job holds a copy that says RUNNING, so that it would be late.
  have hlate (hacts : o.ActsOn R (v i)) {h : PlanRun} (hheld : (v i).held = some h)
      (hrunning : h.status = .RUNNING) : False := by
    obtain ⟨run, hrun, hstatus⟩ := hintime hacts h hheld hrunning
    obtain rfl := Option.some.inj (hstored.symm.trans hrun)
    exact hended hstatus
  cases hstep with
  | spare _ _ hrun hpast => exact hquiet ⟨stored, hrun.trans hstored, rfl⟩ hpast.log hpast.pushed
  | mint _ _ _ hrun hview =>
    exact hquiet ⟨stored, hrun.trans hstored, rfl⟩ (hview ▸ rfl) (hview ▸ rfl)
  | read run _ _ hw _ _ hview =>
    exact hquiet ⟨stored, hw ▸ hstored, rfl⟩ (hview ▸ rfl) (hview ▸ rfl)
  | write run ho hid hmay hrun _ hview =>
    have hstatus := status_of_write hk hknown hintime ho hid hmay hstored hended
    exact hquiet ⟨run, hrun, hstatus⟩ (hview ▸ rfl) (hview ▸ rfl)
  | make id f e h k ho he hmay =>
    subst ho
    have hacts : (Op.hset id f).madeFor R ≠ none := he ▸ nofun
    exact (hlate hacts hmay.held hmay.status).elim
  | push id h ho hmaking hheld hstatus =>
    subst ho
    exact (hlate hmaking hheld hstatus).elim

/-! ### Whole runs -/

theorem endsKnown_of_reachable (hw : w.RunsInOrder) (acts : ι → RunProcess)
    (h : Reachable environment (runProtocol R) (ActsInTime R) (runPool cfg polls w acts) c) :
    OnRun R c ∧ EndsKnown R c.world c.view := by
  refine (runPool_onRun hw acts).invariant h (EndsKnown R) ?_ ?_
  · intro i h hheld
    cases (acts i).unbegun.held.symm.trans hheld
  · exact fun w v i o a r w' m hk hknown _ hstep hintime => hknown.step hk hstep hintime

/-- **Ended runs stay as they are, if everybody acts in time**, whatever starts, ticks,
cancellations and workers there are. -/
theorem endedStays (hw : w.RunsInOrder) (acts : ι → RunProcess) :
    EndedStays R (ActsInTime R) (runPool cfg polls w acts) := by
  intro c c' hc hc' run hrun hended
  obtain ⟨hon, hknown⟩ := endsKnown_of_reachable hw acts hc
  obtain ⟨-, -, hrested⟩ := hon.invariant hc'
    (fun w v => EndsKnown R w v ∧ Rested R run.status c.view w v)
    ⟨hknown, ⟨run, hrun, rfl⟩, fun _ => ⟨rfl, rfl⟩⟩
    fun w v i o a r w' m hk ⟨hknown, hrested⟩ _ hstep hintime =>
      ⟨hknown.step hk hstep hintime, hrested.step hended hk hknown hstep hintime⟩
  exact ⟨hrested.run, hrested.jobs⟩

/-! ### A tick that is late -/

/-- A run whose only group is still to be enqueued. -/
def waitingRun : PlanRun :=
  { id := 1
    planId := 0
    status := .RUNNING
    locationId := 0
    node := "pve"
    nodes := ["pve"]
    storage := "local"
    vmidStart := 100
    groupIds := [0]
    jobIdsByGroup := [[]]
    pendingGroupRows := some [[
      { backupId := "b", vmid := some 100, pveStorage := "pbs", voltail := "vm/100/t" }]] }

/-- A world that stores the run. -/
def waitingWorld : World :=
  { runs := AList.insert 1 waitingRun ∅, active := [1], nextUuid := 2 }

theorem waitingWorld_runsInOrder : waitingWorld.RunsInOrder := by
  have hrun (id : Uuid) (hid : id ≠ 1) : waitingWorld.run id = none := AList.lookup_insert_ne hid
  refine ⟨fun id run h => ?_, fun id h => ?_⟩
  · by_cases hid : id = 1
    · subst hid
      exact Option.some.inj h ▸ rfl
    · cases (hrun id hid).symm.trans h
  · by_cases hid : id = 1
    · subst hid
      decide
    · exact absurd (hrun id hid) h

/-- A tick, and a cancellation of the run. -/
abbrev tickAndCancel : Pool commands Exn World RunView Bool :=
  runPool {} 0 waitingWorld fun ticks => if ticks then .ticks 1 else .cancel 1

/-- Two ticks, and a cancellation of the run. -/
abbrev ticksAndCancel : Pool commands Exn World RunView Bool :=
  runPool {} 0 waitingWorld fun ticks => if ticks then .ticks 2 else .cancel 1

/-- **A cancellation between two ticks**: the first tick enqueues the group. The second one has
listed the active runs when the run is cancelled, reads it only then, and leaves it as it is. -/
theorem endedStays_betweenTicks : ∃ c c' : Pool commands Exn World RunView Bool,
    Reachable environment (runProtocol 1) (ActsInTime 1) ticksAndCancel c ∧
    Reachable environment (runProtocol 1) (ActsInTime 1) c c' ∧
    (c.world.run 1).map (·.status) = some .CANCELLED ∧ (c.view true).pushed = [2] ∧
    (∀ i, c'.proc i = .ret ()) ∧
    (c'.world.run 1).map (·.status) = some .CANCELLED ∧ (c'.view true).pushed = [2] := by
  -- The first tick, the listing of the second, and the cancellation until it has stored the record.
  have hexec : (ticksAndCancel.execWhen environment (runProtocol 1) (ActsInTime 1)
      (List.replicate 11 (true, .ok) ++ List.replicate 5 (false, .ok))).any (fun c =>
        decide ((c.world.run 1).map (·.status) = some .CANCELLED ∧ (c.view true).pushed = [2]) &&
          (c.execWhen environment (runProtocol 1) (ActsInTime 1)
            (List.replicate 2 (true, .ok) ++ List.replicate 16 (false, .ok))).any fun c' =>
              (c'.proc true).returned && (c'.proc false).returned) = true := by decide +kernel
  obtain ⟨c, hc, hthen⟩ := Pool.exists_reachable_when hexec
  obtain ⟨hcancelled, hrest⟩ := Bool.and_eq_true_iff.mp hthen
  obtain ⟨hstatus, hpushed⟩ := of_decide_eq_true hcancelled
  obtain ⟨c', hc', hreturned⟩ := Pool.exists_reachable_when hrest
  obtain ⟨htick, hcancel⟩ := Bool.and_eq_true_iff.mp hreturned
  obtain ⟨run, hrun, hended⟩ := Option.map_eq_some_iff.mp hstatus
  obtain ⟨⟨run', hrun', hsame⟩, hkept⟩ :=
    endedStays waitingWorld_runsInOrder _ c c' hc hc' run hrun (hended ▸ nofun)
  refine ⟨c, c', hc, hc', hstatus, hpushed, fun i => ?_, ?_, (hkept true).2.trans hpushed⟩
  · cases i with
    | true => exact eq_ret_of_returned htick
    | false => exact eq_ret_of_returned hcancel
  · rw [hrun', Option.map_some, hsame, hended]

/-- The tick reads the run, which is then cancelled; it enqueues the group, and the run is RUNNING
again. -/
theorem cancelled_run_revived : ¬ EndedStays 1 (fun _ _ _ _ _ => True) tickAndCancel := by
  intro hstays
  -- The tick lists the active runs and reads this one; the cancellation stores the record.
  have hexec : (tickAndCancel.exec environment (runProtocol 1)
      (List.replicate 2 (true, .ok) ++ List.replicate 3 (false, .ok))).any (fun c =>
        (c.world.run 1).any (·.status = .CANCELLED) &&
          (c.exec environment (runProtocol 1) (List.replicate 8 (true, .ok))).any fun c' =>
            (c'.world.run 1).any (·.status = .RUNNING)) = true := by decide +kernel
  obtain ⟨c, hc, hthen⟩ := Pool.exists_reachable (fun _ _ _ _ _ => trivial) hexec
  obtain ⟨hcancelled, hrest⟩ := Bool.and_eq_true_iff.mp hthen
  obtain ⟨c', hc', hrunning⟩ := Pool.exists_reachable (fun _ _ _ _ _ => trivial) hrest
  obtain ⟨run, hrun, hstatus⟩ := (Option.any_eq_true _ _).mp hcancelled
  obtain ⟨run', hrun', hstatus'⟩ := (Option.any_eq_true _ _).mp hrunning
  have hended : run.status = .CANCELLED := of_decide_eq_true hstatus
  obtain ⟨⟨run'', hrun'', hsame⟩, -⟩ := hstays c c' hc hc' run hrun (hended ▸ nofun)
  obtain rfl := Option.some.inj (hrun'.symm.trans hrun'')
  cases (of_decide_eq_true hstatus').symm.trans (hsame.trans hended)

end RestoreEngine
