import RestoreEngine.Engine.States

/-!
# No job is left behind

A job that is PENDING waits to be taken from the queue. If it is not in the queue, then nobody will
ever take it, and it stays PENDING for good. This does not happen (`pending_waits`): whatever the
processes do and however their commands interleave, a job that has entered the queue and is PENDING
is in the queue, or in the hand of a process that has taken it out of the queue and is not done.

Three procedures take jobs out of the queue. What a worker has in hand, `workProtocol` tells. The
stop of the queue and the stop of a job take a job out first and look at its state then; that they
put nothing aside is the matter of `outProtocol`.
-/

namespace RestoreEngine

open Effects Prog Program

/-! ### What has been taken out -/

/-- What a process has taken out of the queue in order to cancel it. -/
inductive OutHold
  | nothing
  /-- A job that may be PENDING still. -/
  | out (id : Uuid)
  deriving DecidableEq

/-- What a process has taken out after a command. -/
def OutHold.after (m : OutHold) : (o : Op) → o.Res → OutHold
  | .lpop, found => found.elim m out
  | .hsetLrem id f, _ => if WorkHold.endsJob f then m else out id
  | .hgetall id, found => if m = out id ∧ found.bind (·.state) ≠ some .PENDING then nothing else m
  | .hset id f, _ => if m = out id ∧ WorkHold.endsJob f then nothing else m
  | _, _ => m

/-- **The protocol of what is taken out**: a process that has taken out a job sees to it before it
takes out another one. -/
def outProtocol : Protocol commands OutHold where
  observe := OutHold.after
  Permits m o :=
    match o with
    | .lpop => m = .nothing
    | .hsetLrem _ f => WorkHold.endsJob f ∨ m = .nothing
    | _ => True

/-! ### Every process keeps to the protocol -/

section Walk

variable {α : Type} {cfg : Config} {mt : Matching} {polls : ℕ} {m : OutHold} {id : Uuid}

/-- The program takes nothing out that it does not see to. -/
private abbrev SeesTo (m : OutHold) (p : Prog α) : Prop :=
  Satisfies outProtocol.machine (fun _ m' => m' = .nothing) m p

/-- The command takes nothing out of the queue. -/
def Op.TakesNothingOut : Op → Prop
  | lpop => False
  | hsetLrem _ f => WorkHold.endsJob f
  | _ => True

private theorem Op.TakesNothingOut.kept {o : Op} (ho : o.TakesNothingOut) :
    outProtocol.Permits .nothing o ∧ ∀ r, outProtocol.observe .nothing o r = .nothing := by
  cases o with
  | lpop => exact ho.elim
  | hsetLrem id f => exact ⟨.inl ho, fun _ => if_pos ho⟩
  | hset id f => exact ⟨trivial, fun _ => by simp [outProtocol, OutHold.after]⟩
  | hgetall id => exact ⟨trivial, fun _ => by simp [outProtocol, OutHold.after]⟩
  | _ => exact ⟨trivial, fun _ => rfl⟩

private theorem takesNothing_kept {p : Prog α} (hp : p.Only Op.TakesNothingOut) :
    SeesTo .nothing p :=
  onProtocol_of_only hp (fun _ ho => ho.kept.1) fun _ r ho => ho.kept.2 r

theorem Op.KeepsBooks.takesNothingOut {o : Op} (ho : o.KeepsBooks) : o.TakesNothingOut := by
  cases o <;> first | exact trivial | exact ho.elim

theorem Op.OfWork.takesNothingOut {o : Op} (ho : o.OfWork) : o.TakesNothingOut := by
  rcases ho with rfl | ⟨id, hjob | ⟨node, p, rfl⟩ | ⟨node, v, rfl⟩⟩
  · trivial
  · cases o <;> first | exact trivial | exact hjob.elim
  · trivial
  · trivial

/-- What is seen to, and then the rest. -/
private theorem seesTo_then {β : Type} {p : Prog α} {f : α → Prog β} (hp : SeesTo m p)
    (hf : ∀ a, SeesTo .nothing (f a)) : SeesTo m (p >>= f) := by
  refine hp.bind ?_ fun _ _ h => h
  rintro a _ rfl
  exact hf a

/-- A job that has been taken out, and is PENDING, is cancelled. -/
private theorem cancelByStop_sees : SeesTo (.out id) (cancelByStop id) :=
  (onProtocol_issue (.hset id _)).mpr ⟨trivial, fun _ => if_pos ⟨rfl, rfl⟩⟩

/-- What is in hand once the hash of a job that was taken out has been read. -/
private theorem observe_hgetall (found : Option Job) :
    outProtocol.observe (.out id) (.hgetall id) found =
      if found.bind (·.state) = some .PENDING then .out id else .nothing := by
  show OutHold.after (.out id) (.hgetall id) found = _
  rw [OutHold.after]
  by_cases hpending : found.bind (·.state) = some .PENDING
  · rw [if_pos hpending]
    exact if_neg fun h => h.2 hpending
  · rw [if_neg hpending]
    exact if_pos ⟨rfl, hpending⟩

private theorem emptyQueue_sees (fuel : ℕ) : SeesTo .nothing (emptyQueue fuel) := by
  induction fuel with
  | zero => exact takesNothing_kept (Only.bind (only_perform.mpr trivial) fun r => r.elim)
  | succ fuel ih =>
    rw [emptyQueue, SeesTo, satisfies_bind]
    refine (onProtocol_issue .lpop).mpr ⟨rfl, fun found => then_ok.mpr ?_⟩
    cases found with
    | none => exact satisfies_ret.mpr rfl
    | some id =>
      have hout : outProtocol.observe .nothing .lpop (some id) = .out id := rfl
      rw [hout, satisfies_bind]
      refine (onProtocol_issue (.hgetall id)).mpr ⟨trivial, fun found => then_ok.mpr ?_⟩
      rw [observe_hgetall]
      have hrest : ∀ id' : Uuid, SeesTo .nothing (do
          let others ← emptyQueue fuel
          return id' :: others) := fun _ =>
        seesTo_then ih fun _ => satisfies_ret.mpr rfl
      cases hstate : found.bind (·.state) with
      | none =>
        rw [if_neg (by rintro ⟨⟩), Option.getD_none, if_pos rfl]
        refine seesTo_then (takesNothing_kept (only_perform.mpr trivial)) fun _ => hrest id
      | some s =>
        rw [Option.getD_some]
        by_cases hpending : s = .PENDING
        · subst hpending
          rw [if_pos rfl, if_pos rfl]
          exact seesTo_then cancelByStop_sees fun _ => hrest id
        · rw [if_neg fun h => hpending (Option.some.inj h), if_neg hpending]
          exact ih

private theorem drainPendingJobs_sees (fuel : ℕ) : SeesTo .nothing (drainPendingJobs fuel) := by
  have hsweep : ∀ ids cancelled, (sweepPending cancelled ids).Only Op.TakesNothingOut := by
    intro ids
    induction ids with
    | nil => exact fun _ => only_ret
    | cons id rest ih =>
      intro cancelled
      refine Only.bind (only_perform.mpr trivial) fun data => Only.ite (fun _ => ?_) fun _ => ih _
      exact Only.bind (only_perform.mpr trivial) fun _ => ih _
  refine seesTo_then (takesNothing_kept (only_perform.mpr trivial)) fun _ => ?_
  refine seesTo_then (emptyQueue_sees fuel) fun cancelled => takesNothing_kept ?_
  exact Only.bind (only_perform.mpr trivial) fun _ => hsweep _ _

private theorem stopJob_sees : SeesTo .nothing (stopJob id) := by
  refine seesTo_then (takesNothing_kept (only_perform.mpr trivial)) fun found => ?_
  cases found with
  | none => exact satisfies_raise.mpr rfl
  | some data =>
    refine Satisfies.ite (fun _ => satisfies_ret.mpr rfl) fun _ => ?_
    rw [satisfies_bind]
    refine (onProtocol_issue (.hsetLrem id _)).mpr ⟨.inr rfl, fun _ => then_ok.mpr ?_⟩
    have hout : ∀ {f u}, WorkHold.endsJob f = false →
        outProtocol.observe .nothing (.hsetLrem id f) u = .out id := fun h =>
      if_neg (Bool.eq_false_iff.mp h)
    rw [hout rfl, satisfies_bind]
    refine (onProtocol_issue (.hgetall id)).mpr ⟨trivial, fun found => then_ok.mpr ?_⟩
    rw [observe_hgetall]
    have hread : SeesTo .nothing (hgetall id) := takesNothing_kept (only_perform.mpr trivial)
    have hstate : (found.getD {}).state = found.bind (·.state) := by cases found <;> rfl
    rw [hstate]
    by_cases hpending : found.bind (·.state) = some .PENDING
    · rw [if_pos hpending, if_pos hpending]
      refine seesTo_then ?_ fun _ => hread
      exact (onProtocol_issue (.hset id _)).mpr ⟨trivial, fun _ => if_pos ⟨rfl, rfl⟩⟩
    · rw [if_neg hpending, if_neg hpending]
      exact hread

/-- **Every process sees to what it takes out.** -/
theorem Activity.onOut (act : Activity) :
    Satisfies outProtocol.machine (fun _ m => m = .nothing) .nothing
      (act.program cfg mt polls) := by
  refine act.composed.satisfies (I := fun m => m = OutHold.nothing) ?_ ?_ ?_ rfl
  · rintro _ o ho rfl
    exact ho.takesNothingOut.kept.1
  · rintro _ o r _ ho rfl rfl
    exact ho.takesNothingOut.kept.2 r
  · rintro β q _ hpart rfl
    have hdestroy : ∀ {px v} {o : Op}, o.OfDestroy px v → o.TakesNothingOut := fun ho => by
      cases ‹Op› <;> first | exact trivial | exact ho.elim
    cases hpart with
    | enqueue req =>
      refine takesNothing_kept (enqueueRestores_only.mono fun o ho => ?_)
      cases o <;> first | exact trivial | exact ho.elim
    | work => exact takesNothing_kept (claimJob_only.mono fun _ ho => ho.takesNothingOut)
    | teardown run =>
      exact takesNothing_kept (teardownPlanRun_only (fun _ ho => ho.takesNothingOut) trivial
        fun _ _ ho => hdestroy ho)
    | cancel id =>
      refine takesNothing_kept (Only.bind (only_perform.mpr trivial) fun data => ?_)
      split
      · exact Only.bind (only_perform.mpr rfl) fun _ => only_ret
      · exact Only.bind (only_perform.mpr trivial) fun _ => only_ret
      · exact only_ret
    | stop id => exact stopJob_sees
    | drain fuel => exact drainPendingJobs_sees fuel

end Walk

/-! ### The invariant -/

section Invariant

variable {ι : Type} [DecidableEq ι] {w₀ w w' : World} {h : List (ι × Event commands)}
  {u : ι → JobHold} {v : ι → WorkHold} {d : ι → OutHold} {i : ι} {o : Op} {a : Answer} {r : o.Res}
  {id : Uuid}

/-- The process has taken the job out of the queue in order to cancel it. -/
def TookOut (h : List (ι × Event commands)) (i : ι) (id : Uuid) : Prop :=
  (i, (⟨.lpop, some id⟩ : Event commands)) ∈ h ∨
    ∃ f u, (i, (⟨.hsetLrem id f, u⟩ : Event commands)) ∈ h

/-- The process has the job in hand. -/
def InHand (v : ι → WorkHold) (d : ι → OutHold) (i : ι) (id : Uuid) : Prop :=
  (v i).job = some id ∨ d i = .out id

/-- **Jobs wait**: what has entered the queue and is PENDING is in the queue, or in hand. -/
private structure Waiting (w₀ : World) (h : List (ι × Event commands)) (v : ι → WorkHold)
    (d : ι → OutHold) (w : World) : Prop where
  waits : ∀ id ∈ queuedIds w₀.queue h, w.stateOf id = some .PENDING →
    id ∈ w.queue ∨ ∃ i, InHand v d i id
  out : ∀ i id, d i = .out id → TookOut h i id

omit [DecidableEq ι] in
private theorem TookOut.append (ht : TookOut h i id) (e : ι × Event commands) :
    TookOut (h ++ [e]) i id :=
  ht.imp (List.mem_append_left _) fun ⟨f, u, hf⟩ => ⟨f, u, List.mem_append_left _ hf⟩

section Step

variable (hq : Waiting w₀ h v d w) (hd : Dispatched w₀.queue h u w)
  (hjob : jobProtocol.Permits (u i) o) (hwork : workProtocol.Permits (v i) o)
  (hout : outProtocol.Permits (d i) o) (henv : environment o a w = some (r, w'))

include hd hjob hwork henv in
omit [DecidableEq ι] in
/-- A job that has entered the queue is not made PENDING anew. -/
private theorem pending_before (hid : id ∈ queuedIds w₀.queue h)
    (hpending : w'.stateOf id = some .PENDING) : w.stateOf id = some .PENDING := by
  obtain ⟨s, hafter, hmark⟩ := stateOf_step henv hwork id
  rw [hpending] at hafter
  rcases hmark with rfl | rfl | ⟨f, rfl, -, hmay⟩
  · exact (hafter.trans Option.none_or).symm
  · cases hafter
  · cases s with
    | none => exact (hafter.trans Option.none_or).symm
    | some t =>
      obtain rfl := Option.some.inj hafter
      have hown : (u i).own = some id := congrArg JobHold.own (hjob.resolve_right hmay)
      exact absurd hid (hd.minted.own i id hown).2

include hwork henv in
omit [DecidableEq ι] in
/-- A write that ends a job leaves it other than PENDING. -/
private theorem not_pending {f : Instant → Job → Job} (ho : o = .hset id f ∨ o = .hsetLrem id f)
    (hends : WorkHold.endsJob f = true) : w'.stateOf id ≠ some .PENDING := by
  obtain ⟨s, hs, hterminal⟩ := ended_of_write henv hwork ho hends
  rw [hs]
  rintro ⟨⟩
  cases hterminal

include hwork hout henv in
/-- What is in hand stays in hand as long as it is PENDING. -/
private theorem inHand_step {j : ι} (hj : InHand v d j id)
    (hpending : w'.stateOf id = some .PENDING) :
    InHand (Function.update v i ((v i).after o r)) (Function.update d i ((d i).after o r)) j
      id := by
  by_cases hji : j = i
  · subst hji
    rw [InHand, Function.update_self, Function.update_self]
    refine hj.imp (fun hheld => ?_) fun hheld => ?_
    · refine (job_after_or_ends hwork hheld).resolve_right ?_
      rintro ⟨f, ho, hends⟩
      exact not_pending hwork henv (.inl ho) hends hpending
    · rw [hheld] at hout ⊢
      cases o with
      | lpop => cases hout
      | hsetLrem id' f =>
        rcases hout with hends | hout
        · exact if_pos hends
        · cases hout
      | hgetall id' =>
        refine if_neg ?_
        rintro ⟨hid, hstate⟩
        obtain rfl := OutHold.out.inj hid
        have hpair : (w.job id, w) = (r, w') := Option.some.inj henv
        obtain ⟨rfl, rfl⟩ := Prod.mk.inj hpair
        exact hstate hpending
      | hset id' f =>
        refine if_neg ?_
        rintro ⟨hid, hends⟩
        obtain rfl := OutHold.out.inj hid
        exact not_pending hwork henv (.inl rfl) hends hpending
      | _ => rfl
  · rw [InHand, Function.update_of_ne hji, Function.update_of_ne hji]
    exact hj

include hwork henv in
/-- What is in the queue stays there, or is in hand now. -/
private theorem queue_step (hid : id ∈ w.queue) (hpending : w'.stateOf id = some .PENDING) :
    id ∈ w'.queue ∨
      InHand (Function.update v i ((v i).after o r)) (Function.update d i ((d i).after o r)) i
        id := by
  have hqueue : w'.queue = o.queueAfter w := (after_step henv).queue
  rw [InHand, Function.update_self, Function.update_self, hqueue]
  -- the head of the queue goes to who pops it
  have hpop : id ∈ w.queue.tail ∨ w.queue.head? = some id := by
    cases hcases : w.queue with
    | nil =>
      rw [hcases] at hid
      cases hid
    | cons x rest =>
      rw [hcases] at hid
      exact (List.mem_cons.mp hid).elim (fun h => .inr (congrArg some h.symm)) .inl
  cases o with
  | rpush id' => exact .inl (List.mem_append_left _ hid)
  | blpop =>
    have hpair : (w.queue.head?, { w with queue := w.queue.tail }) = (r, w') := Option.some.inj henv
    obtain ⟨rfl, -⟩ := Prod.mk.inj hpair
    refine hpop.imp_right fun hhead => .inl ?_
    rw [hhead]
    rfl
  | lpop =>
    have hpair : (w.queue.head?, { w with queue := w.queue.tail }) = (r, w') := Option.some.inj henv
    obtain ⟨rfl, -⟩ := Prod.mk.inj hpair
    refine hpop.imp_right fun hhead => .inr ?_
    rw [hhead]
    rfl
  | hsetLrem id' f =>
    by_cases hne : id = id'
    · subst hne
      refine .inr (.inr (if_neg fun hends => ?_))
      exact not_pending hwork henv (.inr rfl) hends hpending
    · exact .inl (List.mem_filter.mpr ⟨hid, decide_eq_true hne⟩)
  | _ => exact .inl hid

include hq hd hjob hwork hout henv in
private theorem Waiting.waits_step (id : Uuid)
    (hid : id ∈ queuedIds w₀.queue (h ++ [(i, ⟨o, r⟩)]))
    (hpending : w'.stateOf id = some .PENDING) : id ∈ w'.queue ∨
      ∃ j, InHand (Function.update v i ((v i).after o r)) (Function.update d i ((d i).after o r)) j
        id := by
  rw [queuedIds_append, List.mem_append] at hid
  rcases hid with hid | hnew
  · rcases hq.waits id hid (pending_before hd hjob hwork henv hid hpending) with hold | ⟨j, hj⟩
    · exact (queue_step hwork henv hold hpending).imp_right fun hi => ⟨i, hi⟩
    · exact .inr ⟨j, inHand_step hwork hout henv hj hpending⟩
  · have hqueue : w'.queue = o.queueAfter w := (after_step henv).queue
    rw [hqueue]
    cases o with
    | rpush id' =>
      obtain rfl := List.mem_singleton.mp hnew
      exact .inl (List.mem_append_right _ (List.mem_singleton_self _))
    | _ => cases hnew

include hq in
private theorem Waiting.out_step (j : ι) (id : Uuid)
    (hj : Function.update d i ((d i).after o r) j = .out id) :
    TookOut (h ++ [(i, ⟨o, r⟩)]) j id := by
  by_cases hji : j = i
  · subst hji
    rw [Function.update_self] at hj
    cases o with
    | lpop =>
      cases r with
      | none => exact (hq.out j id hj).append _
      | some id' =>
        obtain rfl := OutHold.out.inj hj
        exact .inl (List.mem_append_right _ (List.mem_singleton_self _))
    | hsetLrem id' f =>
      by_cases hends : WorkHold.endsJob f
      · rw [OutHold.after, if_pos hends] at hj
        exact (hq.out j id hj).append _
      · rw [OutHold.after, if_neg hends] at hj
        obtain rfl := OutHold.out.inj hj
        exact .inr ⟨f, r, List.mem_append_right _ (List.mem_singleton_self _)⟩
    | hgetall id' =>
      rw [OutHold.after] at hj
      split_ifs at hj
      exact (hq.out j id hj).append _
    | hset id' f =>
      rw [OutHold.after] at hj
      split_ifs at hj
      exact (hq.out j id hj).append _
    | _ => exact (hq.out j id hj).append _
  · rw [Function.update_of_ne hji] at hj
    exact (hq.out j id hj).append _

include hq hd hjob hwork hout henv in
/-- **The step.** -/
private theorem Waiting.step : Waiting w₀ (h ++ [(i, ⟨o, r⟩)])
    (Function.update v i ((v i).after o r)) (Function.update d i ((d i).after o r)) w' :=
  ⟨hq.waits_step hd hjob hwork hout henv, hq.out_step⟩

end Step

end Invariant

/-! ### The runs -/

section Run

variable {ι : Type} [DecidableEq ι] {cfg : Config} {mt : Matching} {polls : ℕ}
  {acts : ι → Activity} {w₀ w : World} {h : List (ι × Event commands)} {p : ι → Prog Unit}

private theorem Activity.onWorkAndOut (act : Activity) :
    Satisfies ((workProtocol.both outProtocol).guarded fun m o r => m.1.Genuine o r ∧ True)
      (fun _ m => m.1 = .nothing ∧ m.2 = .nothing) (.nothing, .nothing)
      (act.program cfg mt polls) := by
  have hout : Satisfies (outProtocol.guarded fun _ _ _ => True) (fun _ m => m = .nothing) .nothing
      (act.program cfg mt polls) := act.onOut.guarded
  exact act.onWorkProtocol.both hout

/-- **No job is left behind.** In every run, a job that has entered the queue and is PENDING is in
the queue, or it was taken out of the queue by a process that is not done. -/
theorem pending_waits
    (hrun : Interleaved environment (fun _ _ => True)
      (fun i => (acts i).program cfg mt polls) w₀ h p w) (hw : w₀.QueueReady) :
    ∀ id ∈ queuedIds w₀.queue h, w.stateOf id = some .PENDING → id ∈ w.queue ∨
      ∃ i, (p i).isDone = false ∧ (TookBy h i id ∨ TookOut h i id) := by
  have hinit : Dispatched w₀.queue [] (fun _ : ι => .nothing) w₀ ∧
      Attended w₀ [] (fun _ : ι => .nothing) (fun _ => .nothing) w₀ ∧
        Waiting w₀ [] (fun _ : ι => .nothing) (fun _ => .nothing) w₀ := by
    refine ⟨.start hw.toQueueFresh, .start hw, fun id hid _ => .inl ?_, fun i id hi => by cases hi⟩
    exact (List.append_nil w₀.queue) ▸ hid
  refine Exists.elim (hrun.invariant_both jobProtocol (workProtocol.both outProtocol)
    (fun m o r => m.1.Genuine o r ∧ True)
    (fun h u c w => Dispatched w₀.queue h u w ∧ Attended w₀ h u (fun i => (c i).1) w ∧
      Waiting w₀ h (fun i => (c i).1) (fun i => (c i).2) w)
    (fun i => (acts i).onProtocol) (fun i => (acts i).onWorkAndOut) hinit ?_) ?_
  · rintro h u c w i o a r w' ⟨hd, ha, hq⟩ hjob ⟨hwork, hout⟩ henv -
    have hv : (fun j => (Function.update c i
        ((workProtocol.both outProtocol).observe (c i) o r) j).1) =
          Function.update (fun j => (c j).1) i ((c i).1.after o r) :=
      Function.comp_update Prod.fst c i _
    have hd' : (fun j => (Function.update c i
        ((workProtocol.both outProtocol).observe (c i) o r) j).2) =
          Function.update (fun j => (c j).2) i ((c i).2.after o r) :=
      Function.comp_update Prod.snd c i _
    rw [hv, hd']
    exact ⟨⟨ha.genuine henv, trivial⟩, hd.step hjob henv, ha.step hd hjob hwork henv,
      hq.step hd hjob hwork hout henv⟩
  · rintro u ⟨c, ⟨-, ha, hq⟩, hdone⟩ id hid hpending
    refine (hq.waits id hid hpending).imp_right ?_
    rintro ⟨i, hi⟩
    refine ⟨i, Bool.eq_false_iff.mpr fun hisDone => ?_, hi.imp (ha.holder i id) (hq.out i id)⟩
    -- whoever is done has nothing in hand
    obtain ⟨-, hnothing, hnothing'⟩ := hdone i hisDone
    rcases hi with hi | hi
    · have hnone : (c i).1.job = none := congrArg WorkHold.job hnothing
      cases hnone.symm.trans hi
    · cases hnothing'.symm.trans hi

end Run

/-! ### Two jobs on their way -/

/-- A world with two jobs in the queue. -/
private def twoWaiting : World where
  jobs := ((∅ : AList fun _ : Uuid => Job).insert 7 { state := some .PENDING }).insert 8
    { state := some .PENDING }
  queue := [7, 8]
  nextUuid := 9

private theorem twoWaiting_ready : twoWaiting.QueueReady where
  nodup := by decide
  below := by decide
  hashed := by
    intro id hid
    rcases List.mem_cons.mp hid with rfl | hid
    · exact ⟨_, rfl⟩
    · obtain rfl := List.mem_singleton.mp hid
      exact ⟨_, rfl⟩

/-- A worker, and an operator who stops the first job. -/
private def stopAndWork : Fin 2 → Activity
  | 0 => .stopJob 7
  | 1 => .iteration 2

private abbrev waitingPrograms : Fin 2 → Prog Unit := fun i =>
  (stopAndWork i).program {} .unused 0

/-- Both jobs are PENDING, and neither is in the queue: the one is about to be cancelled, and the
worker has just taken the other. -/
theorem pending_waits_taken : ∃ h p w,
    Interleaved environment (fun _ _ => True) waitingPrograms twoWaiting h p w ∧
      w.queue = [] ∧ w.stateOf 7 = some .PENDING ∧ w.stateOf 8 = some .PENDING ∧
        ∀ id ∈ queuedIds twoWaiting.queue h, w.stateOf id = some .PENDING → id ∈ w.queue ∨
          ∃ i, (p i).isDone = false ∧ (TookBy h i id ∨ TookOut h i id) := by
  have hshown : (interleave environment (fun _ _ => true)
      ((List.replicate 2 0 ++ List.replicate 8 (1 : Fin 2)).map fun i => (i, .ok)) []
        waitingPrograms twoWaiting).any (fun end_ => end_.2.2.queue == [] &&
          end_.2.2.stateOf 7 == some .PENDING && end_.2.2.stateOf 8 == some .PENDING) = true := by
    decide +kernel
  obtain ⟨h, p, w, hrun, hend⟩ := exists_interleaved (fun _ _ _ => trivial) hshown
  simp only [Bool.and_eq_true, beq_iff_eq] at hend
  exact ⟨h, p, w, hrun, hend.1.1, hend.1.2, hend.2, pending_waits hrun twoWaiting_ready⟩

end RestoreEngine
