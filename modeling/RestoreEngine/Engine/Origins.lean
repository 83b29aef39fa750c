import RestoreEngine.Engine.Dispatch

/-!
# What is submitted is what was made

A job comes into the queue in one piece: some process makes its id, writes its hash and pushes it,
and nobody changes afterwards what the hash says of the restore. What comes before a worker takes
the job is its **origin** (`MadeJob`); the jobs that are in the queue at first have none. Along
every run, what the hash of a job says can be told from its origin (`Originated`), and so the
restore that is submitted is the one for which the job was made, by a worker that has taken the job
(`submitted_once`).
-/

namespace RestoreEngine

open Effects Prog Program

variable {ι : Type} {w₀ w w' : World} {h : List (ι × Event commands)} {v : ι → JobHold} {i : ι}
  {o : Op} {a : Answer} {r : o.Res} {id : Uuid}

/-! ### Origins -/

/-- **The origin of a job**: the events by which it came into the queue with a hash of which `P`
holds. They are missing if the job was in the queue at first. -/
inductive MadeJob (w₀ : World) (id : Uuid) (P : Job → Prop) : List (ι × Event commands) → Prop
  | queued (hid : id ∈ w₀.queue) {job : Job} (hjob : w₀.job id = some job) (hP : P job) :
      MadeJob w₀ id P []
  | made (i : ι) (f : Instant → Job → Job) (hP : ∀ now hash, P (f now hash)) :
      MadeJob w₀ id P [(i, ⟨.uuid4, id⟩), (i, ⟨.hset id f, ()⟩), (i, ⟨.rpush id, ()⟩)]

theorem MadeJob.mono {P Q : Job → Prop} {before : List (ι × Event commands)}
    (hmade : MadeJob w₀ id P before) (hPQ : ∀ job, P job → Q job) : MadeJob w₀ id Q before := by
  cases hmade with
  | queued hid hjob hP => exact .queued hid hjob (hPQ _ hP)
  | made i f hP => exact .made i f fun now hash => hPQ _ (hP now hash)

/-- The origin of the job and the events `after` it are part of the history, in this order. The
hash with which the job was made is about the same as `data`. -/
def Since (w₀ : World) (h : List (ι × Event commands)) (id : Uuid) (data : Job)
    (after : List (ι × Event commands)) : Prop :=
  ∃ before, MadeJob w₀ id (fun job => job.origin = data.origin) before ∧ (before ++ after).Sublist h

/-- A submission together with the claim by the worker that has made it. -/
def Served (w₀ : World) (h : List (ι × Event commands)) (s : Submission) : Prop :=
  ∃ before i r, MadeJob w₀ s.1 (·.Describes s.2.1 s.2.2) before ∧
    List.Sublist (before ++ [(i, (⟨.blpop, some s.1⟩ : Event commands)),
      (i, ⟨.qemuRestore (.job s.1) s.2.1 s.2.2, r⟩)]) h

theorem Since.append {data : Job} {after : List (ι × Event commands)}
    (hsince : Since w₀ h id data after) (e : ι × Event commands) :
    Since w₀ (h ++ [e]) id data after := by
  obtain ⟨before, hmade, hsub⟩ := hsince
  exact ⟨before, hmade, hsub.trans (List.sublist_append_left h [e])⟩

theorem Since.next {data : Job} {after : List (ι × Event commands)}
    (hsince : Since w₀ h id data after) (e : ι × Event commands) :
    Since w₀ (h ++ [e]) id data (after ++ [e]) := by
  obtain ⟨before, hmade, hsub⟩ := hsince
  refine ⟨before, hmade, ?_⟩
  rw [← List.append_assoc]
  exact hsub.append (List.Sublist.refl _)

theorem Since.of_origin {data data' : Job} {after : List (ι × Event commands)}
    (hsince : Since w₀ h id data after) (horigin : data.origin = data'.origin) :
    Since w₀ h id data' after := by
  obtain ⟨before, hmade, hsub⟩ := hsince
  exact ⟨before, hmade.mono fun job hjob => hjob.trans horigin, hsub⟩

/-! ### The invariant -/

/-- The hash of the job, if it names a node, has this property. -/
def Placed (w : World) (id : Uuid) (P : Job → Prop) : Prop :=
  ∀ job, w.job id = some job → job.proxmoxNode ≠ none → P job

/-- **Jobs are what they were made as.** -/
structure Originated (w₀ : World) (h : List (ι × Event commands)) (v : ι → JobHold) (w : World) :
    Prop where
  made : ∀ i id, v i = .made id → (i, (⟨.uuid4, id⟩ : Event commands)) ∈ h
  written : ∀ i id f, v i = .written id f →
    List.Sublist [(i, (⟨.uuid4, id⟩ : Event commands)), (i, ⟨.hset id f, ()⟩)] h ∧
      (SetsOrigin f → Placed w id fun job => ∀ now hash, (f now hash).origin = job.origin)
  queued : ∀ id ∈ queuedIds w₀.queue h, Placed w id fun job => Since w₀ h id job []
  claimed : ∀ i id, (v i).claim = some id →
    Placed w id fun job => Since w₀ h id job [(i, ⟨.blpop, some id⟩)]
  served : ∀ s ∈ submissions h, Served w₀ h s

theorem Originated.start : Originated w₀ [] (fun _ : ι => .nothing) w₀ := by
  refine ⟨fun i id hi => ?_, fun i id f hi => ?_, fun id hid job hjob _ => ?_, fun i id hi => ?_,
    List.forall_mem_nil _⟩
  · cases hi
  · cases hi
  · rw [queuedIds, List.filterMap_nil, List.append_nil] at hid
    exact ⟨[], .queued hid hjob rfl, List.Sublist.refl _⟩
  · cases hi

/-! #### What a step does -/

/-- Nobody changes what the hash of a job is about but the process that makes the job. -/
private theorem origin_kept (hpermits : jobProtocol.Permits (v i) o)
    (henv : environment o a w = some (r, w')) (hid : v i ≠ .made id) {job' : Job}
    (hjob' : w'.job id = some job') (hnode : job'.proxmoxNode ≠ none) :
    ∃ job, w.job id = some job ∧ job.proxmoxNode ≠ none ∧ job.origin = job'.origin := by
  rcases job_step henv id with hsame | ⟨f, hop, hwritten⟩
  · exact ⟨job', hsame.symm.trans hjob', hnode, rfl⟩
  · have hkeeps : KeepsOrigin f := by
      rcases hop with rfl | rfl
      · exact hpermits.resolve_left hid
      · exact hpermits
    obtain rfl := Option.some.inj (hwritten.symm.trans hjob')
    have horigin := hkeeps w.clock ((w.job id).getD {})
    have hplaced : ((w.job id).getD {}).proxmoxNode ≠ none := by
      simp only [Job.origin, Prod.mk.injEq] at horigin
      rwa [← horigin.2.2.1]
    -- a hash that the write has begun would not name a node
    cases hjob : w.job id with
    | none => exact absurd (by rw [hjob]; rfl) hplaced
    | some job =>
      rw [hjob] at hplaced horigin
      exact ⟨job, rfl, hplaced, horigin.symm⟩

private theorem Placed.step {P Q : Job → Prop} (hplaced : Placed w id P)
    (hpermits : jobProtocol.Permits (v i) o) (henv : environment o a w = some (r, w'))
    (hid : v i ≠ .made id) (hPQ : ∀ job job', P job → job.origin = job'.origin → Q job') :
    Placed w' id Q := by
  intro job' hjob' hnode
  obtain ⟨job, hjob, hnode, horigin⟩ := origin_kept hpermits henv hid hjob' hnode
  exact hPQ job job' (hplaced job hjob hnode) horigin

section Step

variable [DecidableEq ι]

variable (ho : Originated w₀ h v w) (hd : Dispatched w₀.queue h v w)
  (hpermits : jobProtocol.Permits (v i) o) (henv : environment o a w = some (r, w'))

omit [DecidableEq ι] in
include hd in
/-- What has been in the queue is in nobody's hands. -/
private theorem ne_made_of_queued (hid : id ∈ queuedIds w₀.queue h) (j : ι) : v j ≠ .made id :=
  fun hmade => (hd.minted.own j id (congrArg JobHold.own hmade)).2 hid

omit [DecidableEq ι] in
include hd in
private theorem queued_of_claim {j : ι} (hj : (v j).claim = some id) :
    id ∈ queuedIds w₀.queue h :=
  hd.inOrder.order.subset (List.mem_append_left _ (hd.claimed.claims j id hj).1)

include ho in
private theorem madeOrigin_step (j : ι) (id : Uuid)
    (hj : Function.update v i ((v i).after o r) j = .made id) :
    (j, (⟨.uuid4, id⟩ : Event commands)) ∈ h ++ [(i, ⟨o, r⟩)] := by
  have hold : v j = .made id → (j, (⟨.uuid4, id⟩ : Event commands)) ∈ h ++ [(i, ⟨o, r⟩)] :=
    fun hmade => List.mem_append_left _ (ho.made j id hmade)
  by_cases hji : j = i
  · subst hji
    rw [Function.update_self] at hj
    cases o with
    | uuid4 =>
      obtain rfl := JobHold.made.inj hj
      exact List.mem_append_right _ (List.mem_singleton_self _)
    | hset id' f =>
      by_cases hmade : v j = .made id'
      · rw [JobHold.after, if_pos hmade] at hj
        cases hj
      · rw [JobHold.after, if_neg hmade] at hj
        exact hold hj
    | hgetall id' =>
      by_cases htaken : v j = .taken id'
      · rw [JobHold.after, if_pos htaken] at hj
        cases r with
        | none => exact hold hj
        | some data => cases hj
      · rw [JobHold.after, if_neg htaken] at hj
        exact hold hj
    | blpop => cases r <;> cases hj
    | rpush _ | qemuRestore _ _ _ => cases hj
    | _ => exact hold hj
  · rw [Function.update_of_ne hji] at hj
    exact hold hj

include ho hd hpermits henv in
private theorem writtenOrigin_step (j : ι) (id : Uuid) (f : Instant → Job → Job)
    (hj : Function.update v i ((v i).after o r) j = .written id f) :
    List.Sublist [(j, (⟨.uuid4, id⟩ : Event commands)), (j, ⟨.hset id f, ()⟩)]
        (h ++ [(i, ⟨o, r⟩)]) ∧
      (SetsOrigin f → Placed w' id fun job => ∀ now hash, (f now hash).origin = job.origin) := by
  -- a hash that has been written stays as it is, for nobody else has made its id
  have hold : v j = .written id f → v i ≠ .made id →
      List.Sublist [(j, (⟨.uuid4, id⟩ : Event commands)), (j, ⟨.hset id f, ()⟩)]
        (h ++ [(i, ⟨o, r⟩)]) ∧
      (SetsOrigin f → Placed w' id fun job => ∀ now hash, (f now hash).origin = job.origin) := by
    intro hwritten hmade
    obtain ⟨hsub, hsets⟩ := ho.written j id f hwritten
    refine ⟨hsub.trans (List.sublist_append_left h _), fun hf => ?_⟩
    exact (hsets hf).step hpermits henv hmade
      fun job job' hjob horigin now hash => (hjob now hash).trans horigin
  by_cases hji : j = i
  · subst hji
    rw [Function.update_self] at hj
    have hstays : v j = .written id f → v j ≠ .made id := fun hwritten hmade => by
      rw [hwritten] at hmade
      cases hmade
    cases o with
    | hset id' f' =>
      by_cases hmade : v j = .made id'
      · -- the hash is written under the id that the process has made
        rw [JobHold.after, if_pos hmade] at hj
        obtain ⟨rfl, rfl⟩ := JobHold.written.inj hj
        have hnew : List.Sublist [(j, (⟨.uuid4, id'⟩ : Event commands))] h :=
          List.singleton_sublist.mpr (ho.made j id' hmade)
        refine ⟨hnew.append (List.Sublist.refl _), fun hf job hjob _ now hash => ?_⟩
        have hjobs : w'.jobs = (w.setJob id' f').jobs := (after_step henv).jobs
        have hwritten : w'.job id' = some (f' w.clock ((w.job id').getD {})) := by
          rw [World.job, hjobs]
          exact World.job_setJob w id' f'
        obtain rfl := Option.some.inj (hjob.symm.trans hwritten)
        exact hf now hash _ _
      · rw [JobHold.after, if_neg hmade] at hj
        exact hold hj (hstays hj)
    | hgetall id' =>
      by_cases htaken : v j = .taken id'
      · rw [JobHold.after, if_pos htaken] at hj
        cases r with
        | none => exact hold hj (hstays hj)
        | some data => cases hj
      · rw [JobHold.after, if_neg htaken] at hj
        exact hold hj (hstays hj)
    | blpop => cases r <;> cases hj
    | uuid4 | rpush _ | qemuRestore _ _ _ => cases hj
    | _ => exact hold hj (hstays hj)
  · rw [Function.update_of_ne hji] at hj
    refine hold hj fun hmade => hji ?_
    exact hd.minted.exclusive j i id (congrArg JobHold.own hj) (congrArg JobHold.own hmade)

omit [DecidableEq ι] in
include ho hd hpermits henv in
private theorem queued_step (id : Uuid) (hid : id ∈ queuedIds w₀.queue (h ++ [(i, ⟨o, r⟩)])) :
    Placed w' id fun job => Since w₀ (h ++ [(i, ⟨o, r⟩)]) id job [] := by
  rw [queuedIds_append, List.mem_append] at hid
  rcases hid with hold | hnew
  · exact (ho.queued id hold).step hpermits henv (ne_made_of_queued hd hold i)
      fun job job' hjob horigin => (hjob.append _).of_origin horigin
  · -- the job that is pushed is the one that the process has written
    cases o with
    | rpush id' =>
      obtain rfl := List.mem_singleton.mp hnew
      have hpushes : ∃ f, v i = .written id f ∧ SetsOrigin f := hpermits
      obtain ⟨f, hwritten, hf⟩ := hpushes
      obtain ⟨hsub, hsets⟩ := ho.written i id f hwritten
      have hmade : v i ≠ .made id := fun hmade => by
        rw [hwritten] at hmade
        cases hmade
      refine (hsets hf).step hpermits henv hmade
        fun job job' hjob horigin => ⟨_, .made i f fun now hash => ?_, ?_⟩
      · exact (hjob now hash).trans horigin
      · rw [List.append_nil]
        exact hsub.append (List.Sublist.refl [(i, (⟨.rpush id, ()⟩ : Event commands))])
    | _ => cases hnew

include ho hd hpermits henv in
private theorem claimed_step (j : ι) (id : Uuid)
    (hj : (Function.update v i ((v i).after o r) j).claim = some id) :
    Placed w' id fun job => Since w₀ (h ++ [(i, ⟨o, r⟩)]) id job [(j, ⟨.blpop, some id⟩)] := by
  have hold : (v j).claim = some id → Placed w' id fun job =>
      Since w₀ (h ++ [(i, ⟨o, r⟩)]) id job [(j, ⟨.blpop, some id⟩)] := fun hclaim =>
    (ho.claimed j id hclaim).step hpermits henv
      (ne_made_of_queued hd (queued_of_claim hd hclaim) i)
      fun job job' hjob horigin => (hjob.append _).of_origin horigin
  by_cases hji : j = i
  · subst hji
    rw [Function.update_self] at hj
    cases o with
    | blpop =>
      have hpair : (w.queue.head?, { w with queue := w.queue.tail }) = (r, w') :=
        Option.some.inj henv
      obtain ⟨rfl, rfl⟩ := Prod.mk.inj hpair
      cases hhead : w.queue.head? with
      | none =>
        rw [hhead] at hj
        cases hj
      | some first =>
        rw [hhead] at hj
        obtain rfl := Option.some.inj hj
        -- what has been at the head of the queue has its hash since it was made
        have hqueued : first ∈ queuedIds w₀.queue h :=
          hd.inOrder.order.subset (List.mem_append_right _ (List.mem_of_head? hhead))
        exact fun job hjob hnode => (ho.queued first hqueued job hjob hnode).next _
    | hset id' f =>
      by_cases hmade : v j = .made id'
      · rw [JobHold.after, if_pos hmade] at hj
        cases hj
      · rw [JobHold.after, if_neg hmade] at hj
        exact hold hj
    | hgetall id' =>
      -- a worker that reads the hash keeps its claim
      by_cases htaken : v j = .taken id'
      · rw [JobHold.after, if_pos htaken] at hj
        refine hold ?_
        cases r with
        | none => exact hj
        | some data =>
          rw [htaken]
          exact hj
      · rw [JobHold.after, if_neg htaken] at hj
        exact hold hj
    | uuid4 | rpush _ | qemuRestore _ _ _ => cases hj
    | _ => exact hold hj
  · rw [Function.update_of_ne hji] at hj
    exact hold hj

omit [DecidableEq ι] in
include ho hd hpermits in
private theorem served_step (s : Submission) (hs : s ∈ submissions (h ++ [(i, ⟨o, r⟩)])) :
    Served w₀ (h ++ [(i, ⟨o, r⟩)]) s := by
  rw [submissions_append, List.mem_append] at hs
  rcases hs with hold | hnew
  · obtain ⟨before, j, r', hmade, hsub⟩ := ho.served s hold
    exact ⟨before, j, r', hmade, hsub.trans (List.sublist_append_left h _)⟩
  · cases o with
    | qemuRestore px node p =>
      obtain ⟨id, data, hread, rfl, hdata⟩ := hpermits
      obtain rfl := List.mem_singleton.mp hnew
      -- the hash is still what the worker has read
      obtain ⟨job, hjob, horigin⟩ := hd.claimed.read i id data hread
      have hdescribes : job.Describes node p := hdata.of_origin horigin
      have hnode : job.proxmoxNode ≠ none := by
        rw [hdescribes.node]
        exact Option.some_ne_none node
      have hclaim : (v i).claim = some id := congrArg JobHold.claim hread
      obtain ⟨before, hmade, hsub⟩ := (ho.claimed i id hclaim job hjob hnode).next
        (i, ⟨.qemuRestore (.job id) node p, r⟩)
      exact ⟨before, i, r, hmade.mono fun job' hjob' => hdescribes.of_origin hjob', hsub⟩
    | _ => cases hnew

include ho hd hpermits henv in
/-- **The step.** -/
theorem Originated.step : Originated w₀ (h ++ [(i, ⟨o, r⟩)])
    (Function.update v i ((v i).after o r)) w' where
  made := madeOrigin_step ho
  written := writtenOrigin_step ho hd hpermits henv
  queued := queued_step ho hd hpermits henv
  claimed := claimed_step ho hd hpermits henv
  served := served_step ho hd hpermits

end Step

/-! ### The runs -/

/-- **Every job is submitted at most once, as what it was made.** In every run, the restores that
were submitted are of different jobs. Each was submitted by a worker that had taken the job from the
queue before. It asks for the node, the VMID, the archive and the force flag of the hash with which
the job was made, or which the job had at first if it was in the queue then, and which the hash has
to this day. -/
theorem submitted_once [DecidableEq ι] {cfg : Config} {mt : Matching} {polls : ℕ}
    {acts : ι → Activity} {p : ι → Prog Unit}
    (hrun : Interleaved environment (fun _ _ => True)
      (fun i => (acts i).program cfg mt polls) w₀ h p w) (hw : w₀.QueueFresh) :
    ((submissions h).map Prod.fst).Nodup ∧ ∀ s ∈ submissions h, Served w₀ h s ∧
      ∃ job, w.job s.1 = some job ∧ job.Describes s.2.1 s.2.2 := by
  have hinit : Dispatched w₀.queue [] (fun _ : ι => .nothing) w₀ ∧
      Originated w₀ [] (fun _ : ι => .nothing) w₀ := ⟨.start hw, .start⟩
  obtain ⟨v, hd, ho⟩ := hrun.invariant (fun _ => jobProtocol) (fun _ _ _ => True)
    (fun h v w => Dispatched w₀.queue h v w ∧ Originated w₀ h v w)
    (fun i => ((acts i).onProtocol (m := .nothing)).guarded) hinit
    fun _ _ _ _ _ _ _ _ hinv hpermits henv _ =>
      ⟨trivial, hinv.1.step hpermits henv, Originated.step hinv.2 hinv.1 hpermits henv⟩
  exact ⟨hd.claimed.nodup, fun s hs => ⟨ho.served s hs, hd.claimed.described s hs⟩⟩

/-! ### Two workers -/

private abbrev workers : Fin 2 → Activity := fun _ => .iteration 2

/-- The first worker makes the jobs of the group, and submits the one that was in the queue; the
second submits the first of the new ones. -/
theorem submitted_once_two : ∃ h p w,
    Interleaved environment (fun _ _ => True) (fun i => (workers i).program {} .unused 0)
        backlogWorld h p w ∧
      (submissions h).map Prod.fst = [8, 9] ∧ ((submissions h).map Prod.fst).Nodup ∧
        ∀ s ∈ submissions h, Served backlogWorld h s ∧
          ∃ job, w.job s.1 = some job ∧ job.Describes s.2.1 s.2.2 := by
  have hshown : (interleave environment (fun _ _ => true)
      ((List.replicate 30 0 ++ List.replicate 18 (1 : Fin 2)).map fun i => (i, .ok)) []
        (fun i => (workers i).program {} .unused 0) backlogWorld).any
          (fun end_ => (submissions end_.1).map Prod.fst == [8, 9]) = true := by
    decide +kernel
  obtain ⟨h, p, w, hrun, hend⟩ := exists_interleaved (fun _ _ _ => trivial) hshown
  exact ⟨h, p, w, hrun, beq_iff_eq.mp hend, submitted_once hrun backlogWorld_fresh⟩

end RestoreEngine
