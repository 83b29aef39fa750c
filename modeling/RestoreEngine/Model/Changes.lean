import RestoreEngine.Model.Footprints

/-!
# What a command changes

Each part of the world, as it is after a command. A command on the guests of the cluster changes
nothing else, and of all other commands at most one kind changes each part, so that the new value
of a part is a function of the command and the old world.
-/

namespace RestoreEngine

open Effects Prog Program

variable {w w' : World} {o : Op} {a : Answer} {r : o.Res}

/-! ### Commands on the cluster -/

/-- Commands that may change the cluster. -/
def Op.OnCluster : Op → Prop
  | qemuConfig _ _ _ | qemuConfigPut _ _ _ _ | qemuStop _ _ _ | qemuStatus _ _ _
  | qemuStart _ _ _ | qemuDelete _ _ _ _ | qemuRestore _ _ _ | outside _ => True
  | _ => False

/-- The two worlds differ in the cluster only. -/
def World.SameRest (w w' : World) : Prop := ∃ guests up, w' = { w with guests, up }

theorem World.SameRest.refl (w : World) : w.SameRest w := ⟨_, _, rfl⟩

theorem Op.OnCluster.sameRest (ho : o.OnCluster) (h : environment o a w = some (r, w')) :
    w.SameRest w' := by
  have hself : w.SameRest w := .refl w
  cases o with
  | qemuConfig _ _ _ | qemuConfigPut _ _ _ _ | qemuStop _ _ _ | qemuStatus _ _ _
  | qemuStart _ _ _ | qemuDelete _ _ _ _ =>
    have hw' : _ = w' := congrArg Prod.snd (Option.some.inj h)
    exact hw' ▸ onGuest_world (P := w.SameRest) hself fun _ _ => ⟨_, _, rfl⟩
  | qemuRestore px node p =>
    have hrestore : w.SameRest (restoreInto w px node p).2 :=
      restoreInto_world (P := w.SameRest) hself fun _ => ⟨_, _, rfl⟩
    have hw' : _ = w' := congrArg Prod.snd (Option.some.inj h)
    refine hw' ▸ ?_
    cases a <;> first | exact hself | exact hrestore
  | outside act =>
    have hw' : _ = w' := congrArg Prod.snd (Option.some.inj h)
    refine hw' ▸ ?_
    cases act with
    | create v g =>
      change w.SameRest (if _ then _ else _)
      split_ifs
      · exact ⟨_, _, rfl⟩
      · exact hself
    | remove v => exact ⟨_, _, rfl⟩
    | edit v config =>
      change w.SameRest (w.outside (.edit v config))
      rw [World.outside]
      split
      · exact ⟨_, _, rfl⟩
      · exact hself
    | reach up => exact ⟨_, _, rfl⟩
  | _ => exact ho.elim

/-! ### The parts of the world -/

/-- The job hashes after a command. -/
def Op.jobsAfter (w : World) : Op → AList (fun _ : Uuid => Job)
  | hset id f | hsetLrem id f => (w.setJob id f).jobs
  | _ => w.jobs

/-- The queue after a command. -/
def Op.queueAfter (w : World) : Op → List Uuid
  | hsetLrem id _ => w.queue.filter (· ≠ id)
  | rpush id => w.queue ++ [id]
  | blpop | lpop => w.queue.tail
  | _ => w.queue

/-- The counter of slots after a command. -/
def Op.slotsAfter (w : World) : Op → ℤ
  | setSlots n => n
  | incrSlots => w.slots + 1
  | decrSlots => w.slots - 1
  | _ => w.slots

/-- The next fresh identifier after a command. -/
def Op.uuidAfter (w : World) : Op → Uuid
  | uuid4 => w.nextUuid + 1
  | _ => w.nextUuid

/-- The locations after a command. -/
def Op.locationsAfter (w : World) : Op → AList (fun _ : Uuid => Location)
  | setLocation location => w.locations.insert location.id location
  | delLocation id => w.locations.erase id
  | _ => w.locations

/-- The plan runs after a command. -/
def Op.runsAfter (w : World) : Op → AList (fun _ : Uuid => PlanRun)
  | setRun run => w.runs.insert run.id run
  | _ => w.runs

/-- The plans after a command. -/
def Op.plansAfter (w : World) : Op → AList (fun _ : Uuid => Plan)
  | setPlan plan => w.plans.insert plan.id plan
  | delPlan id => w.plans.erase id
  | _ => w.plans

/-- The groups after a command. -/
def Op.groupsAfter (w : World) : Op → AList (fun _ : Uuid => Group)
  | setGroup group => w.groups.insert group.id group
  | delGroup id => w.groups.erase id
  | _ => w.groups

/-- The pause flag after a command. -/
def Op.pausedAfter (w : World) : Op → Bool
  | setPaused paused => paused
  | _ => w.paused

/-- **What a command changes.** -/
structure World.After (w : World) (o : Op) (w' : World) : Prop where
  jobs : w'.jobs = o.jobsAfter w
  queue : w'.queue = o.queueAfter w
  slots : w'.slots = o.slotsAfter w
  nextUuid : w'.nextUuid = o.uuidAfter w
  runs : w'.runs = o.runsAfter w
  plans : w'.plans = o.plansAfter w
  groups : w'.groups = o.groupsAfter w
  locations : w'.locations = o.locationsAfter w
  paused : w'.paused = o.pausedAfter w
  guests : ¬ o.OnCluster → w'.guests = w.guests

theorem after_step (h : environment o a w = some (r, w')) : w.After o w' := by
  by_cases ho : o.OnCluster
  · obtain ⟨guests, up, rfl⟩ := ho.sameRest h
    cases o <;> first
      | exact ho.elim
      | exact ⟨rfl, rfl, rfl, rfl, rfl, rfl, rfl, rfl, rfl, fun hnot => absurd trivial hnot⟩
  · cases o <;> first
      | exact absurd trivial ho
      | (cases h; done)
      | (cases h; exact ⟨rfl, rfl, rfl, rfl, rfl, rfl, rfl, rfl, rfl, fun _ => rfl⟩)

end RestoreEngine
