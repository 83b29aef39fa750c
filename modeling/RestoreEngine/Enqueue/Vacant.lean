import RestoreEngine.Enqueue.Steps

/-!
# Enqueueing on an empty cluster

On a cluster without guests nothing stands in the way of a request: if it passes the checks, and
its rows can be restored, every undisturbed run of `enqueueRestores` creates one job for each row
(`enqueueRestores_vacant`).
-/

namespace RestoreEngine

open Effects Prog Program

variable {w w' : World} {req : EnqueueRequest}

/-- The row names a source VMID and an archive. -/
structure Row.Restorable (row : Row) : Prop where
  vmid : ∃ v, row.vmid = some v
  archive : ∃ a, archivePath row.pveStorage row.voltail = .ok a

/-- The hash stored under `id` is one that the request creates. -/
def World.Created (w : World) (req : EnqueueRequest) (id : Uuid) : Prop :=
  ∃ row sourceVmid vmid node storage archive now hash,
    w.job id = some (req.newJob row sourceVmid vmid node storage archive now hash)

/-- Jobs have been created under fresh, distinct ids, and the other hashes are as before. -/
structure World.Creates (w : World) (req : EnqueueRequest) (ids : List Uuid) (w' : World) :
    Prop where
  nextUuid : w.nextUuid ≤ w'.nextUuid
  fresh : ∀ id ∈ ids, w.nextUuid ≤ id ∧ id < w'.nextUuid
  nodup : ids.Nodup
  created : ∀ id ∈ ids, w'.Created req id
  others : ∀ id ∉ ids, w'.job id = w.job id

/-- Restorable rows all get their jobs. -/
theorem writeJobs_creates (rows : List (Row × ℤ × String × String))
    (h : ∀ e ∈ rows, e.1.Restorable) :
    Satisfies environment.machine
      (fun out w' => ∃ ids, out = .ok ids ∧ ids.length = rows.length ∧ w.Creates req ids w') w
      (writeJobs req rows) := by
  induction rows generalizing w with
  | nil =>
    exact satisfies_ret.mpr ⟨[], rfl, rfl, le_refl _, nofun, List.nodup_nil, nofun, fun _ _ => rfl⟩
  | cons e rest ih =>
    obtain ⟨row, vmid, node, storage⟩ := e
    obtain ⟨⟨v, hv⟩, a, ha⟩ := h _ List.mem_cons_self
    simp only [writeJobs, satisfies_bind, satisfies_uuid4, then_ok, satisfies_utcNow,
      satisfies_ofExcept]
    intro n
    rw [ha, then_ok, satisfies_bind, satisfies_ofExcept, hv, Option.elim_some, then_ok]
    simp only [satisfies_bind, satisfies_hset, then_ok, satisfies_rpush]
    refine (ih fun e he => h e (List.mem_cons_of_mem _ he)).mono ?_
    rintro _ w₂ ⟨ids, rfl, hlen, hnext, hfresh, hnodup, hcreated, hothers⟩
    have hnext : w.nextUuid + 1 ≤ w₂.nextUuid := hnext
    have hfresh : ∀ id ∈ ids, w.nextUuid + 1 ≤ id ∧ id < w₂.nextUuid := hfresh
    have hnew : w.nextUuid ∉ ids := fun hmem => Nat.not_succ_le_self _ (hfresh _ hmem).1
    rw [then_ok, pure_eq_ret, satisfies_ret]
    refine ⟨_, rfl, congrArg Nat.succ hlen, Nat.le_of_succ_le hnext, fun id hid => ?_,
      List.nodup_cons.mpr ⟨hnew, hnodup⟩, fun id hid => ?_, fun id hid => ?_⟩
    · rcases List.mem_cons.mp hid with rfl | hid
      · exact ⟨le_refl _, Nat.lt_of_succ_le hnext⟩
      · exact ⟨Nat.le_of_succ_le (hfresh id hid).1, (hfresh id hid).2⟩
    · rcases List.mem_cons.mp hid with rfl | hid
      · exact ⟨_, _, _, _, _, _, _, _, (hothers _ hnew).trans (World.job_setJob _ _ _)⟩
      · exact hcreated id hid
    · obtain ⟨hne, hid⟩ := not_or.mp (mt List.mem_cons.mpr hid)
      exact (hothers id hid).trans (World.job_setJob_ne _ _ hne)

/-- A cluster without guests, that can be reached. -/
structure World.Vacant (w : World) : Prop where
  up : w.up = true
  guests : w.guests = ∅

/-- The rows of a request can be restored where nothing is in use. -/
structure EnqueueRequest.Restorable (req : EnqueueRequest) : Prop where
  allowed : ¬ req.Refused
  rows : ∀ row ∈ req.rows, row.Restorable
  /-- In DR mode no two rows are of the same guest. -/
  distinct : req.mode = "dr" → (req.rows.map (·.vmid)).Nodup

namespace EnqueueRequest

private theorem exists_vmids {rows : List Row} (h : ∀ row ∈ rows, row.Restorable) :
    ∃ vmids : List ℤ, rows.map (·.vmid) = vmids.map some := by
  induction rows with
  | nil => exact ⟨[], rfl⟩
  | cons row rest ih =>
    obtain ⟨vmids, hvmids⟩ := ih fun r hr => h r (List.mem_cons_of_mem _ hr)
    obtain ⟨v, hv⟩ := (h row List.mem_cons_self).vmid
    exact ⟨v :: vmids, by rw [List.map_cons, hv, hvmids]; rfl⟩

/-- Each row gets a VMID. -/
private theorem allocate_vacant (h : req.Restorable) :
    ∃ vmids, req.allocate ∅ = .ok vmids ∧ vmids.length = req.rows.length := by
  by_cases hdr : req.mode = "dr"
  · obtain ⟨own, hown⟩ := exists_vmids h.rows
    have hfree : OwnVmids ∅ req.overwrite req.rows own := by
      refine ⟨hown, ?_, fun _ v _ => Finset.notMem_empty v⟩
      have hnodup := h.distinct hdr
      rw [hown] at hnodup
      exact hnodup.of_map _
    rcases req.allocate_dr ∅ hdr with ⟨vmids, hok, hrows⟩ | ⟨-, hnone⟩
    · refine ⟨vmids, hok, ?_⟩
      have hlen := congrArg List.length hrows.rows_eq
      rwa [List.length_map, List.length_map, eq_comm] at hlen
    · exact absurd hfree (hnone own)
  · exact req.allocate_normal_empty hdr

end EnqueueRequest

private theorem listInUse_vacant (hw : w.Vacant) {px : Client} :
    Satisfies environment.machine (fun out w' => w' = w ∧ out = .ok ∅) w (listInUse px) := by
  refine listInUse_spec.mono ?_
  rintro _ w' ⟨rfl, rows, rfl, hrows⟩
  have hnone : w'.listing = [] := by
    rw [World.listing, hw.guests]
    rfl
  rcases hrows with rfl | rfl
  · rw [hnone, vmidsOf_nil]
    exact ⟨rfl, rfl⟩
  · rw [vmidsOf_nil]
    exact ⟨rfl, rfl⟩

/-- **Enqueueing on an empty cluster** creates one job for each row. -/
theorem enqueueRestores_vacant (hw : w.Vacant) (h : req.Restorable) :
    Satisfies environment.machine
      (fun out w' => ∃ result, out = .ok result ∧ result.jobIds.length = req.rows.length ∧
        w.Creates req result.jobIds w') w (enqueueRestores req) := by
  obtain ⟨vmids, hvmids, hlen⟩ := EnqueueRequest.allocate_vacant h
  rw [enqueueRestores, satisfies_bind, satisfies_ofExcept]
  rcases req.check_spec with ⟨hcheck, -⟩ | ⟨text, -, hrefused⟩
  swap
  · exact absurd hrefused h.allowed
  rw [hcheck, then_ok, satisfies_bind, satisfies_connect, if_pos hw.up, then_ok]
  refine (listInUse_vacant hw).bind ?_ (by rintro e w' ⟨-, h⟩; cases h)
  rintro inUse w ⟨rfl, hinUse⟩
  obtain rfl := Except.ok.inj hinUse
  rw [satisfies_bind, satisfies_ofExcept, hvmids, then_ok, enqueueAllocated]
  refine activeRestoreCountsByNode_spec.bind ?_ (by rintro e w' ⟨-, _, h⟩; cases h)
  rintro counts w ⟨rfl, -⟩
  obtain ⟨nodes, storages, hplace, hnodes, hstorages⟩ := req.place_spec counts h.allowed
  rw [hplace, satisfies_bind, satisfies_ofExcept, then_ok, reclaimStep_empty, satisfies_bind,
    satisfies_ret, then_ok, satisfies_bind]
  refine (@writeJobs_creates _ req _ fun e he => ?_).mono ?_
  · exact h.rows _ (List.of_mem_zip he).1
  · rintro _ w₂ ⟨ids, rfl, hids, hcreates⟩
    rw [then_ok, pure_eq_ret, satisfies_ret]
    refine ⟨_, rfl, ?_, hcreates⟩
    rw [hids, List.length_zip, List.length_zip, List.length_zip, hlen, hnodes, hstorages]
    omega

end RestoreEngine
