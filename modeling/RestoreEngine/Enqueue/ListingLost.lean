import RestoreEngine.Enqueue.Steps

/-!
# Enqueueing without a listing

If the listing of the cluster is lost, `clusterVmResources` answers with an empty one, and
`enqueueRestores` takes every VMID for free. It raises a runtime error only where it would do so
on an empty cluster (`fails_closed_iff`).
-/

namespace RestoreEngine

open Effects Prog Program

variable {w w' : World} {req : EnqueueRequest} {px : Client}

/-- The answers of an API that never returns a listing: the request raises, or what it returns is
not a list. -/
def listingLost : Op → Answer → Bool
  | .clusterResources _, .fault _ => true
  | .clusterResources _, .malformed => true
  | .clusterResources _, _ => false
  | _, _ => true

/-- Whenever the listing is lost, enqueueing raises a runtime error and leaves the job hashes and
the queue alone. -/
def FailsClosed (w : World) (req : EnqueueRequest) : Prop :=
  ∀ out w', Ends (environment.restrict listingLost) (enqueueRestores req) w out w' →
    (∃ text, out = .error (.runtimeError text)) ∧ w'.jobs = w.jobs ∧ w'.queue = w.queue

/-! ### Nothing is in use -/

/-- A lost listing shows nothing in use. -/
private theorem listInUse_lost : Satisfies (environment.restrict listingLost).machine
    (fun out w' => out = .ok ∅ ∧ w' = w) w (listInUse px) := by
  have hrows : Satisfies (environment.restrict listingLost).machine
      (fun out w' => out = .ok [] ∧ w' = w) w (clusterVmResources px) := by
    rw [clusterVmResources, satisfies_bind, satisfies_issue_iff]
    intro a r w' h
    cases a with
    | fault _ | malformed =>
      have hr : (_, w) = (r, w') := Option.some.inj h
      rw [Prod.mk.injEq] at hr
      obtain ⟨rfl, rfl⟩ := hr
      rw [then_ok]
      exact satisfies_ret.mpr (.intro rfl rfl)
    | _ => cases h
  rw [listInUse, satisfies_bind, satisfies_attempt, qemuVmidsInUseCluster, satisfies_bind]
  refine hrows.mono ?_
  rintro _ _ ⟨rfl, rfl⟩
  rw [then_ok, pure_eq_ret, satisfies_ret, then_ok, vmidsOf_nil]
  exact satisfies_ret.mpr ⟨rfl, rfl⟩

/-- Where nothing is in use, the enqueueing of allocated rows raises no runtime error. -/
private theorem enqueueAllocated_empty (h : ¬ req.Refused) (vmids : List ℤ) :
    Satisfies environment.machine (fun out _ => ∀ text, out ≠ .error (.runtimeError text)) w
      (enqueueAllocated req px ∅ vmids) := by
  rw [enqueueAllocated]
  refine activeRestoreCountsByNode_spec.bind ?_ (by rintro e w' ⟨-, _, h⟩; cases h)
  rintro counts w₁ -
  obtain ⟨nodes, storages, hplace, -⟩ := req.place_spec counts h
  rw [hplace, satisfies_bind, satisfies_ofExcept, then_ok, reclaimStep_empty, satisfies_bind,
    satisfies_ret, then_ok, satisfies_bind]
  refine (writeJobs_spec _).mono ?_
  rintro out w₂ ⟨-, hout⟩
  cases out with
  | ok ids =>
    rw [then_ok, pure_eq_ret, satisfies_ret]
    exact nofun
  | error e =>
    rw [then_error]
    exact fun text heq => hout text (congrArg _ (Except.error.inj heq))

/-! ### When the failure is noticed -/

private theorem ownVmids_empty_iff {overwrite : Bool} {rows : List Row} :
    (∃ vmids, EnqueueRequest.OwnVmids ∅ overwrite rows vmids) ↔
      (∀ row ∈ rows, row.vmid ≠ none) ∧ (rows.map (·.vmid)).Nodup := by
  constructor
  · rintro ⟨vmids, hrows, hnodup, -⟩
    refine ⟨fun row hrow hnone => ?_, hrows ▸ hnodup.map (Option.some_injective ℤ)⟩
    have hmem : none ∈ vmids.map some := hrows ▸ List.mem_map.mpr ⟨row, hrow, hnone⟩
    obtain ⟨v, -, hv⟩ := List.mem_map.mp hmem
    cases hv
  · rintro ⟨hsome, hnodup⟩
    have hrows : rows.map (·.vmid) = (rows.filterMap (·.vmid)).map some := by
      clear hnodup
      induction rows with
      | nil => rfl
      | cons row rest ih =>
        obtain ⟨v, hv⟩ := Option.ne_none_iff_exists'.mp (hsome row List.mem_cons_self)
        rw [List.map_cons, List.filterMap_cons_some hv, List.map_cons, hv,
          ih fun r hr => hsome r (List.mem_cons_of_mem _ hr)]
    exact ⟨_, hrows, List.Nodup.of_map _ (hrows ▸ hnodup), fun _ _ _ => Finset.notMem_empty _⟩

/-- The request would raise a runtime error on an empty cluster: it is refused, or in DR mode
a row has no source VMID, or two rows have the same. -/
def EnqueueRequest.FailsOnEmpty (req : EnqueueRequest) : Prop :=
  req.Refused ∨
    (req.mode = "dr" ∧
      ((∃ row ∈ req.rows, row.vmid = none) ∨ ¬ (req.rows.map (·.vmid)).Nodup))

private theorem enqueueRestores_lost (req : EnqueueRequest) (hup : w.up = true) :
    Satisfies (environment.restrict listingLost).machine
      (fun out w' => (req.FailsOnEmpty → (∃ text, out = .error (.runtimeError text)) ∧ w' = w) ∧
        (¬ req.FailsOnEmpty → ∀ text, out ≠ .error (.runtimeError text))) w
      (enqueueRestores req) := by
  rw [enqueueRestores, satisfies_bind, satisfies_ofExcept]
  rcases req.check_spec with ⟨hcheck, hallowed⟩ | ⟨text, hcheck, hrefused⟩
  swap
  · rw [hcheck, then_error]
    exact ⟨fun _ => ⟨⟨text, rfl⟩, rfl⟩, fun hnot => absurd (.inl hrefused) hnot⟩
  have hconnect : Satisfies (environment.restrict listingLost).machine
      (fun out w' => out = .ok () ∧ w' = w) w (connect (.enqueue req.planRunId)) := by
    refine Satisfies.restrict ?_
    rw [satisfies_connect, if_pos hup]
    exact ⟨rfl, rfl⟩
  rw [hcheck, then_ok]
  refine hconnect.bind ?_ (by rintro e w' ⟨h, -⟩; cases h)
  rintro _ w ⟨-, rfl⟩
  refine listInUse_lost.bind ?_ (by rintro e w' ⟨h, -⟩; cases h)
  rintro inUse w ⟨hin, rfl⟩
  obtain rfl := Except.ok.inj hin
  rw [satisfies_bind, satisfies_ofExcept]
  -- rows that get VMIDs are enqueued
  have hallocated : ∀ vmids, ¬ req.FailsOnEmpty →
      Satisfies (environment.restrict listingLost).machine
        (fun out w' => (req.FailsOnEmpty → (∃ text, out = .error (.runtimeError text)) ∧ w' = w) ∧
          (¬ req.FailsOnEmpty → ∀ text, out ≠ .error (.runtimeError text))) w
        (enqueueAllocated req (.enqueue req.planRunId) ∅ vmids) := fun vmids hnot =>
    (enqueueAllocated_empty hallowed vmids).restrict.mono fun out w' hout =>
      ⟨fun hfails => absurd hfails hnot, fun _ => hout⟩
  by_cases hdr : req.mode = "dr"
  · rcases req.allocate_dr ∅ hdr with ⟨vmids, hok, hown⟩ | ⟨⟨text, herr⟩, hnone⟩
    · rw [hok, then_ok]
      refine hallocated vmids ?_
      rintro (hrefused | ⟨-, hbad⟩)
      · exact hallowed hrefused
      · obtain ⟨hsome, hnodup⟩ := ownVmids_empty_iff.mp ⟨vmids, hown⟩
        rcases hbad with ⟨row, hrow, hmissing⟩ | hdup
        · exact hsome row hrow hmissing
        · exact hdup hnodup
    · rw [herr, then_error]
      refine ⟨fun _ => ⟨⟨text, rfl⟩, rfl⟩, fun hnot => ?_⟩
      simp only [EnqueueRequest.FailsOnEmpty, hdr, true_and, not_or, not_exists, not_and,
        not_not] at hnot
      obtain ⟨vmids, hown⟩ := ownVmids_empty_iff.mpr hnot.2
      exact absurd hown (hnone vmids)
  · obtain ⟨vmids, hok, -⟩ := req.allocate_normal_empty hdr
    rw [hok, then_ok]
    refine hallocated vmids ?_
    rintro (hrefused | ⟨hdr', -⟩)
    · exact hallowed hrefused
    · exact hdr hdr'

/-- **Enqueueing without a listing** fails closed exactly where it would fail on an empty
cluster. -/
theorem fails_closed_iff (hup : w.up = true) : FailsClosed w req ↔ req.FailsOnEmpty := by
  have hspec := satisfies_iff_ends.mp (enqueueRestores_lost req hup)
  constructor
  · intro hall
    by_contra hnot
    have hanswers : ∀ (o : Op) (u : World), o ≠ .park →
        ∃ a r u', environment.restrict listingLost o a u = some (r, u') := by
      intro o u ho
      cases o with
      | park => exact absurd rfl ho
      | clusterResources px => exact ⟨.malformed, _, _, rfl⟩
      | _ => exact ⟨.ok, _, _, rfl⟩
    have honly : (enqueueRestores req).Only (· ≠ Op.park) :=
      enqueueRestores_only.mono fun _ => Op.OfEnqueue.ne_park
    obtain ⟨out, w', hends⟩ := honly.exists_ends hanswers w
    obtain ⟨⟨text, herr⟩, -⟩ := hall out w' hends
    exact (hspec out w' hends).2 hnot text herr
  · intro hfails out w' hends
    obtain ⟨herr, rfl⟩ := (hspec out w' hends).1 hfails
    exact ⟨herr, rfl, rfl⟩

/-! ### A guest that the listing would have shown -/

/-- The restore of one backup in the given mode, from VMID 100 on. -/
def oneRow (restoreMode : String) (sourceVmid : Option ℤ) : EnqueueRequest :=
  { rows := [{ backupId := "b", vmid := sourceVmid, pveStorage := "pbs", voltail := "vm/100/t" }]
    node := "pve", targetStorage := "local", vmidStart := 100, liveRestore := false, bwlimit := 0
    restoreMode }

/-- A cluster with a foreign guest at VMID 100. -/
def takenWorld : World := { guests := (∅ : AList _).insert 100 { kind := .qemu, node := "pve" } }

/-- The listing raises, and a job for the VMID of the foreign guest is enqueued. -/
theorem taken_vmid_enqueued : ¬ FailsClosed takenWorld (oneRow "normal" (some 200)) := by
  intro hall
  have hrun : (Program.run (environment.restrict listingLost) [.ok, .fault "timeout"]
      (enqueueRestores (oneRow "normal" (some 200))) takenWorld).map
        (fun r => (r.2.queue, (r.2.job 0).map (·.proxmoxVmid))) = some ([0], some (some 100)) := by
    decide
  obtain ⟨out, w', hends, hleft⟩ := exists_ends_of_run hrun
  obtain ⟨-, -, hqueue⟩ := hall out w' hends
  rw [Prod.mk.injEq, hqueue] at hleft
  cases hleft.1

/-- A backup without a source VMID is refused in DR mode, listing or not. -/
theorem missing_vmid_refused : FailsClosed takenWorld (oneRow "dr" none) :=
  (fails_closed_iff rfl).mpr (.inr ⟨by decide, .inl ⟨_, List.mem_singleton_self _, rfl⟩⟩)

end RestoreEngine
