import Mathlib.Data.Finset.Card
import RestoreEngine.Model.Rules
import RestoreEngine.Model.Slots

/-!
# Reconciling the slots

`reconcileSlots` sets the counter to the number of RESTORING jobs. What it should be is the number
of slots that live workers hold, and a slot is also held while its worker waits for a job, or has
claimed one that is not RESTORING yet; on the other hand a job stays RESTORING when its worker is
killed. The two numbers agree exactly if there are as many such orphans as there are slots whose
holder is not restoring (`reconcileSlots_exact_iff`).
-/

namespace RestoreEngine

open Effects Prog Program

variable {w w' : World}

/-! ### The slots of live workers -/

/-- How a live worker holds a slot: for a job that it restores, for one that it has claimed but
not marked RESTORING yet, or while it waits for one. -/
inductive Holder
  | restoring (id : Uuid)
  | claimed (id : Uuid)
  | idle
  deriving DecidableEq

/-- The job that a holder restores. -/
def Holder.restoredJob : Holder → Option Uuid
  | restoring id => some id
  | _ => none

/-- The job is stored as RESTORING. -/
def World.Restoring (w : World) (id : Uuid) : Prop :=
  (w.job id).bind (·.state) = some .RESTORING

instance (w : World) (id : Uuid) : Decidable (w.Restoring id) :=
  inferInstanceAs (Decidable (_ = _))

/-- `holders` are the slots that the live workers hold: a job is in the hands of one worker, and
it is stored as RESTORING if and only if its holder restores it. -/
structure LiveSlots (w : World) (holders : List Holder) : Prop where
  nodup : (holders.filterMap Holder.restoredJob).Nodup
  restoring : ∀ id, .restoring id ∈ holders → w.Restoring id
  claimed : ∀ id, .claimed id ∈ holders → ¬ w.Restoring id

/-- The jobs stored as RESTORING. -/
def World.restoringJobs (w : World) : Finset Uuid := (w.jobs.keys.filter (w.Restoring ·)).toFinset

/-- The jobs that live workers restore. -/
def restoredJobs (holders : List Holder) : Finset Uuid :=
  (holders.filterMap Holder.restoredJob).toFinset

/-- The jobs stored as RESTORING that no live worker restores. -/
def World.orphans (w : World) (holders : List Holder) : Finset Uuid :=
  w.restoringJobs \ restoredJobs holders

/-- The number of slots whose holder is not restoring. -/
def waiting (holders : List Holder) : ℕ := holders.countP fun h => h.restoredJob = none

/-! ### Counting -/

private theorem card_restoringJobs (w : World) :
    w.restoringJobs.card = w.jobs.keys.countP (w.Restoring ·) := by
  rw [World.restoringJobs, List.toFinset_card_of_nodup (w.jobs.keys_nodup.filter _),
    List.countP_eq_length_filter]

private theorem countRestoring_spec (ids : List Uuid) :
    Satisfies environment.machine
      (fun out w' => w' = w ∧ out = .ok (ids.countP (w.Restoring ·))) w (countRestoring ids) := by
  induction ids with
  | nil => exact satisfies_ret.mpr ⟨rfl, rfl⟩
  | cons id rest ih =>
    rw [countRestoring, satisfies_bind, satisfies_hgetall, then_ok, satisfies_bind]
    refine ih.mono ?_
    rintro _ w ⟨rfl, rfl⟩
    rw [then_ok]
    refine satisfies_ret.mpr ⟨rfl, congrArg Except.ok ?_⟩
    change (if w.Restoring id then 1 else 0) + _ = _
    simp only [List.countP_cons, decide_eq_true_eq, Nat.add_comm]

/-- **What a reconciliation does**: the counter becomes the number of RESTORING jobs. -/
theorem reconcileSlots_spec :
    Satisfies environment.machine
      (fun out w' => out = .ok w.restoringJobs.card ∧
        w' = { w with slots := w.restoringJobs.card }) w reconcileSlots := by
  rw [reconcileSlots, countRestoringJobs, satisfies_bind, satisfies_bind, satisfies_scanJobs,
    then_ok]
  refine (countRestoring_spec _).mono ?_
  rintro _ w ⟨rfl, rfl⟩
  rw [then_ok, ← card_restoringJobs]
  simp only [satisfies_bind, satisfies_getSlots, then_ok, satisfies_setSlots]
  exact satisfies_ret.mpr ⟨rfl, rfl⟩

private theorem countRestoring_only (ids : List Uuid) :
    (countRestoring ids).Only (· ≠ Op.park) := by
  induction ids with
  | nil => exact only_ret
  | cons id rest ih =>
    exact Only.bind (only_perform.mpr nofun) fun _ => Only.bind ih fun _ => only_ret

/-- A reconciliation comes to an end. -/
theorem reconcileSlots_only : reconcileSlots.Only (· ≠ Op.park) := by
  refine Only.bind (Only.bind (only_perform.mpr nofun) fun _ => countRestoring_only _) fun _ => ?_
  exact Only.bind (only_perform.mpr nofun) fun _ =>
    Only.bind (only_perform.mpr nofun) fun _ => only_ret

/-- A slot is held for a job that is being restored, or its holder is waiting. -/
private theorem length_holders (holders : List Holder)
    (h : (holders.filterMap Holder.restoredJob).Nodup) :
    (restoredJobs holders).card + waiting holders = holders.length := by
  rw [restoredJobs, List.toFinset_card_of_nodup h, waiting, List.length_filterMap_eq_countP,
    List.length_eq_countP_add_countP fun h : Holder => h.restoredJob.isSome]
  refine congrArg _ (List.countP_congr fun h _ => ?_)
  cases h <;> simp [Holder.restoredJob]

/-- Live workers restore jobs that are stored as RESTORING. -/
private theorem restoredJobs_subset {holders : List Holder} (h : LiveSlots w holders) :
    restoredJobs holders ⊆ w.restoringJobs := by
  intro id hid
  obtain ⟨holder, hmem, hjob⟩ := List.mem_filterMap.mp (List.mem_toFinset.mp hid)
  have hrestoring : w.Restoring id := by
    cases holder with
    | restoring i =>
      obtain rfl := Option.some.inj hjob
      exact h.restoring i hmem
    | _ => cases hjob
  have hkey : id ∈ w.jobs.keys := by
    by_contra hnot
    have hnone : w.job id = none := AList.lookup_eq_none.mpr hnot
    rw [World.Restoring, hnone] at hrestoring
    cases hrestoring
  exact List.mem_toFinset.mpr (List.mem_filter.mpr ⟨hkey, decide_eq_true hrestoring⟩)

/-! ### Exactness -/

/-- **When a reconciliation is exact.** From every state, whatever slots the live workers hold,
`reconcile_slots` comes to an end, and the counter is then the number of slots that they hold if
and only if as many jobs are stored as RESTORING that no live worker restores, as slots are held
by workers that wait for a job or have claimed one that is not RESTORING yet. -/
theorem reconcileSlots_exact_iff {holders : List Holder} (h : LiveSlots w holders) :
    (∃ out w', Ends environment reconcileSlots w out w') ∧
      ∀ out w', Ends environment reconcileSlots w out w' →
        (w'.slots = holders.length ↔ (w.orphans holders).card = waiting holders) := by
  refine ⟨exists_run reconcileSlots_only w, fun out w' hends => ?_⟩
  obtain ⟨-, rfl⟩ := satisfies_iff_ends.mp reconcileSlots_spec out w' hends
  have hcard := Finset.card_sdiff_add_card_eq_card (restoredJobs_subset h)
  have hlength := length_holders holders h.nodup
  rw [World.orphans]
  change ((w.restoringJobs.card : ℕ) : ℤ) = _ ↔ _
  omega

/-- A worker was killed while it restored a job: the job stays RESTORING, and no live worker
holds a slot. -/
def World.killedRestoring : World :=
  { jobs := (∅ : AList fun _ : Uuid => Job).insert 7 { state := some .RESTORING }, slots := 1 }

/-- The reconciliation of a restarted worker leaves the slot of the killed one taken. -/
theorem reconcileSlots_keeps_leak :
    LiveSlots .killedRestoring [] ∧
      ∃ out w', Ends environment reconcileSlots .killedRestoring out w' ∧ w'.slots ≠ 0 := by
  refine ⟨⟨List.nodup_nil, nofun, nofun⟩, ?_⟩
  have hrun : (reconcileSlots.run environment [] .killedRestoring).map
      (fun e => e.2.slots) = some 1 := by decide
  obtain ⟨out, w', hends, hslots⟩ := exists_ends_of_run hrun
  exact ⟨out, w', hends, by rw [hslots]; decide⟩

/-- Four jobs: 7 is being restored, 8 has been claimed, and the workers of 9 and 10 were killed. The
counter has lost track of the slots. -/
def World.mixedSlots : World :=
  { jobs := ((((∅ : AList fun _ : Uuid => Job).insert 7 { state := some .RESTORING }).insert 8
      { state := some .PENDING }).insert 9 { state := some .RESTORING }).insert 10
      { state := some .RESTORING }
    slots := 6 }

/-- The live workers restore 7, have claimed 8, and wait for a job. -/
private def mixedHolders : List Holder := [.restoring 7, .claimed 8, .idle]

private theorem mixedHolders_live : LiveSlots .mixedSlots mixedHolders := by
  refine ⟨by decide, fun id hid => ?_, fun id hid => ?_⟩
  · obtain rfl : id = 7 := by simpa [mixedHolders] using hid
    decide
  · obtain rfl : id = 8 := by simpa [mixedHolders] using hid
    decide

/-- Two jobs are left over and two slots are held without a restore: the reconciliation is exact. -/
theorem reconcileSlots_exact_mixed :
    ∃ out w', Ends environment reconcileSlots .mixedSlots out w' ∧ w'.slots = 3 := by
  obtain ⟨⟨out, w', hends⟩, hiff⟩ := reconcileSlots_exact_iff mixedHolders_live
  exact ⟨out, w', hends, (hiff out w' hends).mpr (by decide)⟩

end RestoreEngine
