import Mathlib.Data.List.Perm.Subperm
import RestoreEngine.Model.Hygiene

/-!
# What the purge removes

A purge looks at the first `maxScan` job hashes that SCAN lists, and removes the old ones among
them, with their logs. A hash that it may not remove takes the place of one that it might, so a
finished job is sure to go, in whatever order SCAN lists the hashes, if there are fewer than
`maxScan` that the purge keeps, and only then (`removedByPurges_iff`).
-/

namespace RestoreEngine.Hygiene

open Effects Program

variable {cfg : Config} {c c' : Instant} {left k : ℕ} {s s' : Store} {id : Uuid}
  {order removed : List Uuid} {t : Timed Job}

namespace Store

/-- The store without the hashes and the logs of some jobs. -/
def without (s : Store) (removed : List Uuid) : Store :=
  removed.foldl (fun s id => { s with jobs := s.jobs.erase id, logs := s.logs.erase id }) s

/-- The hash is one that a purge with that cutoff removes. -/
def Old (s : Store) (c : Instant) (id : Uuid) : Bool := (s.job id).any (IsOld c ·.value)

/-- The cutoff of a purge that starts now. -/
def cutoff (cfg : Config) (s : Store) : Instant := s.clock - jobTtlSec cfg * second

/-- The job hashes that a purge keeps. -/
def kept (cfg : Config) (s : Store) : List Uuid := s.ids.filter fun id => !s.Old (s.cutoff cfg) id

/-- Nothing is left of the job. -/
def Gone (s : Store) (id : Uuid) : Prop := s.job id = none ∧ s.log id = none

end Store

/-- `Purges cfg k s s'`: from `s` to `s'`, time has passed and `k` purges have run. -/
inductive Purges (cfg : Config) : ℕ → Store → Store → Prop
  | start (s : Store) : Purges cfg 0 s s
  | wait {k : ℕ} {s s' : Store} (h : Purges cfg k s s') (span : ℕ) :
      Purges cfg k s (s'.wait span)
  | call {k : ℕ} {s s' s'' : Store} {out : Except Exn ℕ} (h : Purges cfg k s s')
      (hcall : Ends environment (purgeExpiredScan cfg) s' out s'') : Purges cfg (k + 1) s s''

/-- The hash and the log of the job are removed by repeated purges. -/
def RemovedByPurges (cfg : Config) (s : Store) (id : Uuid) : Prop :=
  ∃ k, ∀ s', Purges cfg k s s' → s'.Gone id

/-- What was old is old later. -/
theorem IsOld.mono {data : Job} (h : IsOld c data = true) (hc : c ≤ c') : IsOld c' data = true := by
  rw [IsOld, Bool.and_eq_true] at *
  refine ⟨h.1, ?_⟩
  obtain ⟨at_, hat, hle⟩ := (Option.any_eq_true _ _).mp h.2
  rw [hat, Option.any_some]
  exact decide_eq_true ((of_decide_eq_true hle).trans hc)

/-! ### The store -/

namespace Store

theorem clock_without : (s.without removed).clock = s.clock := by
  rw [without]
  induction removed generalizing s with
  | nil => rfl
  | cons id' rest ih =>
    rw [List.foldl_cons, ih]

theorem job_without : (s.without removed).job id = if id ∈ removed then none else s.job id := by
  rw [without]
  induction removed generalizing s with
  | nil => rfl
  | cons id' rest ih =>
    rw [List.foldl_cons, ih]
    by_cases hid : id = id'
    · subst hid
      simp [job]
    · simp [job, hid, AList.lookup_erase_ne hid]

theorem log_without : (s.without removed).log id = if id ∈ removed then none else s.log id := by
  rw [without]
  induction removed generalizing s with
  | nil => rfl
  | cons id' rest ih =>
    rw [List.foldl_cons, ih]
    by_cases hid : id = id'
    · subst hid
      simp [log]
    · simp [log, hid, AList.lookup_erase_ne hid]

theorem mem_ids : id ∈ s.ids ↔ (s.job id).isSome := by
  rw [ids, List.mem_filter, and_iff_right_iff_imp]
  intro h
  obtain ⟨t, ht⟩ := Option.isSome_iff_exists.mp h
  rw [job, Option.filter_eq_some_iff] at ht
  exact AList.mem_keys.mp (AList.lookup_isSome.mp (Option.isSome_of_eq_some ht.1))

theorem nodup_ids : s.ids.Nodup := s.jobs.keys_nodup.filter _

/-- A value stays there until its expiry. -/
theorem lasts_wait {α : Type} {t : Timed α} {span : ℕ} (h : t.lasts (s.wait span).clock = true) :
    t.lasts s.clock = true := by
  rw [Timed.lasts, wait] at *
  cases hexpiry : t.expiry with
  | none => rfl
  | some e =>
    rw [hexpiry, Option.all_some, decide_eq_true_eq] at h
    rw [Option.all_some, decide_eq_true_eq]
    have hspan : s.clock ≤ s.clock + span := Int.le_add_of_nonneg_right (Int.natCast_nonneg span)
    exact lt_of_le_of_lt hspan h

/-- What is there later is there now. -/
theorem job_of_wait {span : ℕ} (h : (s.wait span).job id = some t) : s.job id = some t := by
  rw [job, Option.filter_eq_some_iff] at *
  exact ⟨h.1, lasts_wait h.2⟩

theorem log_of_wait {span : ℕ} {t : Timed ℕ} (h : (s.wait span).log id = some t) :
    s.log id = some t := by
  rw [log, Option.filter_eq_some_iff] at *
  exact ⟨h.1, lasts_wait h.2⟩

/-- A hash without expiry stays there. -/
theorem job_wait {span : ℕ} (h : s.job id = some t) (hexpiry : t.expiry = none) :
    (s.wait span).job id = some t := by
  rw [job, Option.filter_eq_some_iff] at *
  refine ⟨h.1, ?_⟩
  rw [Timed.lasts, hexpiry]
  rfl

theorem old_without (h : id ∉ removed) : (s.without removed).Old c id = s.Old c id := by
  rw [Old, Old, job_without, if_neg h]

theorem cutoff_wait {span : ℕ} : s.cutoff cfg ≤ (s.wait span).cutoff cfg :=
  Int.sub_le_sub_right (Int.le_add_of_nonneg_right (Int.natCast_nonneg span)) _

/-- What a purge keeps later, it keeps now. -/
theorem kept_wait {span : ℕ} : (s.wait span).kept cfg ⊆ s.kept cfg := by
  intro id hid
  rw [kept, List.mem_filter, mem_ids, Bool.not_eq_true'] at *
  obtain ⟨hsome, hyoung⟩ := hid
  obtain ⟨t, ht⟩ := Option.isSome_iff_exists.mp hsome
  have hnow := job_of_wait ht
  refine ⟨Option.isSome_of_eq_some hnow, ?_⟩
  rw [Old, ht, Option.any_some] at hyoung
  rw [Old, hnow, Option.any_some]
  refine Bool.eq_false_iff.mpr fun hold => Bool.eq_false_iff.mp hyoung (IsOld.mono hold cutoff_wait)

theorem kept_without : (s.without removed).kept cfg ⊆ s.kept cfg := by
  intro id hid
  have hcutoff : (s.without removed).cutoff cfg = s.cutoff cfg := by
    rw [cutoff, cutoff, clock_without]
  rw [kept, List.mem_filter, mem_ids, hcutoff] at hid
  obtain ⟨hsome, hyoung⟩ := hid
  have hid : id ∉ removed := by
    intro hmem
    rw [job_without, if_pos hmem] at hsome
    cases hsome
  rw [job_without, if_neg hid] at hsome
  rw [old_without hid] at hyoung
  rw [kept, List.mem_filter, mem_ids]
  exact ⟨hsome, hyoung⟩

/-- As many hashes as there were, or fewer. -/
theorem ids_wait {span : ℕ} : (s.wait span).ids ⊆ s.ids := by
  intro id hid
  rw [mem_ids] at *
  obtain ⟨t, ht⟩ := Option.isSome_iff_exists.mp hid
  exact Option.isSome_of_eq_some (job_of_wait ht)

/-- A hash that is removed is one less. -/
theorem length_ids_without (hid : id ∈ s.ids) (hremoved : id ∈ removed) :
    (s.without removed).ids.length + 1 ≤ s.ids.length := by
  have hnot : id ∉ (s.without removed).ids := by
    rw [mem_ids, job_without, if_pos hremoved]
    exact Bool.false_ne_true
  have hsub : id :: (s.without removed).ids ⊆ s.ids := by
    refine List.cons_subset.mpr ⟨hid, fun id' hid' => ?_⟩
    rw [mem_ids, job_without] at hid'
    split at hid'
    · cases hid'
    · exact mem_ids.mpr hid'
  have hnodup : (id :: (s.without removed).ids).Nodup := List.nodup_cons.mpr ⟨hnot, nodup_ids⟩
  exact (List.subperm_of_subset hnodup hsub).length_le

end Store

/-! ### One purge -/

private theorem satisfies_issue (o : Op) {r : o.Res} {Q : Except Exn o.Res → Store → Prop}
    (h : ∀ order, environment o order s = some (r, s')) :
    (issue o).Satisfies environment.machine Q s ↔ Q (.ok r) s' := satisfies_of_determined h

private theorem satisfies_hgetall {Q : Except Exn (Option Job) → Store → Prop} :
    (issue (.hgetall id)).Satisfies environment.machine Q s ↔
      Q (.ok ((s.job id).map (·.value))) s := satisfies_issue (.hgetall id) fun _ => rfl

private theorem satisfies_delete {Q : Except Exn Unit → Store → Prop} :
    (issue (.delete id)).Satisfies environment.machine Q s ↔
      Q (.ok ()) { s with jobs := s.jobs.erase id } := satisfies_issue (.delete id) fun _ => rfl

private theorem satisfies_deleteLog {Q : Except Exn Unit → Store → Prop} :
    (issue (.deleteLog id)).Satisfies environment.machine Q s ↔
      Q (.ok ()) { s with logs := s.logs.erase id } := satisfies_issue (.deleteLog id) fun _ => rfl

private theorem satisfies_utcNow {Q : Except Exn Instant → Store → Prop} :
    (issue .utcNow).Satisfies environment.machine Q s ↔ Q (.ok s.clock) s :=
  satisfies_issue .utcNow fun _ => rfl

private theorem satisfies_scan {Q : Except Exn (List Uuid) → Store → Prop} :
    (issue .scan).Satisfies environment.machine Q s ↔
      ∀ order, order.Perm s.ids → Q (.ok order) s := by
  refine (satisfies_machine_perform (S := commands) (o := Op.scan)).trans ⟨?_, ?_⟩
  · intro h order hperm
    exact h order order s (if_pos hperm)
  · intro h order r s' hr
    rw [environment] at hr
    split at hr
    · next hperm =>
      obtain ⟨rfl, rfl⟩ := Prod.mk.inj (Option.some.inj hr)
      exact h _ hperm
    · cases hr

/-- The loop of a purge removes the old hashes among those that it may look at. -/
private theorem purgeKeys_spec (order : List Uuid) (hnodup : order.Nodup) (left : ℕ) (s : Store) :
    (purgeKeys c left order).Satisfies environment.machine
      (fun _ s' => s' = s.without ((order.take left).filter (s.Old c))) s := by
  induction order generalizing left s with
  | nil =>
    rw [purgeKeys, List.take_nil]
    exact satisfies_ret.mpr rfl
  | cons id rest ih =>
    obtain ⟨hnot, hrest⟩ := List.nodup_cons.mp hnodup
    cases left with
    | zero => exact satisfies_ret.mpr rfl
    | succ left =>
      rw [purgeKeys, satisfies_bind, satisfies_hgetall, then_ok, List.take_succ_cons]
      simp only []
      have hold : IsOld c (((s.job id).map (·.value)).getD {}) = s.Old c id := by
        rw [Store.Old]
        cases s.job id with
        | none => rfl
        | some t => rfl
      rw [hold]
      refine Satisfies.ite (fun hold => ?_) fun hyoung => ?_
      · rw [satisfies_bind, satisfies_delete, then_ok, satisfies_bind, satisfies_deleteLog,
          then_ok, satisfies_bind, List.filter_cons_of_pos hold]
        refine (ih hrest left (s.without [id])).mono fun out s' hs' => ?_
        -- the hashes that are left are judged as before
        have hsame : (rest.take left).filter ((s.without [id]).Old c) =
            (rest.take left).filter (s.Old c) := by
          refine List.filter_congr fun id' hid' => Store.old_without ?_
          rintro hmem
          obtain rfl := List.mem_singleton.mp hmem
          exact hnot (List.mem_of_mem_take hid')
        rw [hsame] at hs'
        cases out with
        | ok n => exact then_ok.mpr (satisfies_ret.mpr hs')
        | error e => exact then_error.mpr hs'
      · rw [List.filter_cons_of_neg hyoung]
        exact ih hrest left s

/-- **A purge** removes the old hashes among the first that SCAN lists, and their logs. -/
theorem purgeExpiredScan_spec (httl : 0 < cfg.jobTtlSec) :
    (purgeExpiredScan cfg).Satisfies environment.machine (fun _ s' => ∃ order : List Uuid,
      order.Perm s.ids ∧ s' = s.without ((order.take maxScan).filter (s.Old (s.cutoff cfg)))) s := by
  have hlt : ¬jobTtlSec cfg ≤ 0 := by
    rw [jobTtlSec]
    omega
  rw [purgeExpiredScan, if_neg hlt, satisfies_bind, satisfies_utcNow, then_ok, satisfies_bind,
    satisfies_scan]
  intro order hperm
  have hnodup : order.Nodup := hperm.nodup_iff.mpr Store.nodup_ids
  rw [then_ok]
  exact (purgeKeys_spec order hnodup maxScan s).mono fun _ s' hs' => ⟨order, hperm, hs'⟩

/-- A purge runs, in whatever order the hashes are listed. -/
private theorem purgeExpiredScan_ends (httl : 0 < cfg.jobTtlSec) (hperm : order.Perm s.ids) :
    ∃ out, Ends environment (purgeExpiredScan cfg) s out
      (s.without ((order.take maxScan).filter (s.Old (s.cutoff cfg)))) := by
  have hlt : ¬jobTtlSec cfg ≤ 0 := by
    rw [jobTtlSec]
    omega
  have honly : ∀ left, (purgeKeys (s.cutoff cfg) left order).Only fun o : Op =>
      ∃ id, o = .hgetall id ∨ o = .delete id ∨ o = .deleteLog id := by
    clear hperm
    induction order with
    | nil =>
      intro left
      rw [purgeKeys]
      exact only_ret
    | cons id rest ih =>
      intro left
      cases left with
      | zero => exact only_ret
      | succ left =>
        refine .bind (only_perform.mpr ⟨id, .inl rfl⟩) fun data => .ite (fun _ => ?_)
          fun _ => ih left
        refine .bind (only_perform.mpr ⟨id, .inr (.inl rfl)⟩) fun _ => ?_
        refine .bind (only_perform.mpr ⟨id, .inr (.inr rfl)⟩) fun _ => ?_
        exact .bind (ih left) fun _ => only_ret
  obtain ⟨out, s', hkeys⟩ : ∃ out s',
      Ends environment (purgeKeys (s.cutoff cfg) maxScan order) s out s' := by
    refine (honly maxScan).exists_ends ?_ s
    rintro o s ⟨id, rfl | rfl | rfl⟩
    · exact ⟨[], _, _, rfl⟩
    · exact ⟨[], _, _, rfl⟩
    · exact ⟨[], _, _, rfl⟩
  have hnodup : order.Nodup := hperm.nodup_iff.mpr Store.nodup_ids
  obtain rfl := hkeys.post (purgeKeys_spec order hnodup maxScan s)
  refine ⟨out, ?_⟩
  rw [purgeExpiredScan, if_neg hlt]
  refine .bind (.perform (c := []) rfl) (.bind (.perform (c := order) ?_) hkeys)
  exact if_pos hperm

/-! ### Repeated purges -/

/-- What is gone stays gone. -/
private theorem gone_wait {span : ℕ} (h : s.Gone id) : (s.wait span).Gone id := by
  constructor
  · refine Option.eq_none_iff_forall_ne_some.mpr fun t ht => ?_
    have hjob := h.1
    rw [Store.job_of_wait ht] at hjob
    cases hjob
  · refine Option.eq_none_iff_forall_ne_some.mpr fun t ht => ?_
    have hlog := h.2
    rw [Store.log_of_wait ht] at hlog
    cases hlog

private theorem gone_without (h : s.Gone id ∨ id ∈ removed) : (s.without removed).Gone id := by
  rw [Store.Gone, Store.job_without, Store.log_without]
  by_cases hid : id ∈ removed
  · rw [if_pos hid, if_pos hid]
    exact ⟨rfl, rfl⟩
  · rw [if_neg hid, if_neg hid]
    exact h.resolve_right hid

/-- A finished job that is old enough, and that never expires. -/
structure Lingers (cfg : Config) (s : Store) (id : Uuid) (t : Timed Job) : Prop where
  job : s.job id = some t
  expiry : t.expiry = none
  old : IsOld (s.cutoff cfg) t.value = true

namespace Lingers

private theorem wait {span : ℕ} (h : Lingers cfg s id t) : Lingers cfg (s.wait span) id t :=
  ⟨Store.job_wait h.job h.expiry, h.expiry, IsOld.mono h.old Store.cutoff_wait⟩

private theorem without (h : Lingers cfg s id t) (hid : id ∉ removed) :
    Lingers cfg (s.without removed) id t := by
  refine ⟨?_, h.expiry, ?_⟩
  · rw [Store.job_without, if_neg hid]
    exact h.job
  · rw [Store.cutoff, Store.clock_without]
    exact h.old

/-- A purge that may look at more hashes than it must keep removes the job, or another one. -/
private theorem purge (h : Lingers cfg s id t) (hkept : (s.kept cfg).length < maxScan)
    (hperm : order.Perm s.ids) :
    ∃ id' ∈ s.ids, id' ∈ (order.take maxScan).filter (s.Old (s.cutoff cfg)) := by
  have hids : id ∈ s.ids := Store.mem_ids.mpr (Option.isSome_of_eq_some h.job)
  have hmem : id ∈ order := hperm.mem_iff.mpr hids
  by_cases hfirst : id ∈ order.take maxScan
  · refine ⟨id, hids, List.mem_filter.mpr ⟨hfirst, ?_⟩⟩
    rw [Store.Old, h.job, Option.any_some]
    exact h.old
  · -- the purge looks at as many hashes as it may, and cannot keep all of them
    have hlong : maxScan < order.length := by
      by_contra hshort
      rw [List.take_of_length_le (Nat.le_of_not_lt hshort)] at hfirst
      exact hfirst hmem
    by_contra hnone
    rw [not_exists] at hnone
    have hsub : order.take maxScan ⊆ s.kept cfg := by
      intro id' hid'
      have hids : id' ∈ s.ids := hperm.mem_iff.mp (List.mem_of_mem_take hid')
      rw [Store.kept, List.mem_filter]
      refine ⟨hids, ?_⟩
      rw [Bool.not_eq_true', Bool.eq_false_iff]
      exact fun hold => hnone id' ⟨hids, List.mem_filter.mpr ⟨hid', hold⟩⟩
    have hnodup : (order.take maxScan).Nodup :=
      (hperm.nodup_iff.mpr Store.nodup_ids).sublist (List.take_sublist _ _)
    have hle := (List.subperm_of_subset hnodup hsub).length_le
    rw [List.length_take] at hle
    omega

/-- After `k` purges the job is gone, or there are `k` hashes less. -/
private theorem purges (h : Lingers cfg s id t) (httl : 0 < cfg.jobTtlSec)
    (hkept : (s.kept cfg).length < maxScan) (hrun : Purges cfg k s s') :
    s'.Gone id ∨
      Lingers cfg s' id t ∧ s'.kept cfg ⊆ s.kept cfg ∧ s'.ids.length + k ≤ s.ids.length := by
  induction hrun with
  | start s => exact .inr ⟨h, fun _ hid => hid, le_rfl⟩
  | @wait k s s' _ span ih =>
    rcases ih h hkept with hgone | ⟨h', hsub, hlength⟩
    · exact .inl (gone_wait hgone)
    · have hids : (s'.wait span).ids.length ≤ s'.ids.length :=
        (List.subperm_of_subset Store.nodup_ids Store.ids_wait).length_le
      exact .inr ⟨h'.wait, fun _ hid => hsub (Store.kept_wait hid), by omega⟩
  | @call k s s' s'' out _ hcall ih =>
    obtain ⟨order, hperm, rfl⟩ := hcall.post (purgeExpiredScan_spec httl)
    rcases ih h hkept with hgone | ⟨h', hsub, hlength⟩
    · exact .inl (gone_without (.inl hgone))
    · have hkept' : (s'.kept cfg).length < maxScan :=
        (List.subperm_of_subset (Store.nodup_ids.filter _) hsub).length_le.trans_lt hkept
      obtain ⟨id', hids, hremoved⟩ := h'.purge hkept' hperm
      by_cases hid : id ∈ (order.take maxScan).filter (s'.Old (s'.cutoff cfg))
      · exact .inl (gone_without (.inr hid))
      · refine .inr ⟨h'.without hid, fun _ hmem => hsub (Store.kept_without hmem), ?_⟩
        have hless := Store.length_ids_without hids hremoved
        omega

/-- **The job is removed by repeated purges**, however SCAN lists the hashes, if and only if there
are fewer hashes that a purge keeps than a purge may look at. -/
theorem removedByPurges_iff (h : Lingers cfg s id t) (httl : 0 < cfg.jobTtlSec) :
    RemovedByPurges cfg s id ↔ (s.kept cfg).length < maxScan := by
  constructor
  · rintro ⟨k, hall⟩
    by_contra hmany
    -- the hashes that are kept may come first every time
    have hperm : (s.kept cfg ++ s.ids.filter fun id => !!s.Old (s.cutoff cfg) id).Perm s.ids :=
      List.filter_append_perm _ _
    have hnone : ((s.kept cfg ++ s.ids.filter fun id => !!s.Old (s.cutoff cfg) id).take
        maxScan).filter (s.Old (s.cutoff cfg)) = [] := by
      rw [List.take_append_of_le_length (Nat.le_of_not_lt hmany), List.filter_eq_nil_iff]
      intro id' hid'
      have hyoung := (List.mem_filter.mp (List.mem_of_mem_take hid')).2
      rw [Bool.not_eq_true'] at hyoung
      rw [hyoung]
      exact Bool.false_ne_true
    obtain ⟨out, hends⟩ := purgeExpiredScan_ends httl hperm
    rw [hnone] at hends
    have hruns : ∀ k, Purges cfg k s s := by
      intro k
      induction k with
      | zero => exact .start s
      | succ k ih => exact .call ih hends
    have hgone := (hall s (hruns k)).1
    rw [h.job] at hgone
    cases hgone
  · intro hkept
    refine ⟨s.ids.length, fun s' hrun => (h.purges httl hkept hrun).resolve_right ?_⟩
    rintro ⟨h', -, hlength⟩
    have hids : id ∈ s'.ids := Store.mem_ids.mpr (Option.isSome_of_eq_some h'.job)
    have hpos := List.length_pos_of_mem hids
    omega

end Lingers

end RestoreEngine.Hygiene
