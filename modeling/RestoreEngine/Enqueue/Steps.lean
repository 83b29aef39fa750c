import RestoreEngine.Model.Footprints
import RestoreEngine.Model.Listing
import RestoreEngine.Model.Allocation

/-!
# The steps of an enqueueing

What the steps of `enqueueRestores` come to, one by one: the checks of the request, the
allocation of VMIDs, the placement, and the writing of the jobs. The placement cannot fail once
the checks have passed, and writing the jobs raises no runtime error.
-/

namespace RestoreEngine

open Effects Prog Program

variable {w w' : World} {req : EnqueueRequest} {px : Client}

namespace EnqueueRequest

/-! ### The checks -/

/-- The request is refused before any contact with the cluster: its mode is not one, it names no
node, or a node without a storage. -/
def Refused (req : EnqueueRequest) : Prop :=
  req.mode ∉ ["normal", "dr"] ∨ req.candidates = [] ∨
    ∃ cand ∈ req.candidates, ∃ e, req.storageFor cand = .error e

private theorem forM_storages {f : String → Except Exn String}
    (hf : ∀ cand e, f cand = .error e → ∃ text, e = .runtimeError text) (cands : List String) :
    ((cands.forM fun cand => (f cand).map fun _ => ()) = .ok () ∧
        ∀ cand ∈ cands, ∃ s, f cand = .ok s) ∨
      ((∃ text, (cands.forM fun cand => (f cand).map fun _ => ()) =
          .error (.runtimeError text)) ∧
        ∃ cand ∈ cands, ∃ e, f cand = .error e) := by
  induction cands with
  | nil => exact .inl ⟨rfl, nofun⟩
  | cons cand rest ih =>
    have hcons : ((cand :: rest).forM fun cand => (f cand).map fun _ => ()) =
        (((f cand).map fun _ => ()) >>= fun _ =>
          rest.forM fun cand => (f cand).map fun _ => ()) := rfl
    rw [hcons]
    cases hcand : f cand with
    | error e =>
      obtain ⟨text, rfl⟩ := hf cand e hcand
      exact .inr ⟨⟨text, rfl⟩, cand, List.mem_cons_self, _, hcand⟩
    | ok s =>
      rcases ih with ⟨hok, hall⟩ | ⟨⟨text, herr⟩, bad, hbad, e, he⟩
      · refine .inl ⟨hok, fun c hc => ?_⟩
        rcases List.mem_cons.mp hc with rfl | hc
        · exact ⟨s, hcand⟩
        · exact hall c hc
      · exact .inr ⟨⟨text, herr⟩, bad, List.mem_cons_of_mem _ hbad, e, he⟩

private theorem storageFor_error {cand : String} {e : Exn} (h : req.storageFor cand = .error e) :
    ∃ text, e = .runtimeError text := by
  simp only [storageFor, resolveStorageForNode] at h
  split_ifs at h
  exact ⟨_, (Except.error.inj h).symm⟩

/-- The checks pass, or they raise a runtime error. -/
theorem check_spec (req : EnqueueRequest) :
    (req.check = .ok () ∧ ¬ req.Refused) ∨
      ∃ text, req.check = .error (.runtimeError text) ∧ req.Refused := by
  rw [check]
  by_cases hmode : req.mode ∉ ["normal", "dr"]
  · exact .inr ⟨_, if_pos hmode, .inl hmode⟩
  by_cases hnone : req.candidates = []
  · exact .inr ⟨_, by rw [if_neg hmode, if_pos hnone], .inr (.inl hnone)⟩
  rw [if_neg hmode, if_neg hnone]
  have hruntime : ∀ cand e, req.storageFor cand = .error e → ∃ text, e = .runtimeError text :=
    fun _ _ => storageFor_error
  rcases forM_storages hruntime req.candidates with ⟨hok, hall⟩ | ⟨⟨text, herr⟩, hbad⟩
  · refine .inl ⟨hok, ?_⟩
    rintro (h | h | ⟨cand, hcand, e, he⟩)
    · exact hmode h
    · exact hnone h
    · obtain ⟨s, hs⟩ := hall cand hcand
      rw [hs] at he
      cases he
  · exact .inr ⟨text, herr, .inr (.inr hbad)⟩

/-! ### The placement -/

/-- A candidate is stripped and not empty. -/
theorem candidates_stripped {cand : String} (h : cand ∈ req.candidates) :
    Text.strip cand = cand ∧ cand ≠ "" := by
  have hmem : ∀ names : List String, cand ∈ (names.map Text.strip).filter (· ≠ "") →
      Text.strip cand = cand ∧ cand ≠ "" := by
    intro names hc
    obtain ⟨hmap, hne⟩ := List.mem_filter.mp hc
    obtain ⟨s, -, rfl⟩ := List.mem_map.mp hmap
    exact ⟨Text.strip_strip s, of_decide_eq_true hne⟩
  rw [candidates] at h
  split at h
  · exact hmem [req.node] h
  · next nodes hnodes => exact hmem req.nodes h

/-- The candidates are stripped and filtered already. -/
theorem candidates_same (req : EnqueueRequest) :
    (req.candidates.map Text.strip).filter (· ≠ "") = req.candidates := by
  have hmap : req.candidates.map Text.strip = req.candidates :=
    (List.map_congr_left fun c hc => (candidates_stripped hc).1).trans (List.map_id _)
  rw [hmap]
  exact List.filter_eq_self.mpr fun c hc => decide_eq_true (candidates_stripped hc).2

theorem leastLoaded_mem {counts : String → ℕ} {nodes : List String} {pick : String}
    (h : leastLoaded counts nodes = some pick) : pick ∈ nodes := by
  induction nodes generalizing pick with
  | nil => cases h
  | cons n rest ih =>
    rw [leastLoaded] at h
    split at h
    · exact Option.some.inj h ▸ List.mem_cons_self
    · next m hm =>
      split_ifs at h
      · exact Option.some.inj h ▸ List.mem_cons_of_mem _ (ih hm)
      · exact Option.some.inj h ▸ List.mem_cons_self

theorem leastLoaded_isSome (counts : String → ℕ) {nodes : List String}
    (h : nodes ≠ []) : ∃ pick, leastLoaded counts nodes = some pick := by
  cases nodes with
  | nil => exact absurd rfl h
  | cons n rest =>
    rw [leastLoaded]
    split
    · exact ⟨_, rfl⟩
    · split_ifs <;> exact ⟨_, rfl⟩

theorem assignNodes_spec {nodes : List String} (counts : String → ℕ) (left : ℕ)
    (h : nodes ≠ []) : (assignNodes nodes counts left).length = left ∧
      ∀ n ∈ assignNodes nodes counts left, n ∈ nodes := by
  induction left generalizing counts with
  | zero => exact ⟨rfl, nofun⟩
  | succ left ih =>
    obtain ⟨pick, hpick⟩ := leastLoaded_isSome counts h
    rw [assignNodes, hpick]
    obtain ⟨hlen, hall⟩ := ih fun n => if n = pick then counts n + 1 else counts n
    refine ⟨congrArg Nat.succ hlen, fun n hn => ?_⟩
    rcases List.mem_cons.mp hn with rfl | hn
    · exact leastLoaded_mem hpick
    · exact hall n hn

/-- A request with candidates whose storages are found is placed. -/
theorem place_ok (counts : String → ℕ) (hsome : req.candidates ≠ [])
    (hstorages : ∀ cand ∈ req.candidates, ∃ s, req.storageFor cand = .ok s) :
    ∃ nodes storages, req.place counts = .ok (nodes, storages) ∧
      nodes.length = req.rows.length ∧ storages.length = req.rows.length := by
  have hdedup : req.candidates.dedup ≠ [] := by
    rwa [ne_eq, List.dedup_eq_nil]
  obtain ⟨hlen, hall⟩ := assignNodes_spec counts req.rows.length hdedup
  have hfound : ∀ n ∈ assignNodes req.candidates.dedup counts req.rows.length,
      ∃ s, req.storageFor n = .ok s ∧ True := fun n hn =>
    (hstorages n (List.mem_dedup.mp (hall n hn))).imp fun s hs => ⟨hs, trivial⟩
  obtain ⟨storages, hstor, hall₂⟩ := exists_mapM_forall₂_iff.mpr hfound
  refine ⟨_, storages, ?_, hlen, hall₂.length_eq.symm.trans hlen⟩
  simp only [place, assignNodesLeastLoaded, req.candidates_same, if_neg hsome]
  exact congrArg (Except.map fun s => (_, s)) hstor

/-- **The placement** of a request that is not refused names a node and a storage for each row. -/
theorem place_spec (counts : String → ℕ) (h : ¬ req.Refused) :
    ∃ nodes storages, req.place counts = .ok (nodes, storages) ∧
      nodes.length = req.rows.length ∧ storages.length = req.rows.length := by
  simp only [Refused, not_or, not_not, not_exists, not_and] at h
  obtain ⟨-, hsome, hstorages⟩ := h
  refine place_ok counts hsome fun cand hcand => ?_
  cases hs : req.storageFor cand with
  | ok s => exact ⟨s, rfl⟩
  | error e => exact absurd hs (hstorages cand hcand e)

/-! ### The allocation -/

/-- The target VMIDs that rows can get in DR mode: their own, distinct, and free unless
`overwrite` is set. -/
structure OwnVmids (inUse : Finset ℤ) (overwrite : Bool) (rows : List Row) (vmids : List ℤ) :
    Prop where
  rows_eq : rows.map (·.vmid) = vmids.map some
  nodup : vmids.Nodup
  free : overwrite = false → ∀ v ∈ vmids, v ∉ inUse

private theorem sourceVmids_cons {inUse : Finset ℤ} {overwrite : Bool} {seen : List ℤ} {row : Row}
    {rest : List Row} {v : ℤ} (hv : row.vmid = some v) (hseen : v ∉ seen)
    (hfree : overwrite = false → v ∉ inUse) :
    sourceVmids inUse overwrite seen (row :: rest) =
      (sourceVmids inUse overwrite (v :: seen) rest).map (v :: ·) := by
  rw [sourceVmids, hv]
  refine (if_neg hseen).trans ((if_neg ?_).trans ?_)
  · rintro ⟨hin, hover⟩
    exact hfree (by simpa using hover) hin
  · cases sourceVmids inUse overwrite (v :: seen) rest <;> rfl

private theorem sourceVmids_ok {inUse : Finset ℤ} {overwrite : Bool} {seen : List ℤ}
    {rows : List Row} {vmids : List ℤ} (h : OwnVmids inUse overwrite rows vmids)
    (hfresh : ∀ v ∈ vmids, v ∉ seen) : sourceVmids inUse overwrite seen rows = .ok vmids := by
  obtain ⟨hrows, hnodup, hfree⟩ := h
  induction rows generalizing seen vmids with
  | nil =>
    obtain rfl : vmids = [] := List.map_eq_nil_iff.mp hrows.symm
    rfl
  | cons row rest ih =>
    cases vmids with
    | nil => cases hrows
    | cons v us =>
      obtain ⟨hv, hus⟩ := List.cons.inj hrows
      obtain ⟨hnotMem, hnodup⟩ := List.nodup_cons.mp hnodup
      have hrest : sourceVmids inUse overwrite (v :: seen) rest = .ok us := by
        refine ih (fun u hu hmem => ?_) hus hnodup fun hover u hu =>
          hfree hover u (List.mem_cons_of_mem _ hu)
        rcases List.mem_cons.mp hmem with rfl | hmem
        · exact hnotMem hu
        · exact hfresh u (List.mem_cons_of_mem _ hu) hmem
      rw [sourceVmids_cons hv (hfresh v List.mem_cons_self) fun hover => hfree hover v
        List.mem_cons_self, hrest]
      rfl

private theorem sourceVmids_spec (inUse : Finset ℤ) (overwrite : Bool) (seen : List ℤ)
    (rows : List Row) :
    (∃ vmids, sourceVmids inUse overwrite seen rows = .ok vmids ∧
        OwnVmids inUse overwrite rows vmids ∧ ∀ v ∈ vmids, v ∉ seen) ∨
      ∃ text, sourceVmids inUse overwrite seen rows = .error (.runtimeError text) := by
  induction rows generalizing seen with
  | nil => exact .inl ⟨[], rfl, ⟨rfl, List.nodup_nil, fun _ => nofun⟩, nofun⟩
  | cons row rest ih =>
    cases hv : row.vmid with
    | none => exact .inr ⟨_, by rw [sourceVmids, hv]⟩
    | some v =>
      by_cases hseen : v ∈ seen
      · exact .inr ⟨_, by rw [sourceVmids, hv]; exact if_pos hseen⟩
      by_cases hused : v ∈ inUse ∧ !overwrite
      · exact .inr ⟨_, by rw [sourceVmids, hv]; exact (if_neg hseen).trans (if_pos hused)⟩
      have hstep : sourceVmids inUse overwrite seen (row :: rest) =
          (sourceVmids inUse overwrite (v :: seen) rest).map (v :: ·) :=
        sourceVmids_cons hv hseen fun hover hin => hused ⟨hin, by simpa using hover⟩
      rcases ih (v :: seen) with ⟨vmids, hok, ⟨hrows, hnodup, hfree⟩, hfresh⟩ | ⟨text, herr⟩
      · have hnotMem : v ∉ vmids := fun hmem => hfresh v hmem List.mem_cons_self
        refine .inl ⟨v :: vmids, by rw [hstep, hok]; rfl, ⟨by rw [List.map_cons, hv, hrows]; rfl,
          List.nodup_cons.mpr ⟨hnotMem, hnodup⟩, fun hover u hu => ?_⟩, fun u hu => ?_⟩
        · rcases List.mem_cons.mp hu with rfl | hu
          · exact fun hin => hused ⟨hin, by simpa using hover⟩
          · exact hfree hover u hu
        · rcases List.mem_cons.mp hu with rfl | hu
          · exact hseen
          · exact fun hs => hfresh u hu (List.mem_cons_of_mem _ hs)
      · exact .inr ⟨text, by rw [hstep, herr]; rfl⟩

/-- **The allocation in DR mode** gives the rows their own VMIDs, or raises a runtime error if
they have none to get. -/
theorem allocate_dr (inUse : Finset ℤ) (hdr : req.mode = "dr") :
    (∃ vmids, req.allocate inUse = .ok vmids ∧ OwnVmids inUse req.overwrite req.rows vmids) ∨
      ((∃ text, req.allocate inUse = .error (.runtimeError text)) ∧
        ∀ vmids, ¬ OwnVmids inUse req.overwrite req.rows vmids) := by
  rw [allocate, if_pos hdr]
  rcases sourceVmids_spec inUse req.overwrite [] req.rows with ⟨vmids, hok, hown, -⟩ | ⟨text, herr⟩
  · exact .inl ⟨vmids, hok, hown⟩
  · refine .inr ⟨⟨text, herr⟩, fun vmids hown => ?_⟩
    rw [sourceVmids_ok hown fun _ _ => List.not_mem_nil] at herr
    cases herr

/-- In normal mode the VMIDs are those of an allocation. -/
theorem allocate_normal {inUse : Finset ℤ} {vmids : List ℤ} (hmode : req.mode ≠ "dr") :
    req.allocate inUse = .ok vmids ↔ ∃ next,
      allocateSequentialFreeVmids inUse req.vmidStart req.rows.length = .ok (vmids, next) := by
  rw [allocate, if_neg hmode]
  cases allocateSequentialFreeVmids inUse req.vmidStart req.rows.length with
  | error exc => simp [Except.map]
  | ok found =>
    obtain ⟨vmids', next⟩ := found
    simp [Except.map]

/-- Where nothing is in use, normal mode finds a VMID for each row. -/
theorem allocate_normal_empty (hmode : req.mode ≠ "dr") :
    ∃ vmids, req.allocate ∅ = .ok vmids ∧ vmids.length = req.rows.length := by
  have hroom : HasRoom ∅ req.vmidStart req.rows.length := hasRoom_empty
  obtain ⟨vmids, next, hok⟩ := allocate_ok_iff.mpr hroom
  exact ⟨vmids, (allocate_normal hmode).mpr ⟨next, hok⟩, (allocated_of_ok hok).length⟩

/-- An allocation has a VMID for each row. -/
theorem allocate_length {inUse : Finset ℤ} {vmids : List ℤ} (h : req.allocate inUse = .ok vmids) :
    vmids.length = req.rows.length := by
  by_cases hdr : req.mode = "dr"
  · rcases allocate_dr inUse hdr with ⟨vmids', hok, hown⟩ | ⟨⟨text, herr⟩, -⟩
    · obtain rfl := Except.ok.inj (h.symm.trans hok)
      simpa using (congrArg List.length hown.rows_eq).symm
    · rw [herr] at h
      cases h
  · obtain ⟨next, hok⟩ := (allocate_normal hdr).mp h
    exact (allocated_of_ok hok).length

end EnqueueRequest

/-! ### The programs -/

private theorem countActive_spec (counts : String → ℕ) (ids : List Uuid) :
    Satisfies environment.machine (fun out w' => w' = w ∧ ∃ counts', out = .ok counts') w
      (countActive counts ids) := by
  induction ids generalizing counts with
  | nil => exact satisfies_ret.mpr ⟨rfl, _, rfl⟩
  | cons id rest ih =>
    simp only [countActive, satisfies_bind, satisfies_hgetall, then_ok]
    exact Satisfies.ite (fun _ => ih _) fun _ => ih _

theorem activeRestoreCountsByNode_spec :
    Satisfies environment.machine (fun out w' => w' = w ∧ ∃ counts, out = .ok counts) w
      activeRestoreCountsByNode := by
  rw [activeRestoreCountsByNode, satisfies_bind, satisfies_scanJobs, then_ok]
  exact countActive_spec _ _

private theorem archivePath_error {pveStorage voltail : String} {e : Exn}
    (h : archivePath pveStorage voltail = .error e) : ∃ text, e = .valueError text := by
  simp only [archivePath] at h
  split_ifs at h
  · exact ⟨_, (Except.error.inj h).symm⟩
  · exact ⟨_, (Except.error.inj h).symm⟩

/-- The listing shows the guests, or is lost and shows none. -/
theorem listInUse_spec :
    Satisfies environment.machine
      (fun out w' => w' = w ∧ ∃ rows, out = .ok (vmidsOf rows) ∧ (rows = w.listing ∨ rows = [])) w
      (listInUse px) := by
  rw [listInUse, satisfies_bind, satisfies_attempt, qemuVmidsInUseCluster, satisfies_bind,
    satisfies_clusterVmResources, then_ok, then_ok, pure_eq_ret, pure_eq_ret, satisfies_ret,
    satisfies_ret, then_ok, then_ok]
  exact ⟨satisfies_ret.mpr ⟨rfl, _, rfl, .inl rfl⟩, satisfies_ret.mpr ⟨rfl, _, rfl, .inr rfl⟩⟩

/-- Where nothing is in use, nothing is reclaimed. -/
theorem reclaimStep_empty (req : EnqueueRequest) (px : Client) (vmids : List ℤ) :
    reclaimStep req px ∅ vmids = Program.ret () := by
  have hnothing : reclaimVmids px req.candidates ∅ vmids = Program.ret () := by
    induction vmids with
    | nil => rfl
    | cons v rest ih => rw [reclaimVmids, if_neg (Finset.notMem_empty v), ih]
  rw [reclaimStep, hnothing]
  split_ifs <;> rfl

/-- Writing the jobs raises no runtime error and leaves the guests alone. -/
theorem writeJobs_spec (rows : List (Row × ℤ × String × String)) :
    Satisfies environment.machine
      (fun out w' => w'.guests = w.guests ∧ ∀ text, out ≠ .error (.runtimeError text)) w
      (writeJobs req rows) := by
  induction rows generalizing w with
  | nil => exact satisfies_ret.mpr ⟨rfl, by rintro _ ⟨⟩⟩
  | cons e rest ih =>
    obtain ⟨row, vmid, node, storage⟩ := e
    simp only [writeJobs, satisfies_bind, satisfies_uuid4, then_ok, satisfies_utcNow,
      satisfies_ofExcept]
    intro n
    cases harchive : archivePath row.pveStorage row.voltail with
    | error e =>
      obtain ⟨text, rfl⟩ := archivePath_error harchive
      rw [then_error]
      exact ⟨rfl, by rintro _ ⟨⟩⟩
    | ok archive =>
      rw [then_ok, satisfies_bind, satisfies_ofExcept]
      cases row.vmid with
      | none =>
        rw [Option.elim_none, then_error]
        exact ⟨rfl, by rintro _ ⟨⟩⟩
      | some v =>
        simp only [Option.elim_some, then_ok, satisfies_bind, satisfies_hset, satisfies_rpush]
        refine ih.mono ?_
        rintro out w' ⟨hguests, hout⟩
        cases out with
        | ok ids =>
          rw [then_ok, pure_eq_ret, satisfies_ret]
          exact ⟨hguests, by rintro _ ⟨⟩⟩
        | error e =>
          rw [then_error]
          exact ⟨hguests, fun text heq => hout text (congrArg _ (Except.error.inj heq))⟩

end RestoreEngine
