import RestoreEngine.Effects.Trace
import RestoreEngine.Model.Footprints

/-!
# Isolated before it runs

A job with the network mode `unlink` or `remap` is to have its guest isolated before the guest
runs. `processJob` applies the isolation between the restore and the start of the guest, so that
this is so unless the restore is a live one, which boots the guest by itself, and before
(`isolatedFirst_iff`).
-/

namespace RestoreEngine

open Effects Prog Program

variable {cfg : Config} {polls : ℕ} {id : Uuid} {data : Job} {h h' : List (Event commands)}

/-! ### What is to come first -/

/-- Commands that bring a guest up: a start, and a live restore, which boots the guest as soon as
its task starts. -/
def Op.Boots : Op → Prop
  | qemuStart _ _ _ => True
  | qemuRestore _ _ p => p.liveRestore = true
  | _ => False

/-- The network mode that `process_job` reads. -/
def Job.netMode (data : Job) : String := Text.lower (Text.strip data.networkMode)

/-- The job asks for network isolation. -/
def Job.Isolates (data : Job) : Prop := data.netMode ∈ ["unlink", "remap"]

instance (data : Job) : Decidable data.Isolates := inferInstanceAs (Decidable (_ ∈ _))

/-- `apply_network_isolation` has succeeded on the guest of the job: somewhere in the trace it
ran from its first command to its end without raising. -/
def Isolated (id : Uuid) (data : Job) (h : List (Event commands)) : Prop :=
  ∃ node vmid h₁ h₂ h₃, placement data = .ok (node, vmid) ∧ h = h₁ ++ h₂ ++ h₃ ∧
    Traces (applyNetworkIsolation (.job id) node vmid data.netMode (Text.strip data.labBridge)) h₂
      (some (.ok ()))

/-- The hash of the job, as it was read along the trace: `data` at first, and a request to cancel
the job is never taken back. -/
structure HashRead (id : Uuid) (data : Job) (h : List (Event commands)) : Prop where
  first : ∀ (r : Option Job) h', h = ⟨.hgetall id, r⟩ :: h' → r = some data
  cancelled : data.cancelRequested = true → ∀ r : Option Job,
    (⟨.hgetall id, r⟩ : Event commands) ∈ h → (r.getD {}).cancelRequested = true

/-- **Isolated first**: in every trace of `process_job` on the hash `data`, whatever the outcomes
of the calls, each command that brings the guest up comes after a successful isolation. -/
def IsolatedFirst (cfg : Config) (polls : ℕ) (id : Uuid) (data : Job) : Prop :=
  ∀ h out, Traces (processJob cfg polls id) h out → HashRead id data h →
    ∀ h₁ e h₂, h = h₁ ++ e :: h₂ → e.op.Boots → Isolated id data h₁

/-! ### The recorder of a job -/

/-- The recorder of a job: what brings the guest up is permitted once it is isolated. -/
private abbrev watch (id : Uuid) (data : Job) : Machine commands (List (Event commands)) :=
  recorder (HashRead id data) fun h o => o.Boots → Isolated id data h

private theorem HashRead.of_append (hread : HashRead id data (h ++ h')) : HashRead id data h where
  first r h₁ heq := hread.first r (h₁ ++ h') (by rw [heq]; rfl)
  cancelled hc r hr := hread.cancelled hc r (List.mem_append_left _ hr)

theorem Isolated.append (hiso : Isolated id data h) (h' : List (Event commands)) :
    Isolated id data (h ++ h') := by
  obtain ⟨node, vmid, h₁, h₂, h₃, hplace, rfl, htrace⟩ := hiso
  exact ⟨node, vmid, h₁, h₂, h₃ ++ h', hplace, by rw [List.append_assoc _ h₃], htrace⟩

private theorem watch_issue (o : Op) {Q : Except Exn o.Res → List (Event commands) → Prop} :
    Satisfies (watch id data) Q h (issue o) ↔ (o.Boots → Isolated id data h) ∧
      ∀ r, HashRead id data (h ++ [⟨o, r⟩]) → Q (.ok r) (h ++ [⟨o, r⟩]) := by
  refine (@satisfies_perform commands Exn _ (watch id data) h o Q).trans ?_
  refine and_congr_right fun _ => forall_congr' fun r => ?_
  refine ⟨fun hQ hread => hQ _ ⟨rfl, hread⟩, ?_⟩
  rintro hQ h' ⟨rfl, hread⟩
  exact hQ hread

/-- Once the guest is isolated, anything may follow. -/
private theorem watch_isolated {α : Type} {p : Prog α} (hiso : Isolated id data h) :
    Satisfies (watch id data) (fun _ _ => True) h p := by
  induction p generalizing h with
  | ret a => exact satisfies_ret.mpr trivial
  | raise e => exact satisfies_raise.mpr trivial
  | call o k ih =>
    refine satisfies_call.mpr ⟨fun _ => hiso, ?_⟩
    rintro r h' ⟨rfl, -⟩
    exact ih r (hiso.append _)

/-- What does not bring the guest up is permitted. -/
private theorem watch_quiet {α : Type} {p : Prog α} (hp : p.Only fun o : Op => ¬ o.Boots) :
    Satisfies (watch id data) (fun _ _ => True) h p :=
  hp.satisfies trivial (fun _ _ ho _ hboots => absurd hboots ho) fun _ _ _ _ _ _ _ => trivial

theorem Op.OfWatch.not_boots {o : Op} (ho : o.OfWatch id) : ¬ o.Boots := by
  intro hboots
  cases o <;> first | exact hboots.elim | exact ho.elim

private theorem watch_attends {α : Type} {p : Prog α} (hp : p.Only (Op.OfWatch id)) :
    Satisfies (watch id data) (fun _ _ => True) h p :=
  watch_quiet (hp.mono fun _ => Op.OfWatch.not_boots)

/-! ### A restore that does not boot -/

private theorem isolateGuest_isolates {node : String} {vmid : ℤ} (hnet : data.Isolates)
    (hplace : placement data = .ok (node, vmid)) :
    Satisfies (watch id data) (fun out h' => out = .ok () → Isolated id data h') h
      (isolateGuest (.job id) data node vmid) := by
  simp only [isolateGuest]
  refine Satisfies.ite (fun _ => ?_) fun hnot => absurd hnet hnot
  rw [satisfies_bind, satisfies_attempt]
  refine (watch_attends applyNetworkIsolation_only).recorded.mono ?_
  rintro out h' ⟨-, h₂, rfl, htrace⟩
  rw [then_ok]
  cases out with
  | ok _ =>
    exact satisfies_ret.mpr fun _ =>
      ⟨node, vmid, h, h₂, [], hplace, (List.append_nil _).symm, htrace⟩
  | error exc => exact satisfies_raise.mpr (by rintro ⟨⟩)

private theorem finishJob_isolated {node : String} {vmid : ℤ} (hnet : data.Isolates)
    (hplace : placement data = .ok (node, vmid)) :
    Satisfies (watch id data) (fun _ _ => True) h
      (finishJob cfg polls (.job id) id data node vmid) := by
  refine (watch_attends (stampAttempts_only _ _)).bind (fun _ h' _ => ?_) fun _ _ _ => trivial
  refine (isolateGuest_isolates hnet hplace).bind (fun _ h' hiso => ?_) fun _ _ _ => trivial
  exact watch_isolated (hiso rfl)

private theorem restoreGuest_isolated {node : String} {vmid : ℤ} (hnet : data.Isolates)
    (hplace : placement data = .ok (node, vmid)) (hlive : data.liveRestore = false) :
    Satisfies (watch id data) (fun _ _ => True) h (restoreGuest cfg polls id data node vmid) := by
  have hconnect : (connect (.job id)).Only (Op.OfWatch id) :=
    Only.bind (only_perform.mpr rfl) fun _ => only_ofExcept
  have hrestore : (restoreTask cfg polls (.job id) id data node vmid).Only
      fun o : Op => ¬ o.Boots := by
    refine restoreTask_only (fun _ => Op.OfWatch.not_boots) fun p hp hboots => ?_
    have hyes : p.liveRestore = true := hboots
    rw [hp, hlive] at hyes
    cases hyes
  refine (watch_attends hconnect).bind (fun _ _ _ => ?_) fun _ _ _ => trivial
  refine (watch_quiet hrestore).bind (fun _ _ _ => ?_) fun _ _ _ => trivial
  exact Satisfies.ite (fun _ => finishJob_isolated hnet hplace) fun _ => satisfies_ret.mpr trivial

/-- The job is submitted if it is not cancelled and its hash is complete. -/
def Job.Submits (data : Job) : Prop :=
  data.cancelRequested = false ∧ data.archive ≠ "" ∧ data.proxmoxNode ≠ none ∧
    data.proxmoxVmid ≠ none ∧ data.backupId ≠ none ∧ data.proxmoxStorage ≠ none

private theorem beginJob_isolated (hnet : data.Isolates)
    (hgood : data.liveRestore = false ∨ data.archive = "" ∨ data.proxmoxNode = none ∨
      data.proxmoxVmid = none ∨ data.backupId = none ∨ data.proxmoxStorage = none) :
    Satisfies (watch id data) (fun _ _ => True) h (beginJob cfg polls id data) := by
  rw [beginJob, satisfies_bind, satisfies_ofExcept]
  cases hplace : placement data with
  | error e =>
    rw [then_error]
    trivial
  | ok placed =>
    obtain ⟨node, vmid⟩ := placed
    rw [then_ok]
    refine Satisfies.ite (fun _ => satisfies_raise.mpr trivial) fun harchive => ?_
    refine (watch_attends setState_only).bind (fun _ _ _ => ?_) fun _ _ _ => trivial
    refine (watch_attends sampleStep_only).bind (fun _ _ _ => ?_) fun _ _ _ => trivial
    obtain ⟨hnode, hvmid, hbackup, hstorage⟩ := placement_ok_iff.mp hplace
    rcases hgood with hlive | hnone | hnone | hnone | hnone | hnone
    · exact restoreGuest_isolated hnet hplace hlive
    · exact absurd hnone harchive
    · exact absurd (hnode.symm.trans hnone) (by simp)
    · exact absurd (hvmid.symm.trans hnone) (by simp)
    · exact absurd hnone hbackup
    · exact absurd hnone hstorage

private theorem processJob_isolated (hnet : data.Isolates)
    (hgood : data.liveRestore = false ∨ ¬ data.Submits) :
    Satisfies (watch id data) (fun _ _ => True) [] (processJob cfg polls id) := by
  rw [processJob, satisfies_bind]
  refine (watch_issue (.hgetall id)).mpr ⟨False.elim, fun r hread => ?_⟩
  obtain rfl := hread.first r [] rfl
  rw [then_ok]
  simp only
  rw [satisfies_bind, cancelRequested, satisfies_bind]
  refine (watch_issue (.hgetall id)).mpr ⟨False.elim, fun r hread => ?_⟩
  rw [then_ok]
  refine satisfies_ret.mpr ?_
  rw [then_ok]
  refine Satisfies.ite (fun _ => watch_attends setState_only) fun hnot => ?_
  refine beginJob_isolated hnet ?_
  have hcancel : data.cancelRequested = false := by
    by_contra hc
    exact hnot (hread.cancelled (by simpa using hc) r (by simp))
  rcases hgood with hlive | hsubmits
  · exact .inl hlive
  · by_contra hbad
    obtain ⟨-, harchive, hnode, hvmid, hbackup, hstorage⟩ := by simpa only [not_or] using hbad
    exact hsubmits ⟨hcancel, harchive, hnode, hvmid, hbackup, hstorage⟩

/-! ### A live restore -/

private theorem traces_issue (o : Op) (r : o.Res) :
    Traces (issue o) [(⟨o, r⟩ : Event commands)] (some (.ok r)) :=
  Traces.perform (S := commands) r

/-- An isolation begins with a look at the configuration of the guest. -/
private theorem isolation_looks {px : Client} {node : String} {vmid : ℤ} (hnet : data.Isolates)
    {out : Except Exn Unit} (htrace : Traces (applyNetworkIsolation px node vmid data.netMode
      (Text.strip data.labBridge)) h (some out)) :
    ∃ e ∈ h, e.op = .qemuConfig px node vmid := by
  have hmode : Text.lower (Text.strip data.netMode) ∉ ["", "none", "off"] := by
    rcases List.mem_pair.mp hnet with heq | heq <;> · rw [heq]; decide
  simp only [applyNetworkIsolation] at htrace
  rw [if_neg hmode] at htrace
  change Traces (.call (Op.qemuConfig px node vmid : commands.Op) _) h (some out) at htrace
  cases htrace
  exact ⟨_, List.mem_cons_self, rfl⟩

/-- The parameters of the restore that a job submits. -/
private def submitted (data : Job) (vmid : ℤ) : RestoreParams :=
  { vmid
    archive := data.archive
    storage := data.targetStorage
    liveRestore := data.liveRestore
    unique := data.unique
    force := data.force
    bwlimit := if 0 < data.bwlimit then some data.bwlimit else none }

/-- The commands of a job before its submission, and the replies to them. -/
private def preparation (id : Uuid) (data : Job) : List (Event commands) :=
  [⟨.hgetall id, some data⟩, ⟨.hgetall id, some data⟩,
    ⟨.hset id (stateFields .RESTORING none), ()⟩, ⟨.wireSample data.backupRef, false⟩,
    ⟨.connect (.job id), .ok ()⟩]

private theorem setState_traces :
    Traces (setState cfg id .RESTORING) [⟨.hset id (stateFields .RESTORING none), ()⟩]
      (some (.ok ())) := by
  refine (traces_issue (.hset id (stateFields .RESTORING none)) ()).bind_nil ?_
  rw [if_neg (by simp [RestoreState.IsTerminal])]
  exact .ret _

/-- A job that submits may come to its submission, and the restore task may start. -/
private theorem submission_traces {node : String} {vmid : ℤ}
    (hplace : placement data = .ok (node, vmid)) (hsubmits : data.Submits) :
    Traces (processJob cfg polls id)
      (preparation id data ++ [⟨.qemuRestore (.job id) node (submitted data vmid), .ok (some "")⟩])
      none := by
  obtain ⟨hcancel, harchive, -⟩ := hsubmits
  have hcheck : Traces (cancelRequested id) [⟨.hgetall id, some data⟩] (some (.ok false)) :=
    (traces_issue (.hgetall id) (some data)).bind_nil (hcancel ▸ .ret _)
  have hsample : Traces (sampleStep id data.backupRef) [⟨.wireSample data.backupRef, false⟩]
      (some (.ok ())) :=
    (traces_issue (.wireSample data.backupRef) false).bind_nil (.ret _)
  have hconnect : Traces (connect (.job id)) [⟨.connect (.job id), .ok ()⟩] (some (.ok ())) :=
    (traces_issue (.connect (.job id)) (.ok ())).bind_nil .ofExcept
  have hsubmit : Traces (restoreTask cfg polls (.job id) id data node vmid)
      [⟨.qemuRestore (.job id) node (submitted data vmid), .ok (some "")⟩] none :=
    ((traces_issue (.qemuRestore (.job id) node (submitted data vmid)) (.ok (some ""))).bind_nil
      (.ret "")).bind_nil (.cut _)
  refine (traces_issue (.hgetall id) (some data)).bind (hcheck.bind ?_)
  rw [if_neg Bool.false_ne_true, beginJob, hplace]
  refine Traces.ofExcept.nil_bind ?_
  simp only [if_neg harchive]
  exact setState_traces.bind (hsample.bind (hconnect.bind (hsubmit.bind_cut)))

private theorem preparation_genuine {e : Event commands} (hsubmits : data.Submits) :
    HashRead id data (preparation id data ++ [e]) where
  first r h' heq := by
    injection heq with heq
    injection heq with _ heq
    exact heq.symm
  cancelled hc := absurd (hsubmits.1.symm.trans hc) Bool.false_ne_true

private theorem preparation_not_isolated (hnet : data.Isolates) :
    ¬ Isolated id data (preparation id data) := by
  rintro ⟨node, vmid, h₁, h₂, h₃, -, hsplit, htrace⟩
  obtain ⟨e, he, hop⟩ := isolation_looks hnet htrace
  have hmem : e ∈ preparation id data := by
    rw [hsplit]
    exact List.mem_append_left _ (List.mem_append_right _ he)
  simp only [preparation, List.mem_cons, List.not_mem_nil, or_false] at hmem
  rcases hmem with rfl | rfl | rfl | rfl | rfl <;> cases hop

/-- A live restore boots the guest before the isolation. -/
theorem live_not_isolatedFirst (hnet : data.Isolates) (hlive : data.liveRestore = true)
    (hsubmits : data.Submits) : ¬ IsolatedFirst cfg polls id data := by
  intro hfirst
  have ⟨_, _, hnode, hvmid, hcomplete⟩ := hsubmits
  obtain ⟨node, hnode⟩ := Option.ne_none_iff_exists'.mp hnode
  obtain ⟨vmid, hvmid⟩ := Option.ne_none_iff_exists'.mp hvmid
  have hplace : placement data = .ok (node, vmid) :=
    placement_ok_iff.mpr ⟨hnode, hvmid, hcomplete⟩
  have hgenuine : HashRead id data (preparation id data ++
      [⟨.qemuRestore (.job id) node (submitted data vmid), .ok (some "")⟩]) :=
    preparation_genuine hsubmits
  exact preparation_not_isolated hnet
    (hfirst _ none (submission_traces hplace hsubmits) hgenuine _ _ [] rfl hlive)

/-- **When the guest is isolated first**: exactly if the restore is not a live one, or the job is
never submitted. -/
theorem isolatedFirst_iff (hnet : data.Isolates) :
    IsolatedFirst cfg polls id data ↔ (data.liveRestore = false ∨ ¬ data.Submits) := by
  constructor
  · intro hfirst
    by_contra hbad
    obtain ⟨hlive, hsubmits⟩ := not_or.mp hbad
    exact live_not_isolatedFirst hnet (by simpa using hlive) (not_not.mp hsubmits) hfirst
  · intro hgood h out htrace hread h₁ e h₂ hsplit
    exact htrace.respects (fun _ _ => HashRead.of_append) (processJob_isolated hnet hgood) hread
      hsplit

/-- A job that is to have its network unlinked. -/
def unlinkJob (live : Bool) : Job :=
  { backupId := some "pbs|vm/100/2026-05-01T01:00:00Z"
    proxmoxNode := some "pve"
    proxmoxVmid := some 100
    proxmoxStorage := some "local"
    archive := "pbs:backup/vm/100/2026-05-01T01:00:00Z"
    networkMode := "unlink"
    liveRestore := live }

/-- Without a live restore the guest is isolated first, and with one it is isolated first if the
hash has no storage. -/
theorem isolatedFirst_unlinkJob : IsolatedFirst {} 3 7 (unlinkJob false) ∧
    IsolatedFirst {} 3 7 { unlinkJob true with proxmoxStorage := none } := by
  refine ⟨(isolatedFirst_iff (by decide)).mpr (.inl rfl),
    (isolatedFirst_iff (by decide)).mpr (.inr ?_)⟩
  rintro ⟨-, -, -, -, -, hstorage⟩
  exact hstorage rfl

/-- With a live restore the guest runs with its links up. -/
theorem unlinkJob_live_boots_first :
    (unlinkJob true).Isolates ∧ ¬ IsolatedFirst {} 0 7 (unlinkJob true) :=
  ⟨by decide, live_not_isolatedFirst (by decide) rfl (by simp [Job.Submits, unlinkJob])⟩

end RestoreEngine
