import RestoreEngine.Enqueue.Steps
import RestoreEngine.Model.Destroy

/-!
# Reclaiming the VMIDs of a batch

A DR restore with `overwrite` reclaims the occupied VMIDs of its batch one after the other: it
checks one, destroys it, and goes on to the next. A refusal therefore comes too late for the guests
before it. This module says exactly when no refusal does (`refusal_spares_iff`).
-/

namespace RestoreEngine

open Effects Prog Program

variable {w w' : World} {req : EnqueueRequest} {px : Client} {cands : List String} {v : ℤ}

/-! ### Refusals -/

/-- The VMID is refused: an LXC container, a guest without the marker, or of unknown node. -/
def Exn.Refuses (e : Exn) (v : ℤ) : Prop :=
  e = refusedLxc v ∨ e = refusedUnknown v ∨ ∃ node, e = refusedForeign v node

/-- Some VMID of a batch is refused. -/
def Exn.IsRefusal (e : Exn) : Prop := ∃ v, e.Refuses v

private theorem take_append {s t : String} {n : ℕ} (h : n ≤ s.toList.length) :
    (s ++ t).toList.take n = s.toList.take n := by
  rw [String.toList_append, List.take_append_of_le_length h]

/-- The first characters of the texts tell a failed destruction from a refusal. -/
private theorem destroyFailed_not_refusal (v : ℤ) (e : Exn) : ¬ (destroyFailed v e).IsRefusal := by
  have hfailed : (destroyFailed v e).text.toList.take 14 = "DR overwrite f".toList := by
    simp only [destroyFailed, Exn.text, String.append_assoc]
    exact take_append (by decide)
  rintro ⟨u, h | h | ⟨node, h⟩⟩
  · have hlxc : (refusedLxc u).text.toList.take 14 = "DR overwrite r".toList := by
      simp only [refusedLxc, Exn.text, String.append_assoc]
      exact take_append (by decide)
    rw [h, hlxc] at hfailed
    exact absurd hfailed (by decide)
  · have hunknown : (refusedUnknown u).text.toList.take 14 = "Cannot overwri".toList := by
      simp only [refusedUnknown, Exn.text, String.append_assoc]
      exact take_append (by decide)
    rw [h, hunknown] at hfailed
    exact absurd hfailed (by decide)
  · have hforeign : (refusedForeign u node).text.toList.take 14 = "DR overwrite r".toList := by
      simp only [refusedForeign, Exn.text, String.append_assoc]
      exact take_append (by decide)
    rw [h, hforeign] at hfailed
    exact absurd hfailed (by decide)

/-- Whenever a VMID of the batch is refused, no guest has been destroyed and no job enqueued. -/
def RefusalSpares (w : World) (req : EnqueueRequest) : Prop :=
  ∀ e w', Ends environment (enqueueRestores req) w (.error e) w' → e.IsRefusal →
    w'.guests = w.guests ∧ w'.jobs = w.jobs ∧ w'.queue = w.queue

/-! ### One VMID -/

/-- The node under which a guest is checked: the one that the listing names, or else the first
candidate. -/
def Guest.checkedNode (g : Guest) (cands : List String) (v : ℤ) : String :=
  if (g.found v).node ≠ "" then (g.found v).node else cands.headD ""

namespace World

/-- The check may let the VMID pass: its guest carries the marker and is on the node that the
listing names or on the first candidate. -/
def Passable (w : World) (cands : List String) (v : ℤ) : Prop :=
  w.Marked v (cands.headD "") ∨
    ∃ g, w.guest v = some g ∧ (g.found v).node ≠ "" ∧ w.Marked v (g.found v).node

/-- The VMID can be reclaimed: its guest carries the marker and is on the node that the listing
names or, if that names none, on the first candidate. -/
def Reclaimable (w : World) (cands : List String) (v : ℤ) : Prop :=
  ∃ g, w.guest v = some g ∧ w.Marked v (g.checkedNode cands v)

end World

/-- What reclaiming one VMID may come to: it passes, and perhaps its guest is gone; it is refused,
and nothing has happened; or the destruction fails. -/
def ReclaimOutcome (w : World) (cands : List String) (v : ℤ) (out : Except Exn Unit)
    (w' : World) : Prop :=
  (out = .ok () ∧ ((w' = w ∧ w.Passable cands v) ∨
    (w' = w.without v ∧ w.Reclaimable cands v))) ∨
  ((∃ e, out = .error e ∧ e.IsRefusal) ∧ w' = w) ∨
  ((∃ e, out = .error e ∧ ¬ e.IsRefusal) ∧ w.Shrinks w')

private theorem findGuestResource_spec :
    Satisfies environment.machine
      (fun out w' => w' = w ∧ ∃ guest, out = .ok guest ∧
        (guest = none ∨ guest = (w.guest v).map (·.found v))) w (findGuestResource px v) := by
  rw [findGuestResource, satisfies_bind, satisfies_clusterVmResources, then_ok, then_ok,
    pure_eq_ret, pure_eq_ret, satisfies_ret, satisfies_ret, findIn_listing]
  exact ⟨⟨rfl, _, rfl, .inr rfl⟩, ⟨rfl, _, rfl, .inl rfl⟩⟩

/-- The node is the one that the listing names, or there is none. -/
private theorem nodeOrFind_spec {guest : Option Resource}
    (hguest : guest = none ∨ guest = (w.guest v).map (·.found v)) :
    Satisfies environment.machine
      (fun out w' => w' = w ∧ ∃ node, out = .ok node ∧
        (node = "" ∨ ∃ g, w.guest v = some g ∧ node = (g.found v).node)) w
      (nodeOrFind px ((guest.map (·.node)).getD "") v) := by
  refine Satisfies.ite (fun hlisted => ?_) fun _ => ?_
  · rw [pure_eq_ret, satisfies_ret]
    refine ⟨rfl, _, rfl, .inr ?_⟩
    rcases hguest with rfl | rfl
    · exact absurd rfl hlisted
    · cases hg : w.guest v with
      | none => exact absurd (by rw [hg]; rfl) hlisted
      | some g => exact ⟨g, rfl, rfl⟩
  · rw [findQemuNode]
    refine findGuestResource_spec.bind ?_ (by rintro e w' ⟨-, _, h, -⟩; cases h)
    rintro found w ⟨rfl, found', hfound, hcases⟩
    obtain rfl := Except.ok.inj hfound
    rcases hcases with rfl | rfl
    · exact satisfies_ret.mpr ⟨rfl, _, rfl, .inl rfl⟩
    · cases hg : w.guest v with
      | none => exact satisfies_ret.mpr ⟨rfl, _, rfl, .inl rfl⟩
      | some g =>
        rw [Option.map_some]
        refine satisfies_ret.mpr ⟨rfl, _, rfl, ?_⟩
        by_cases htype : (g.found v).type = "qemu"
        · rw [if_pos htype]
          exact .inr ⟨g, rfl, rfl⟩
        · rw [if_neg htype]
          exact .inl rfl

private theorem reclaimVmid_spec (hhead : Text.strip (cands.headD "") = cands.headD "") :
    Satisfies environment.machine (ReclaimOutcome w cands v) w (reclaimVmid px cands v) := by
  rw [reclaimVmid]
  refine findGuestResource_spec.bind ?_ (by rintro e w' ⟨-, _, h, -⟩; cases h)
  rintro guest w ⟨rfl, guest', hguest', hguest⟩
  obtain rfl := Except.ok.inj hguest'
  have hrefused : ∀ e : Exn, e.IsRefusal → ReclaimOutcome w cands v (.error e) w :=
    fun e he => .inr (.inl ⟨⟨e, rfl, he⟩, rfl⟩)
  refine Satisfies.ite (fun _ => satisfies_raise.mpr (hrefused _ ⟨v, .inl rfl⟩)) fun _ => ?_
  refine (nodeOrFind_spec hguest).bind ?_ (by rintro e w' ⟨-, _, h, -⟩; cases h)
  rintro found w ⟨rfl, found', hfound', hfound⟩
  obtain rfl := Except.ok.inj hfound'
  -- the node is the first candidate, or the one of the listing
  have hnode : (if found ≠ "" then found else cands.headD "") = cands.headD "" ∨
      ∃ g, w.guest v = some g ∧ (g.found v).node ≠ "" ∧
        (if found ≠ "" then found else cands.headD "") = (g.found v).node := by
    by_cases hempty : found = ""
    · exact .inl (if_neg (not_not.mpr hempty))
    · obtain ⟨g, hg, rfl⟩ := hfound.resolve_left hempty
      exact .inr ⟨g, hg, hempty, if_pos hempty⟩
  generalize (if found ≠ "" then found else cands.headD "") = node at hnode
  dsimp only
  refine Satisfies.ite (fun _ => satisfies_raise.mpr (hrefused _ ⟨v, .inr (.inl rfl)⟩)) fun _ => ?_
  refine qemuIsManagedByTool_spec.bind ?_ (by rintro e w' ⟨-, _, h, -⟩; cases h)
  rintro managed w ⟨rfl, managed', hmanaged', hmarked⟩
  obtain rfl := Except.ok.inj hmanaged'
  refine Satisfies.ite (fun hyes => ?_) fun _ =>
    satisfies_raise.mpr (hrefused _ ⟨v, .inr (.inr ⟨node, rfl⟩)⟩)
  have hpassable : w.Passable cands v := by
    rcases hnode with rfl | ⟨g, hg, hne, rfl⟩
    · exact .inl (hmarked hyes)
    · exact .inr ⟨g, hg, hne, hmarked hyes⟩
  have hreclaimable : (∃ g, w.guest v = some g ∧ w.Marked v (g.nodeFor v node)) →
      w.Reclaimable cands v := by
    rintro ⟨g, hg, hm⟩
    refine ⟨g, hg, ?_⟩
    rw [Guest.checkedNode]
    by_cases hne : (g.found v).node = ""
    · rcases hnode with rfl | ⟨g', hg', hne', -⟩
      · rw [Guest.nodeFor, if_pos hne, Text.strip_strip, hhead] at hm
        rwa [if_neg (not_not.mpr hne)]
      · rw [hg] at hg'
        exact absurd hne (Option.some.inj hg' ▸ hne')
    · rw [if_pos hne]
      rwa [Guest.nodeFor, if_neg hne, Guest.found, Text.strip_strip] at hm
  rw [satisfies_bind, satisfies_attempt]
  refine destroyOwnedQemuVm_spec.mono ?_
  rintro out w' hw'
  rw [then_ok]
  cases out with
  | ok text =>
    refine satisfies_ret.mpr (.inl ⟨rfl, ?_⟩)
    exact hw'.imp (fun h => ⟨h, hpassable⟩) fun h => ⟨h.1, hreclaimable h.2⟩
  | error e =>
    refine satisfies_raise.mpr (.inr (.inr ⟨⟨_, rfl, destroyFailed_not_refusal v e⟩, ?_⟩))
    rcases hw' with rfl | ⟨rfl, -⟩
    · exact .refl _
    · exact w.shrinks_without v

/-! ### The VMIDs of a batch -/

namespace World

/-- Reclaiming these occupied VMIDs is risky: one of them that is not the last can be reclaimed,
and the ones before it may pass. -/
def Risky (w : World) (cands : List String) : List ℤ → Prop
  | v :: u :: rest => w.Reclaimable cands v ∨ (w.Passable cands v ∧ w.Risky cands (u :: rest))
  | _ => False

end World

private theorem reclaimVmids_spec (hhead : Text.strip (cands.headD "") = cands.headD "")
    (inUse : Finset ℤ) (vmids : List ℤ) :
    Satisfies environment.machine
      (fun out w' => w.Shrinks w' ∧ ∀ e, out = .error e → e.IsRefusal →
        vmids.filter (· ∈ inUse) ≠ [] ∧
          (w' = w ∨ w.Risky cands (vmids.filter (· ∈ inUse)))) w
      (reclaimVmids px cands inUse vmids) := by
  induction vmids generalizing w with
  | nil => exact satisfies_ret.mpr ⟨.refl w, nofun⟩
  | cons v rest ih =>
    refine Satisfies.ite (fun hin => ?_) fun hout => ?_
    swap
    · rw [List.filter_cons_of_neg (by simpa using hout)]
      exact ih
    rw [List.filter_cons_of_pos (by simpa using hin)]
    refine (reclaimVmid_spec hhead).bind ?_ ?_
    · rintro _ w₁ (⟨-, hpassed⟩ | ⟨⟨e, he, -⟩, -⟩ | ⟨⟨e, he, -⟩, -⟩)
      · refine ih.mono ?_
        rintro out w' ⟨hshrinks, hrefusal⟩
        have hsub : w.Shrinks w₁ := by
          rcases hpassed with ⟨rfl, -⟩ | ⟨rfl, -⟩
          · exact .refl _
          · exact w.shrinks_without v
        refine ⟨hsub.trans hshrinks, fun e he href => ⟨List.cons_ne_nil _ _, ?_⟩⟩
        obtain ⟨hsome, hsame⟩ := hrefusal e he href
        obtain ⟨u, us, hus⟩ := List.exists_cons_of_ne_nil hsome
        rw [hus] at hsame ⊢
        rcases hpassed with ⟨rfl, hpass⟩ | ⟨rfl, hreclaim⟩
        · exact hsame.imp_right fun hrisky => .inr ⟨hpass, hrisky⟩
        · exact .inr (.inl hreclaim)
      · cases he
      · cases he
    · rintro e w₁ (⟨he, -⟩ | ⟨-, rfl⟩ | ⟨⟨e', he, hnot⟩, hshrinks⟩)
      · cases he
      · exact ⟨.refl _, fun _ _ _ => ⟨List.cons_ne_nil _ _, .inl rfl⟩⟩
      · refine ⟨hshrinks, fun e'' he'' href => absurd href ?_⟩
        rw [← Except.error.inj he'', Except.error.inj he]
        exact hnot

/-- The batch is endangered: it is accepted, and reclaiming its occupied VMIDs is risky. -/
structure World.Endangers (w : World) (req : EnqueueRequest) : Prop where
  allowed : ¬ req.Refused
  up : w.up = true
  risky : ∃ vmids : List ℤ, req.rows.map (·.vmid) = vmids.map some ∧ vmids.Nodup ∧
    w.Risky req.candidates (vmids.filter fun v => (w.guest v).isSome)

private theorem occupied_filter (w : World) (vmids : List ℤ) :
    (vmids.filter fun v => (w.guest v).isSome) = vmids.filter (· ∈ vmidsOf w.listing) := by
  refine List.filter_congr fun v _ => ?_
  rw [Bool.eq_iff_iff, decide_eq_true_iff, mem_vmidsOf_listing, Option.isSome_iff_ne_none]

private theorem isRefusal_runtime {e : Exn} (h : e.IsRefusal) : ∃ text, e = .runtimeError text := by
  obtain ⟨v, rfl | rfl | ⟨node, rfl⟩⟩ := h <;> exact ⟨_, rfl⟩

private theorem candidates_head (h : ¬ req.Refused) :
    Text.strip (req.candidates.headD "") = req.candidates.headD "" ∧
      req.candidates.headD "" ≠ "" := by
  cases hcands : req.candidates with
  | nil => exact absurd (.inr (.inl hcands)) h
  | cons cand rest =>
    have hmem : cand ∈ req.candidates := by rw [hcands]; exact List.mem_cons_self
    exact req.candidates_stripped hmem

/-- A refusal leaves everything as it is, unless the batch is endangered. -/
private theorem enqueueRestores_refusal (hdr : req.mode = "dr") (hover : req.overwrite = true)
    (hsafe : ¬ w.Endangers req) :
    Satisfies environment.machine
      (fun out w' => ∀ e, out = .error e → e.IsRefusal →
        w'.guests = w.guests ∧ w'.jobs = w.jobs ∧ w'.queue = w.queue) w
      (enqueueRestores req) := by
  have hself : ∀ e : Exn, ∀ e', Except.error (α := EnqueueResult) e = .error e' → e'.IsRefusal →
      w.guests = w.guests ∧ w.jobs = w.jobs ∧ w.queue = w.queue :=
    fun _ _ _ _ => ⟨rfl, rfl, rfl⟩
  rw [enqueueRestores, satisfies_bind, satisfies_ofExcept]
  rcases req.check_spec with ⟨hcheck, hallowed⟩ | ⟨text, hcheck, -⟩
  swap
  · rw [hcheck, then_error]
    exact hself _
  rw [hcheck, then_ok]
  have hconnect : Satisfies environment.machine
      (fun out w' => w' = w ∧ (out = .ok () → w.up = true)) w
      (connect (.enqueue req.planRunId)) := by
    rw [satisfies_connect]
    refine ⟨rfl, fun h => ?_⟩
    split_ifs at h with hup
    exact hup
  refine hconnect.bind ?_ (by rintro e w' ⟨rfl, -⟩; exact hself e)
  rintro _ w ⟨rfl, hup⟩
  refine listInUse_spec.bind ?_ (by rintro e w' ⟨-, _, h, -⟩; cases h)
  rintro inUse w ⟨rfl, rows, hrows, hlisted⟩
  obtain rfl := Except.ok.inj hrows
  rw [satisfies_bind, satisfies_ofExcept]
  rcases req.allocate_dr (vmidsOf rows) hdr with ⟨vmids, hok, hown⟩ | ⟨⟨text, herr⟩, -⟩
  swap
  · rw [herr, then_error]
    exact hself _
  rw [hok, then_ok, enqueueAllocated]
  refine activeRestoreCountsByNode_spec.bind ?_ (by rintro e w' ⟨-, _, h⟩; cases h)
  rintro counts w ⟨rfl, -⟩
  obtain ⟨nodes, storages, hplace, -⟩ := req.place_spec counts hallowed
  rw [hplace, satisfies_bind, satisfies_ofExcept, then_ok, reclaimStep, if_pos ⟨hdr, hover⟩]
  -- up to here nothing has been changed
  refine (reclaimVmids_spec (candidates_head hallowed).1 _ vmids).bind ?_ ?_
  · -- once all VMIDs are reclaimed, nothing is refused any more
    rintro _ w₁ -
    rw [satisfies_bind]
    refine (writeJobs_spec _).mono ?_
    rintro out w₂ ⟨-, hout⟩
    cases out with
    | ok ids =>
      rw [then_ok, pure_eq_ret, satisfies_ret]
      rintro e' ⟨⟩
    | error e =>
      rw [then_error]
      rintro e' he' href
      obtain ⟨text, rfl⟩ := isRefusal_runtime href
      exact absurd (congrArg _ (Except.error.inj he')) (hout text)
  · -- a reclaim that has been refused has destroyed a guest only if the batch is endangered
    rintro e w₁ ⟨hshrinks, hrefusal⟩ e' he' href
    obtain ⟨hsome, rfl | hrisky⟩ := hrefusal e rfl (Except.error.inj he' ▸ href)
    · exact ⟨rfl, rfl, rfl⟩
    · rcases hlisted with rfl | rfl
      · refine absurd ⟨hallowed, hup rfl, vmids, hown.rows_eq, hown.nodup, ?_⟩ hsafe
        rwa [occupied_filter]
      · simp at hsome

/-! ### An endangered batch -/

private theorem findGuestResource_lost : Ends environment (findGuestResource px v) w (.ok none) w :=
  Ends.bind clusterVmResources_lost (.ret _ _)

private theorem findGuestResource_obtained {g : Guest} (hg : w.guest v = some g) :
    Ends environment (findGuestResource px v) w (.ok (some (g.found v))) w := by
  have hends : Ends environment (findGuestResource px v) w (.ok (findIn w.listing v)) w :=
    Ends.bind clusterVmResources_obtained (.ret _ _)
  rwa [findIn_listing, hg] at hends

private theorem qemuIsManaged_yes {node : String} (h : w.Marked v node) :
    Ends environment (qemuIsManagedByTool px node v) w (.ok true) w := by
  obtain ⟨g, hg, hmarked⟩ := h
  have hconfig : environment (.qemuConfig px node v) .ok w = some (.ok g.config, w) :=
    congrArg some (onGuest_found hg)
  rw [← hmarked]
  exact Ends.bind (Ends.attempt (Ends.bind (ends_issue hconfig) (.ret _ _))) (.ret _ _)

private theorem qemuIsManaged_fault {node : String} :
    Ends environment (qemuIsManagedByTool px node v) w (.ok false) w :=
  Ends.bind (Ends.attempt (Ends.bind
    (ends_issue (o := .qemuConfig px node v) (r := .error (.api "timeout")) (a := .fault "timeout")
      rfl) (.raise _ _))) (.ret _ _)

/-- Without a listing the node is the first candidate. -/
private theorem nodeOrFind_lost :
    Ends environment (nodeOrFind px "" v) w (.ok "") w :=
  Ends.bind findGuestResource_lost (.ret _ _)

private theorem marked_guest {g : Guest} {node : String} (hg : w.guest v = some g)
    (h : w.Marked v node) : g.kind = .qemu ∧ g.node = node ∧ w.qemuAt node v = some g := by
  obtain ⟨g', hg', -⟩ := h
  have hsame := hg'
  rw [World.qemuAt, hg, Option.filter_eq_some_iff] at hsame
  obtain ⟨hg, hcond⟩ := hsame
  obtain rfl := Option.some.inj hg
  simp only [Bool.and_eq_true, beq_iff_eq] at hcond
  exact ⟨hcond.1, hcond.2, hg'⟩

private theorem checkedNode_ne (hhead : cands.headD "" ≠ "") (g : Guest) :
    g.checkedNode cands v ≠ "" := by
  rw [Guest.checkedNode]
  split_ifs with h
  · exact h
  · exact hhead

/-- The check of a marked guest, and the destruction that follows. -/
private theorem reclaimVmid_checked {g : Guest} {text : String} (hhead : cands.headD "" ≠ "")
    (hg : w.guest v = some g) (hmarked : w.Marked v (g.checkedNode cands v))
    (hdestroy : Ends environment (destroyOwnedQemuVm px (g.checkedNode cands v) v) w
      (.ok text) w') :
    Ends environment (reclaimVmid px cands v) w (.ok ()) w' := by
  obtain ⟨hkind, -, -⟩ := marked_guest hg hmarked
  have htype : (g.found v).type = "qemu" := by rw [Guest.found, hkind]; rfl
  have hlxc : ¬ (g.found v).type = "lxc" := by rw [htype]; decide
  have hfind : Ends environment (nodeOrFind px (g.found v).node v) w (.ok (g.found v).node) w := by
    rw [nodeOrFind]
    split_ifs with hempty
    · exact .ret _ _
    · refine Ends.bind (findGuestResource_obtained hg) ?_
      simp only [htype, if_true]
      exact .ret _ _
  refine Ends.bind (findGuestResource_obtained hg) ?_
  simp only [Option.map_some, Option.getD_some, if_neg hlxc]
  refine Ends.bind hfind ?_
  rw [← Guest.checkedNode, if_neg (checkedNode_ne hhead g)]
  exact Ends.bind (qemuIsManaged_yes hmarked) (Ends.bind hdestroy.attempt (.ret _ _))

/-- A marked guest may be passed over. -/
private theorem reclaimVmid_passes (hhead : cands.headD "" ≠ "") (h : w.Passable cands v) :
    Ends environment (reclaimVmid px cands v) w (.ok ()) w := by
  have habsent : ∀ node, Ends environment (destroyOwnedQemuVm px node v) w (.ok "absent") w :=
    fun node => Ends.bind findGuestResource_lost (.ret _ _)
  rcases h with hmarked | ⟨g, hg, hne, hmarked⟩
  · refine Ends.bind findGuestResource_lost (Ends.bind nodeOrFind_lost ?_)
    dsimp only
    rw [if_neg (not_not.mpr rfl), if_neg hhead]
    refine Ends.bind (qemuIsManaged_yes hmarked) ?_
    exact Ends.bind (habsent _).attempt (.ret _ _)
  · have hnode : (g.found v).node = g.checkedNode cands v := (if_pos hne).symm
    exact reclaimVmid_checked hhead hg (hnode ▸ hmarked) (habsent _)

private theorem destroyQemuVm_ends {g : Guest} {node : String} (hstrip : Text.strip node = node)
    (hne : node ≠ "") (hg : w.qemuAt node v = some g) :
    Ends environment (destroyQemuVm px node v) w (.ok ()) (w.without v) := by
  have hstop : environment (.qemuStop px node v) .ok w = some (.ok (), w) :=
    congrArg some (onGuest_found hg)
  have hstatus : environment (.qemuStatus px node v) .ok w = some (.ok "stopped", w) :=
    congrArg some (onGuest_found hg)
  have hdelete : environment (.qemuDelete px node v true) .ok w = some (.ok (), w.without v) :=
    congrArg some (onGuest_found hg)
  have hstopped : Ends environment (stopQemuVm px node v 90) w (.ok ()) w := by
    rw [stopQemuVm, hstrip]
    exact Ends.bind (ends_issue hstop) (Ends.bind (ends_issue hstatus) (.ret _ _))
  rw [destroyQemuVm, hstrip, if_neg hne]
  exact Ends.bind hstopped (Ends.bind (ends_issue hdelete) (.ret _ _))

/-- A guest that can be reclaimed may be destroyed. -/
private theorem reclaimVmid_destroys (hhead : cands.headD "" ≠ "")
    (hstrip : Text.strip (cands.headD "") = cands.headD "") (h : w.Reclaimable cands v) :
    Ends environment (reclaimVmid px cands v) w (.ok ()) (w.without v) := by
  obtain ⟨g, hg, hmarked⟩ := h
  obtain ⟨hkind, -, hat⟩ := marked_guest hg hmarked
  have htype : (g.found v).type = "qemu" := by rw [Guest.found, hkind]; rfl
  have hchecked : Text.strip (g.checkedNode cands v) = g.checkedNode cands v := by
    rw [Guest.checkedNode]
    split_ifs
    · rw [Guest.found, Text.strip_strip]
    · exact hstrip
  have hnode : Text.strip (if (g.found v).node = "" then Text.strip (g.checkedNode cands v)
      else (g.found v).node) = g.checkedNode cands v := by
    by_cases hempty : (g.found v).node = ""
    · rw [if_pos hempty, Text.strip_strip, hchecked]
    · have hsame : g.checkedNode cands v = (g.found v).node := if_pos hempty
      rw [if_neg hempty, ← hsame, hchecked]
  have hdestroy : Ends environment (destroyOwnedQemuVm px (g.checkedNode cands v) v) w
      (.ok "managed") (w.without v) := by
    refine Ends.bind (findGuestResource_obtained hg) ?_
    simp only [htype, hnode]
    refine Ends.bind (qemuIsManaged_yes hmarked) ?_
    exact Ends.bind (destroyQemuVm_ends hchecked (checkedNode_ne hhead g) hat) (.ret _ _)
  exact reclaimVmid_checked hhead hg hmarked hdestroy

/-- Any VMID may be refused: without a listing and a configuration it looks foreign. -/
private theorem reclaimVmid_refuses (hhead : cands.headD "" ≠ "") :
    Ends environment (reclaimVmid px cands v) w (.error (refusedForeign v (cands.headD ""))) w := by
  refine Ends.bind findGuestResource_lost (Ends.bind nodeOrFind_lost ?_)
  dsimp only
  rw [if_neg (not_not.mpr rfl), if_neg hhead]
  exact Ends.bind qemuIsManaged_fault (.raise _ _)

/-- The next occupied VMID may be refused. -/
private theorem reclaimVmids_refuses (hhead : cands.headD "" ≠ "") {inUse : Finset ℤ}
    {vmids : List ℤ} (h : vmids.filter (· ∈ inUse) ≠ []) :
    ∃ e, Ends environment (reclaimVmids px cands inUse vmids) w (.error e) w ∧ e.IsRefusal := by
  induction vmids with
  | nil => exact absurd rfl h
  | cons v rest ih =>
    rw [reclaimVmids]
    by_cases hin : v ∈ inUse
    · rw [if_pos hin]
      exact ⟨_, ends_bind.mpr (.inr ⟨_, rfl, reclaimVmid_refuses hhead⟩),
        v, .inr (.inr ⟨_, rfl⟩)⟩
    · rw [List.filter_cons_of_neg (by simpa using hin)] at h
      rw [if_neg hin]
      exact ih h

/-- A risky batch may lose a guest before it is refused. -/
private theorem reclaimVmids_loses (px : Client) (hhead : cands.headD "" ≠ "")
    (hstrip : Text.strip (cands.headD "") = cands.headD "") (inUse : Finset ℤ) {vmids : List ℤ}
    (h : w.Risky cands (vmids.filter (· ∈ inUse))) :
    ∃ e w', Ends environment (reclaimVmids px cands inUse vmids) w (.error e) w' ∧ e.IsRefusal ∧
      w'.guests ≠ w.guests := by
  induction vmids with
  | nil => exact h.elim
  | cons v rest ih =>
    rw [reclaimVmids]
    by_cases hin : v ∈ inUse
    swap
    · rw [List.filter_cons_of_neg (by simpa using hin)] at h
      rw [if_neg hin]
      exact ih h
    rw [List.filter_cons_of_pos (by simpa using hin)] at h
    rw [if_pos hin]
    cases hus : rest.filter (· ∈ inUse) with
    | nil =>
      rw [hus] at h
      exact h.elim
    | cons u us =>
      rw [hus] at h
      rcases h with hreclaim | ⟨hpass, hrisky⟩
      · obtain ⟨e, hends, href⟩ : ∃ e, Ends environment (reclaimVmids px cands inUse rest)
            (w.without v) (.error e) (w.without v) ∧ e.IsRefusal :=
          reclaimVmids_refuses hhead (hus ▸ List.cons_ne_nil u us)
        refine ⟨e, _, Ends.bind (reclaimVmid_destroys hhead hstrip hreclaim) hends, href, ?_⟩
        obtain ⟨g, hg, -⟩ := hreclaim
        intro hsame
        have hgone := w.guest_without v
        rw [World.guest, hsame, ← World.guest, hg] at hgone
        cases hgone
      · obtain ⟨e, w', hends, hrest⟩ := ih (hus ▸ hrisky)
        exact ⟨e, w', Ends.bind (reclaimVmid_passes hhead hpass) hends, hrest⟩

/-- An endangered batch may be refused after a guest is lost. -/
private theorem enqueueRestores_loses (hdr : req.mode = "dr") (hover : req.overwrite = true)
    (h : w.Endangers req) :
    ∃ e w', Ends environment (enqueueRestores req) w (.error e) w' ∧ e.IsRefusal ∧
      w'.guests ≠ w.guests := by
  obtain ⟨hallowed, hup, vmids, hrows, hnodup, hrisky⟩ := h
  have hcheck : req.check = .ok () := by
    rcases req.check_spec with ⟨hok, -⟩ | ⟨-, -, hrefused⟩
    · exact hok
    · exact absurd hrefused hallowed
  have hown : ∀ inUse, EnqueueRequest.OwnVmids inUse req.overwrite req.rows vmids := fun inUse =>
    ⟨hrows, hnodup, fun hfalse => by rw [hover] at hfalse; cases hfalse⟩
  have hallocate : req.allocate (vmidsOf w.listing) = .ok vmids := by
    rcases req.allocate_dr (vmidsOf w.listing) hdr with ⟨vmids', hok, hown'⟩ | ⟨-, hnone⟩
    · have hsame := hown'.rows_eq.symm.trans hrows
      rw [hok, List.map_injective_iff.mpr (Option.some_injective ℤ) hsame]
    · exact absurd (hown _) (hnone vmids)
  have honly : activeRestoreCountsByNode.Only (· ≠ Op.park) :=
    activeRestoreCountsByNode_only nofun fun _ => nofun
  obtain ⟨out, w₁, hcounts⟩ := exists_run honly w
  obtain ⟨hsame, counts, rfl⟩ := satisfies_iff_ends.mp activeRestoreCountsByNode_spec _ _ hcounts
  subst hsame
  obtain ⟨nodes, storages, hplace, -⟩ := req.place_spec counts hallowed
  obtain ⟨hstrip, hhead⟩ := candidates_head hallowed
  rw [occupied_filter] at hrisky
  obtain ⟨e, w', hends, hrefusal⟩ :=
    reclaimVmids_loses (.enqueue req.planRunId) hhead hstrip _ hrisky
  refine ⟨e, w', ?_, hrefusal⟩
  rw [enqueueRestores, hcheck]
  refine Ends.bind (.ret _ _) (Ends.bind (connect_ends hup) ?_)
  refine Ends.bind (Ends.bind (Ends.attempt (Ends.bind clusterVmResources_obtained (.ret _ _)))
    (.ret _ _)) ?_
  rw [hallocate]
  refine Ends.bind (.ret _ _) (Ends.bind hcounts ?_)
  rw [hplace]
  refine Ends.bind (.ret _ _) (ends_bind.mpr (.inr ⟨e, rfl, ?_⟩))
  rw [reclaimStep, if_pos ⟨hdr, hover⟩]
  exact hends

/-- **Refusals come too late** for a guest of a DR batch with `overwrite` exactly if the batch is
endangered. -/
theorem refusal_spares_iff (hdr : req.mode = "dr") (hover : req.overwrite = true) :
    RefusalSpares w req ↔ ¬ w.Endangers req := by
  constructor
  · intro hall hrisky
    obtain ⟨e, w', hends, href, hlost⟩ := enqueueRestores_loses hdr hover hrisky
    exact hlost (hall e w' hends href).1
  · intro hsafe e w' hends href
    exact satisfies_iff_ends.mp (enqueueRestores_refusal hdr hover hsafe) _ _ hends e rfl href

/-! ### An owned guest before a foreign one -/

/-- A DR restore of these VMIDs, with `overwrite`. -/
def overwriteBatch (vmids : List ℤ) : EnqueueRequest :=
  { rows := vmids.map fun v =>
      { backupId := "b", vmid := some v, pveStorage := "pbs", voltail := "vm/t" }
    node := "pve", targetStorage := "local", vmidStart := 100, liveRestore := false, bwlimit := 0
    restoreMode := "dr", overwrite := true }

/-- A cluster with a guest at VMID 100 that carries the marker, and a foreign one at 101. -/
def mixedWorld : World :=
  { guests := ((∅ : AList _).insert 100
      { kind := .qemu, node := "pve", config := [("tags", "restore-engine")] }).insert 101
      { kind := .qemu, node := "pve" } }

/-- The refusal of VMID 101 comes after the destruction of VMID 100. -/
theorem owned_guest_lost : ¬ RefusalSpares mixedWorld (overwriteBatch [100, 101]) := by
  intro hall
  have hrun : (Program.run environment [] (enqueueRestores (overwriteBatch [100, 101]))
      mixedWorld).map (fun r => (match r.1 with | .error e => some e | .ok _ => none,
        r.2.guest 100)) = some (some (refusedForeign 101 "pve"), none) := by
    decide +kernel
  obtain ⟨out, w', hends, hleft⟩ := exists_ends_of_run hrun
  rw [Prod.mk.injEq] at hleft
  cases out with
  | ok result => cases hleft.1
  | error e =>
    have he : e = refusedForeign 101 "pve" := Option.some.inj hleft.1
    obtain ⟨hguests, -⟩ := hall e w' hends ⟨101, .inr (.inr ⟨"pve", he⟩)⟩
    have hgone := hleft.2
    rw [World.guest, hguests] at hgone
    cases hgone

/-- The other way round the batch is refused before the guest that carries the marker is
destroyed. -/
theorem foreign_guest_first :
    RefusalSpares mixedWorld (overwriteBatch [101, 100]) ∧
      ∃ w', Ends environment (enqueueRestores (overwriteBatch [101, 100])) mixedWorld
        (.error (refusedForeign 101 "pve")) w' ∧ (w'.guest 100).isSome := by
  constructor
  · refine (refusal_spares_iff (by decide) rfl).mpr ?_
    rintro ⟨-, -, vmids, hrows, -, hrisky⟩
    obtain rfl : vmids = [101, 100] :=
      List.map_injective_iff.mpr (Option.some_injective ℤ) (hrows.symm.trans rfl)
    have hunmarked : ∀ node, ¬ mixedWorld.Marked 101 node := by
      rintro node ⟨g, hg, hmarker⟩
      have hguest : mixedWorld.guest 101 = some g := (Option.filter_eq_some_iff.mp hg).1
      obtain rfl : { kind := .qemu, node := "pve" } = g :=
        Option.some.inj ((by rfl : mixedWorld.guest 101 = _).symm.trans hguest)
      exact absurd hmarker (by decide)
    rcases hrisky with ⟨g, -, hmarked⟩ | ⟨hpassable, -⟩
    · exact hunmarked _ hmarked
    · rcases hpassable with hmarked | ⟨g, -, -, hmarked⟩
      · exact hunmarked _ hmarked
      · exact hunmarked _ hmarked
  · have hrun : (Program.run environment [] (enqueueRestores (overwriteBatch [101, 100]))
        mixedWorld).map (fun r => (match r.1 with | .error e => some e | .ok _ => none,
          (r.2.guest 100).isSome)) = some (some (refusedForeign 101 "pve"), true) := by
      decide +kernel
    obtain ⟨out, w', hends, hleft⟩ := exists_ends_of_run hrun
    rw [Prod.mk.injEq] at hleft
    cases out with
    | ok result => cases hleft.1
    | error e =>
      obtain rfl : e = refusedForeign 101 "pve" := Option.some.inj hleft.1
      exact ⟨w', hends, hleft.2⟩

end RestoreEngine
