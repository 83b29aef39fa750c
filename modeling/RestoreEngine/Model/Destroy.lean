import RestoreEngine.Model.Footprints
import RestoreEngine.Model.Listing

/-!
# Destroying guests

What the guarded destruction of a guest does to the cluster when nobody else acts: the guest
disappears, or nothing happens; and it disappears only if it carries the ownership marker
(`destroyOwnedQemuVm_spec`), unless provenance stands in for the marker.
-/

namespace RestoreEngine

open Effects Prog Program

variable {w w' : World} {px : Client} {node : String} {v : ℤ}

/-! ### Guests disappear -/

/-- Nothing happens but that guests disappear. -/
def World.Shrinks (w w' : World) : Prop :=
  ∃ guests, w' = { w with guests } ∧ ∀ v g, w'.guest v = some g → w.guest v = some g

theorem World.Shrinks.refl (w : World) : w.Shrinks w := ⟨w.guests, rfl, fun _ _ h => h⟩

theorem World.Shrinks.trans {w w' w'' : World} (h : w.Shrinks w') (h' : w'.Shrinks w'') :
    w.Shrinks w'' := by
  obtain ⟨guests, rfl, hg⟩ := h
  obtain ⟨guests', rfl, hg'⟩ := h'
  exact ⟨guests', rfl, fun v g hv => hg v g (hg' v g hv)⟩

/-- The world without the guest at a VMID. -/
def World.without (w : World) (v : ℤ) : World := { w with guests := w.guests.erase v }

@[simp] theorem World.guest_without (w : World) (v : ℤ) : (w.without v).guest v = none :=
  AList.lookup_erase _ _

theorem World.guest_without_ne (w : World) {u v : ℤ} (h : u ≠ v) :
    (w.without v).guest u = w.guest u :=
  AList.lookup_erase_ne h

theorem World.shrinks_without (w : World) (v : ℤ) : w.Shrinks (w.without v) := by
  refine ⟨_, rfl, fun u g hu => ?_⟩
  by_cases h : u = v
  · subst h
    rw [World.guest_without] at hu
    cases hu
  · rwa [World.guest_without_ne w h] at hu

theorem Op.OfDestroy.shrinks {o : Op} (ho : o.OfDestroy px v) {a : Answer} {r : o.Res}
    (h : environment o a w = some (r, w')) : w.Shrinks w' := by
  have hself : w.Shrinks w := .refl w
  cases o with
  | clusterResources _ =>
    have hw' : _ = w' := congrArg Prod.snd (Option.some.inj h)
    exact hw' ▸ hself
  | qemuConfig _ _ _ | qemuStop _ _ _ | qemuStatus _ _ _ =>
    have hw' : _ = w' := congrArg Prod.snd (Option.some.inj h)
    exact hw' ▸ onGuest_world (P := w.Shrinks) hself fun _ _ => hself
  | qemuDelete _ _ u _ =>
    have hw' : _ = w' := congrArg Prod.snd (Option.some.inj h)
    exact hw' ▸ onGuest_world (P := w.Shrinks) hself fun _ _ => w.shrinks_without u
  | _ => exact ho.elim

/-- A program that only looks up and destroys guests. -/
theorem shrinks_of_only {α : Type} {p : Prog α}
    (hp : p.Only fun o : Op => ∃ v, o.OfDestroy px v) :
    Satisfies environment.machine (fun _ w' => w.Shrinks w') w p := by
  refine hp.satisfies (.refl w) (fun _ _ _ _ => trivial) ?_
  rintro s o r s' ⟨v, ho⟩ hs ⟨a, ha⟩
  exact hs.trans (ho.shrinks ha)

/-! ### The marker -/

/-- There is a QEMU guest at the VMID, on this node, and it carries the ownership marker. -/
def World.Marked (w : World) (v : ℤ) (node : String) : Prop :=
  ∃ g, w.qemuAt node v = some g ∧ carriesMarker g.config = true

/-- A request on a guest that succeeds had its effect on the guest. -/
theorem onGuest_ok {α : Type} {a : Answer} {effect : Guest → Except Exn α × World} {x : α}
    (h : (onGuest w node v a effect).1 = .ok x) :
    ∃ g, w.qemuAt node v = some g ∧ onGuest w node v a effect = effect g := by
  rw [onGuest.eq_def] at h ⊢
  split at h
  · cases h
  · cases h
  · split at h <;> cases h
  · split at h
    · next g hg => exact ⟨g, hg, rfl⟩
    · cases h

/-- The ownership check looks, and answers yes only for a marked guest. -/
theorem qemuIsManagedByTool_spec :
    Satisfies environment.machine
      (fun out w' => w' = w ∧ ∃ b, out = .ok b ∧ (b = true → w.Marked v node)) w
      (qemuIsManagedByTool px node v) := by
  rw [qemuIsManagedByTool, satisfies_bind, satisfies_attempt, getQemuConfig, satisfies_bind,
    satisfies_issue_iff]
  intro a r w' h
  have hr : onGuest w node v a (fun g => (.ok g.config, w)) = (r, w') := Option.some.inj h
  have hw : w' = w := by
    have hsame : (onGuest w node v a fun g => (.ok g.config, w)).2 = w :=
      onGuest_world (P := (· = w)) rfl fun _ _ => rfl
    rw [← hsame, hr]
  subst hw
  rw [then_ok, satisfies_ofExcept, then_ok]
  cases r with
  | error e => exact satisfies_ret.mpr ⟨rfl, false, rfl, nofun⟩
  | ok cfg =>
    obtain ⟨g, hg, heffect⟩ := onGuest_ok (congrArg Prod.fst hr)
    have hcfg : g.config = cfg :=
      Except.ok.inj (congrArg Prod.fst (heffect.symm.trans hr))
    exact satisfies_ret.mpr ⟨rfl, _, rfl, fun hmarked => ⟨g, hg, hcfg ▸ hmarked⟩⟩

/-! ### The destruction -/

private theorem destroyQemuVm_spec :
    Satisfies environment.machine (fun _ w' => w' = w ∨ w' = w.without v) w
      (destroyQemuVm px node v) := by
  refine destroyQemuVm_only.satisfies (.inl rfl) (fun _ _ _ _ => trivial) ?_
  rintro s o r s' ho hs ⟨a, ha⟩
  have hself : s = w ∨ s = w.without v := hs
  -- once the guest is gone, there is nothing to delete
  have hgone : ∀ node, (w.without v).qemuAt node v = none := fun node => by
    rw [World.qemuAt, World.guest_without]
    rfl
  cases o with
  | clusterResources _ =>
    have hs' : _ = s' := congrArg Prod.snd (Option.some.inj ha)
    exact hs' ▸ hself
  | qemuConfig _ _ _ | qemuStop _ _ _ | qemuStatus _ _ _ =>
    have hs' : _ = s' := congrArg Prod.snd (Option.some.inj ha)
    exact hs' ▸ onGuest_world (P := fun u => u = w ∨ u = w.without v) hself fun _ _ => hself
  | qemuDelete _ _ u _ =>
    obtain ⟨-, rfl⟩ := ho
    have hs' : _ = s' := congrArg Prod.snd (Option.some.inj ha)
    refine hs' ▸ onGuest_world (P := fun x => x = w ∨ x = w.without u) hself fun g hg => ?_
    rcases hself with rfl | rfl
    · exact .inr rfl
    · rw [hgone] at hg
      cases hg
  | _ => exact ho.elim

/-- The node at which an owned guest is destroyed: the one that the listing names, or else the
one asked for. -/
def Guest.nodeFor (g : Guest) (v : ℤ) (node : String) : String :=
  Text.strip (if (g.found v).node = "" then Text.strip node else (g.found v).node)

/-- **The guarded destruction** leaves the cluster alone, or it removes a guest that carries the
marker. -/
theorem destroyOwnedQemuVm_spec :
    Satisfies environment.machine
      (fun _ w' => w' = w ∨ (w' = w.without v ∧
        ∃ g, w.guest v = some g ∧ w.Marked v (g.nodeFor v node))) w
      (destroyOwnedQemuVm px node v) := by
  simp only [destroyOwnedQemuVm, findGuestResource, satisfies_bind, satisfies_clusterVmResources,
    then_ok, pure_eq_ret, satisfies_ret, findIn_listing]
  refine ⟨?_, satisfies_ret.mpr (.inl rfl)⟩
  cases hg : w.guest v with
  | none => exact satisfies_ret.mpr (.inl rfl)
  | some g =>
    rw [Option.map_some]
    refine Satisfies.ite (fun _ => satisfies_raise.mpr (.inl rfl)) fun _ => ?_
    refine Satisfies.ite (fun _ => satisfies_raise.mpr (.inl rfl)) fun _ => ?_
    refine qemuIsManagedByTool_spec.bind ?_ (by rintro e w' ⟨-, _, h, -⟩; cases h)
    rintro managed w ⟨rfl, b, hb, hmarked⟩
    obtain rfl := Except.ok.inj hb
    refine Satisfies.ite (fun hyes => ?_) fun _ => ?_
    · refine destroyQemuVm_spec.bind ?_ ?_
      · rintro _ w' (rfl | rfl)
        · exact satisfies_ret.mpr (.inl rfl)
        · exact satisfies_ret.mpr (.inr ⟨rfl, g, rfl, hmarked hyes⟩)
      · rintro _ w' (rfl | rfl)
        · exact .inl rfl
        · exact .inr ⟨rfl, g, rfl, hmarked hyes⟩
    · rw [if_neg Bool.false_ne_true]
      exact satisfies_raise.mpr (.inl rfl)

end RestoreEngine
