import Mathlib.Data.List.Nodup
import RestoreEngine.Model.Destroy
import RestoreEngine.Model.Rules

/-!
# Reading and changing the configuration of a guest

A successful `get_qemu_config` returns the options of the guest, a successful PUT replaces the
named ones and leaves the others alone. Configurations are dictionaries: no option is there twice
(`GuestConfig.Keyed`).
-/

namespace RestoreEngine

open Effects Prog Program

variable {w w' : World} {px : Client} {node : String} {v : ℤ} {cfg changes : GuestConfig}
  {key value : String}

/-- No option is there twice. -/
def GuestConfig.Keyed (cfg : GuestConfig) : Prop := (cfg.map Prod.fst).Nodup

/-! ### Changed options -/

/-- An option is set: it moves to the end. -/
private def setOption (cfg : GuestConfig) (kv : String × String) : GuestConfig :=
  (cfg.filter fun e => e.1 ≠ kv.1) ++ [kv]

private theorem lookup_filter_ne (cfg : GuestConfig) {k : String} (h : key ≠ k) :
    (cfg.filter fun e => e.1 ≠ k).lookup key = cfg.lookup key := by
  induction cfg with
  | nil => rfl
  | cons e rest ih =>
    obtain ⟨k', value⟩ := e
    by_cases hk : k' = k
    · subst hk
      rw [List.filter_cons_of_neg (by simp), ih, List.lookup_cons, beq_false_of_ne h]
    · rw [List.filter_cons_of_pos (by simpa using hk), List.lookup_cons, List.lookup_cons, ih]

private theorem lookup_filter_self (cfg : GuestConfig) (k : String) :
    (cfg.filter fun e => e.1 ≠ k).lookup k = none := by
  rw [List.lookup_eq_none_iff]
  intro e he
  exact bne_iff_ne.mpr (Ne.symm (of_decide_eq_true (List.mem_filter.mp he).2))

private theorem lookup_setOption (cfg : GuestConfig) (kv : String × String) (key : String) :
    (setOption cfg kv).lookup key = if key = kv.1 then some kv.2 else cfg.lookup key := by
  rw [setOption, List.lookup_append]
  split_ifs with h
  · subst h
    rw [lookup_filter_self, Option.none_or, List.lookup_cons, beq_self_eq_true]
  · rw [lookup_filter_ne cfg h, List.lookup_cons, beq_false_of_ne h, List.lookup_nil,
      Option.or_none]

private theorem keyed_setOption (h : cfg.Keyed) (kv : String × String) :
    GuestConfig.Keyed (setOption cfg kv) := by
  rw [GuestConfig.Keyed, setOption, List.map_append]
  refine List.Nodup.append (h.sublist (List.Sublist.map _ List.filter_sublist))
    (List.nodup_singleton _) ?_
  intro k hk hkv
  obtain ⟨e, he, rfl⟩ := List.mem_map.mp hk
  exact of_decide_eq_true (List.mem_filter.mp he).2 (List.mem_singleton.mp hkv)

private theorem putOptions_eq_foldl (cfg changes : GuestConfig) :
    World.putOptions cfg changes = changes.foldl setOption cfg := rfl

/-- **The options after a change.** -/
theorem lookup_putOptions (hchanges : changes.Keyed) (key : String) :
    (World.putOptions cfg changes).lookup key = (changes.lookup key).or (cfg.lookup key) := by
  rw [putOptions_eq_foldl]
  induction changes generalizing cfg with
  | nil => rfl
  | cons kv rest ih =>
    obtain ⟨hnew, hrest⟩ := List.nodup_cons.mp hchanges
    rw [List.foldl_cons, ih hrest, lookup_setOption, List.lookup_cons]
    by_cases hkey : key = kv.1
    · -- the option is not set again
      have hnone : rest.lookup key = none := by
        rw [List.lookup_eq_none_iff]
        intro e he
        rw [bne_iff_ne, hkey]
        intro h
        exact hnew (h ▸ List.mem_map_of_mem he)
      rw [hnone, if_pos hkey, hkey, beq_self_eq_true, Option.none_or]
      rfl
    · rw [if_neg hkey, beq_false_of_ne hkey]

theorem keyed_putOptions (h : cfg.Keyed) (changes : GuestConfig) :
    GuestConfig.Keyed (World.putOptions cfg changes) := by
  rw [putOptions_eq_foldl]
  induction changes generalizing cfg with
  | nil => exact h
  | cons kv rest ih => exact ih (keyed_setOption h kv)

/-! ### The requests -/

/-- The world with another configuration of a guest. -/
def World.configure (w : World) (v : ℤ) (g : Guest) (config : GuestConfig) : World :=
  { w with guests := w.guests.insert v { g with config } }

@[simp] theorem World.guest_configure (w : World) (v : ℤ) (g : Guest) (config : GuestConfig) :
    (w.configure v g config).guest v = some { g with config } :=
  AList.lookup_insert w.guests

theorem World.qemuAt_configure {g : Guest} (hg : w.qemuAt node v = some g) (config : GuestConfig) :
    (w.configure v g config).qemuAt node v = some { g with config } := by
  rw [World.qemuAt, World.guest_configure, Option.filter_some]
  exact if_pos (Option.filter_eq_some_iff.mp hg).2

/-- A configuration that is read is that of the guest. -/
theorem getQemuConfig_ok (h : Ends environment (getQemuConfig px node v) w (.ok cfg) w') :
    w' = w ∧ ∃ g, w.qemuAt node v = some g ∧ g.config = cfg := by
  refine h.post (Q := fun out w' => w' = w ∧ ∀ cfg, out = .ok cfg →
    ∃ g, w.qemuAt node v = some g ∧ g.config = cfg) ?_ |>.imp_right fun h => h cfg rfl
  rw [getQemuConfig, satisfies_bind, satisfies_issue_iff]
  intro a r w' ha
  have hr : onGuest w node v a (fun g => (.ok g.config, w)) = (r, w') := Option.some.inj ha
  have hw : w' = w := by
    have hsame : (onGuest w node v a fun g => (.ok g.config, w)).2 = w :=
      onGuest_world (P := (· = w)) rfl fun _ _ => rfl
    rw [← hsame, hr]
  rw [then_ok, satisfies_ofExcept]
  refine ⟨hw, fun cfg hcfg => ?_⟩
  obtain ⟨g, hg, heffect⟩ := onGuest_ok ((congrArg Prod.fst hr).trans hcfg)
  exact ⟨g, hg, Except.ok.inj ((congrArg Prod.fst (heffect.symm.trans hr)).trans hcfg)⟩

/-- A change that succeeds has been made. -/
theorem putQemuConfig_ok
    (h : Ends environment (issue (.qemuConfigPut px node v changes) >>= Program.ofExcept) w
      (.ok ()) w') :
    ∃ g, w.qemuAt node v = some g ∧ w' = w.configure v g (World.putOptions g.config changes) := by
  refine h.post (Q := fun out w' => out = .ok () → ∃ g, w.qemuAt node v = some g ∧
    w' = w.configure v g (World.putOptions g.config changes)) ?_ rfl
  rw [satisfies_bind, satisfies_issue_iff]
  intro a r w' ha
  have hr : onGuest w node v a (fun g => (.ok (),
      w.configure v g (World.putOptions g.config changes))) = (r, w') := Option.some.inj ha
  rw [then_ok, satisfies_ofExcept]
  intro hok
  obtain ⟨g, hg, heffect⟩ := onGuest_ok ((congrArg Prod.fst hr).trans hok)
  exact ⟨g, hg, (congrArg Prod.snd (heffect.symm.trans hr)).symm⟩

end RestoreEngine
