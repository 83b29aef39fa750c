import RestoreEngine.Model.PveClient

/-!
# The cluster listing

What the helpers of `pve_client.py` read off a listing that was obtained: it names exactly
the guests of the cluster.
-/

namespace RestoreEngine

variable {w : World} {v : ℤ}

private theorem text_normal (k : GuestKind) :
    Text.lower (Text.strip k.text) = k.text ∧ k.text ≠ "" := by
  cases k <;> decide

/-- The listing finds a VMID as the guests do. -/
private theorem find?_resources (l : List (Sigma fun _ : ℤ => Guest)) (v : ℤ) :
    (l.map fun e => e.2.resource e.1).find? (fun row => row.vmid == some v) =
      (l.dlookup v).map fun g => g.resource v := by
  induction l with
  | nil => rfl
  | cons e rest ih =>
    obtain ⟨v', g⟩ := e
    by_cases he : v' = v
    · subst he
      simp [Guest.resource]
    · rw [List.map_cons, List.find?_cons_of_neg (by simpa [Guest.resource] using he), ih,
        List.dlookup_cons_ne _ _ (Ne.symm he)]

/-- What `find_guest_resource` makes of a guest. -/
def Guest.found (g : Guest) (vmid : ℤ) : Resource :=
  { type := g.kind.text, vmid := some vmid
    node := Text.strip (if g.nodeListed then g.node else "") }

/-- **The listing finds the guests.** -/
theorem findIn_listing : findIn w.listing v = (w.guest v).map fun g => g.found v := by
  rw [findIn, World.listing, find?_resources, Option.map_map]
  refine congrArg (Option.map · _) (funext fun g => ?_)
  have hk := text_normal g.kind
  simp [Guest.resource, Guest.found, hk.1, hk.2]

/-- **The listing is complete.** The VMIDs in use are those of the guests. -/
theorem mem_vmidsOf_listing : v ∈ vmidsOf w.listing ↔ w.guest v ≠ none := by
  have hrow : ∀ e : Sigma fun _ : ℤ => Guest,
      (if Text.lower (Text.strip (e.2.resource e.1).type) ≠ "" ∧
          Text.lower (Text.strip (e.2.resource e.1).type) ∉ ["qemu", "lxc"] then none
        else (e.2.resource e.1).vmid) = some e.1 := by
    rintro ⟨v', g⟩
    rw [if_neg]
    · rfl
    · cases hk : g.kind <;> simp [Guest.resource, hk] <;> decide
  rw [vmidsOf, List.mem_toFinset, World.listing, List.filterMap_map]
  simp only [Function.comp_def, hrow, List.mem_filterMap, Option.some.injEq]
  rw [World.guest, ne_eq, AList.lookup_eq_none, not_not, AList.mem_keys, AList.keys, List.keys,
    List.mem_map]

/-- Nothing is in use according to an empty listing. -/
@[simp] theorem vmidsOf_nil : vmidsOf [] = ∅ := rfl

end RestoreEngine
