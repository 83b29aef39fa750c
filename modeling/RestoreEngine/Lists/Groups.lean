import Mathlib.Data.List.Nodup

/-!
# Lists of lists

What becomes of the members of a list of lists when one of its lists is replaced.
-/

namespace RestoreEngine.Lists

variable {α : Type} {L : List (List α)} {new : List α} {k : ℕ} {x : α}

theorem mem_flatten_set (hx : x ∈ (L.set k new).flatten) : x ∈ new ∨ x ∈ L.flatten := by
  obtain ⟨l, hl, hxl⟩ := List.mem_flatten.mp hx
  rcases List.mem_or_eq_of_mem_set hl with hl | rfl
  · exact .inr (List.mem_flatten.mpr ⟨l, hl, hxl⟩)
  · exact .inl hxl

/-- Nothing occurs twice after one of the lists has been replaced by something new. -/
theorem nodup_flatten_set (hL : L.flatten.Nodup) (hnew : new.Nodup)
    (hdisjoint : ∀ x ∈ new, x ∉ L.flatten) : (L.set k new).flatten.Nodup := by
  induction L generalizing k with
  | nil => exact hL
  | cons l L ih =>
    rw [List.flatten_cons, List.nodup_append] at hL
    obtain ⟨hl, hL, hsep⟩ := hL
    have hleft : ∀ x ∈ new, x ∉ l := fun x hx hxl => hdisjoint x hx (List.mem_append_left _ hxl)
    have hright : ∀ x ∈ new, x ∉ L.flatten := fun x hx hxL =>
      hdisjoint x hx (List.mem_append_right _ hxL)
    cases k with
    | zero =>
      rw [List.set_cons_zero, List.flatten_cons, List.nodup_append]
      refine ⟨hnew, hL, ?_⟩
      rintro x hx _ hy rfl
      exact hright x hx hy
    | succ k =>
      rw [List.set_cons_succ, List.flatten_cons, List.nodup_append]
      refine ⟨hl, ih hL hright, ?_⟩
      rintro x hx _ hy rfl
      rcases mem_flatten_set hy with hy | hy
      · exact hleft x hy hx
      · exact hsep x hx x hy rfl

/-- The members of the list at `j` after the list at `k` has been replaced. -/
theorem mem_getD_set {j : ℕ} (hx : x ∈ (L.set k new).getD j []) :
    (j = k ∧ x ∈ new) ∨ x ∈ L.getD j [] := by
  rw [List.getD_eq_getElem?_getD, List.getElem?_set] at hx
  rw [List.getD_eq_getElem?_getD]
  split_ifs at hx with hjk hlt
  · exact .inl ⟨hjk.symm, hx⟩
  · exact absurd hx List.not_mem_nil
  · exact .inr hx

theorem mem_flatten_iff_getD : x ∈ L.flatten ↔ ∃ j, x ∈ L.getD j [] := by
  constructor
  · intro hx
    obtain ⟨l, hl, hxl⟩ := List.mem_flatten.mp hx
    obtain ⟨j, hj, rfl⟩ := List.getElem_of_mem hl
    refine ⟨j, ?_⟩
    rwa [List.getD_eq_getElem?_getD, List.getElem?_eq_getElem hj]
  · rintro ⟨j, hx⟩
    rw [List.getD_eq_getElem?_getD] at hx
    cases hj : L[j]? with
    | none =>
      rw [hj] at hx
      exact absurd hx List.not_mem_nil
    | some l =>
      rw [hj] at hx
      exact List.mem_flatten.mpr ⟨l, List.mem_of_getElem? hj, hx⟩

end RestoreEngine.Lists
