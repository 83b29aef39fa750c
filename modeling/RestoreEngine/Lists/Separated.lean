import Mathlib.Data.List.Basic

/-!
# Lists joined by a separator

Two lists are joined with a separator between them. The result does not tell what they were, for
the separator may occur in them: there is the case that one left part continues the other by the
separator and the beginning of the other's right part (`join_eq_join_iff`).
-/

namespace RestoreEngine.Lists

variable {α : Type} {sep : α} {l l' r r' : List α}

/-- The left part goes on beyond the separator, into the right part. -/
private theorem append_of_append {c : List α} (h : sep :: r = c ++ sep :: r') :
    (c = [] ∧ r = r') ∨ ∃ x, c = sep :: x ∧ r = x ++ sep :: r' := by
  cases c with
  | nil => exact Or.inl ⟨rfl, (List.cons.inj h).2⟩
  | cons a x =>
    obtain ⟨rfl, hr⟩ := List.cons.inj h
    exact Or.inr ⟨x, rfl, hr⟩

/-- **When two joins are the same.** -/
theorem join_eq_join_iff : l ++ sep :: r = l' ++ sep :: r' ↔
    (l = l' ∧ r = r') ∨ (∃ x, l' = l ++ sep :: x ∧ r = x ++ sep :: r') ∨
      ∃ x, l = l' ++ sep :: x ∧ r' = x ++ sep :: r := by
  constructor
  · intro h
    rcases List.append_eq_append_iff.mp h with ⟨c, rfl, hc⟩ | ⟨c, rfl, hc⟩
    · rcases append_of_append hc with ⟨rfl, hr⟩ | ⟨x, rfl, hr⟩
      · exact Or.inl ⟨(List.append_nil l).symm, hr⟩
      · exact Or.inr (Or.inl ⟨x, rfl, hr⟩)
    · rcases append_of_append hc with ⟨rfl, hr⟩ | ⟨x, rfl, hr⟩
      · exact Or.inl ⟨List.append_nil l', hr.symm⟩
      · exact Or.inr (Or.inr ⟨x, rfl, hr⟩)
  · rintro (⟨rfl, rfl⟩ | ⟨x, rfl, rfl⟩ | ⟨x, rfl, rfl⟩)
    · rfl
    · rw [List.append_assoc, List.cons_append]
    · rw [List.append_assoc, List.cons_append]

/-- The separator tells two lists apart if it does not occur in the left ones. -/
theorem join_inj (hl : sep ∉ l) (hl' : sep ∉ l') :
    l ++ sep :: r = l' ++ sep :: r' ↔ l = l' ∧ r = r' := by
  rw [join_eq_join_iff]
  refine ⟨?_, Or.inl⟩
  rintro (h | ⟨x, rfl, -⟩ | ⟨x, rfl, -⟩)
  · exact h
  · exact absurd (List.mem_append_right l List.mem_cons_self) hl'
  · exact absurd (List.mem_append_right l' List.mem_cons_self) hl

/-- The separator tells two lists apart if it does not occur in the right ones. -/
theorem join_inj_right (hr : sep ∉ r) (hr' : sep ∉ r') :
    l ++ sep :: r = l' ++ sep :: r' ↔ l = l' ∧ r = r' := by
  rw [join_eq_join_iff]
  refine ⟨?_, Or.inl⟩
  rintro (h | ⟨x, -, rfl⟩ | ⟨x, -, rfl⟩)
  · exact h
  · exact absurd (List.mem_append_right x List.mem_cons_self) hr
  · exact absurd (List.mem_append_right x List.mem_cons_self) hr'

end RestoreEngine.Lists
