import Mathlib.Data.List.Perm.Basic
import Mathlib.Data.List.TakeWhile

/-!
# Looking through a window

A list stands in an order, the last element of the order in front, and someone looks for the last
element with a property among the first few elements only. What is found is the last one with the
property exactly if there is none, or if the elements without it that stand in front of all others
leave room in the window (`isLast_find?_take_iff`).
-/

namespace RestoreEngine.Lists

variable {α : Type*} {r : α → α → Bool} {p : α → Bool} {l l' : List α} {n : ℕ}

/-- The element is one of the list that no other one comes after; there is none only if the list is
empty. -/
def IsLast (r : α → α → Bool) (l : List α) : Option α → Prop
  | none => l = []
  | some a => a ∈ l ∧ ∀ b ∈ l, r b a = true

theorem IsLast.of_perm (h : l.Perm l') {a? : Option α} (hlast : IsLast r l a?) :
    IsLast r l' a? := by
  cases a? with
  | none =>
    obtain rfl : l = [] := hlast
    exact h.nil_eq.symm
  | some a => exact ⟨h.mem_iff.mp hlast.1, fun b hb => hlast.2 b (h.mem_iff.mpr hb)⟩

/-- The first element with the property is the last one of the order. -/
theorem isLast_find? (hrefl : ∀ a, r a a = true) (h : l.Pairwise fun a b => r b a = true) :
    IsLast r (l.filter p) (l.find? p) := by
  induction l with
  | nil => exact rfl
  | cons a l ih =>
    obtain ⟨hfirst, hrest⟩ := List.pairwise_cons.mp h
    by_cases ha : p a = true
    · rw [List.find?_cons_of_pos ha, List.filter_cons_of_pos ha]
      refine ⟨List.mem_cons_self, fun b hb => ?_⟩
      rcases List.mem_cons.mp hb with rfl | hb
      · exact hrefl b
      · exact hfirst b (List.mem_filter.mp hb).1
    · rw [List.find?_cons_of_neg ha, List.filter_cons_of_neg ha]
      exact ih hrest

/-- **A window shows the first element with the property** if the elements before it leave room. -/
theorem find?_take (p : α → Bool) (l : List α) (n : ℕ) :
    (l.take n).find? p = if (l.takeWhile (!p ·)).length < n then l.find? p else none := by
  induction l generalizing n with
  | nil =>
    rw [List.take_nil, List.find?_nil]
    split_ifs <;> rfl
  | cons a l ih =>
    cases n with
    | zero => rw [List.take_zero, if_neg (Nat.not_lt_zero _), List.find?_nil]
    | succ n =>
      rw [List.take_succ_cons]
      by_cases ha : p a = true
      · rw [List.find?_cons_of_pos ha, List.find?_cons_of_pos ha,
          List.takeWhile_cons_of_neg (by simp [ha]), if_pos (by simp)]
      · rw [List.find?_cons_of_neg ha, List.find?_cons_of_neg ha, ih,
          List.takeWhile_cons_of_pos (by simp [ha]), List.length_cons]
        exact if_congr Nat.succ_lt_succ_iff.symm rfl rfl

/-- **What the window shows is the last element** with the property exactly if there is none, or if
the elements before it leave room. -/
theorem isLast_find?_take_iff (hrefl : ∀ a, r a a = true)
    (h : l.Pairwise fun a b => r b a = true) :
    IsLast r (l.filter p) ((l.take n).find? p) ↔
      l.filter p = [] ∨ (l.takeWhile (!p ·)).length < n := by
  rw [find?_take]
  split_ifs with hroom
  · exact iff_of_true (isLast_find? hrefl h) (.inr hroom)
  · exact ⟨fun hnone => .inl hnone, fun hor => hor.resolve_right hroom⟩

end RestoreEngine.Lists
