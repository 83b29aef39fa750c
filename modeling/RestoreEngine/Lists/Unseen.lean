import Mathlib.Data.List.Basic

/-!
# The first of every key

A loop runs over a list and keeps the elements whose keys it has not seen before. What it keeps are
elements with distinct keys, and one for each key that is there.
-/

namespace RestoreEngine.Lists

variable {α κ : Type} [DecidableEq κ] {key : α → κ} {seen : List κ} {l : List α} {a : α}

/-- The elements whose keys were not seen before, the first one of each key. -/
def keepUnseen (key : α → κ) (seen : List κ) : List α → List α
  | [] => []
  | a :: rest =>
    if key a ∈ seen then keepUnseen key seen rest else a :: keepUnseen key (key a :: seen) rest

theorem keepUnseen_sublist (key : α → κ) (seen : List κ) (l : List α) :
    (keepUnseen key seen l).Sublist l := by
  induction l generalizing seen with
  | nil => exact .slnil
  | cons a l ih =>
    rw [keepUnseen]
    split_ifs with hseen
    · exact (ih seen).cons a
    · exact (ih _).cons_cons a

theorem key_notMem_of_mem_keepUnseen (h : a ∈ keepUnseen key seen l) : key a ∉ seen := by
  induction l generalizing seen with
  | nil => exact absurd h List.not_mem_nil
  | cons b l ih =>
    rw [keepUnseen] at h
    split_ifs at h with hseen
    · exact ih h
    · rcases List.mem_cons.mp h with rfl | h
      · exact hseen
      · exact fun hmem => ih h (List.mem_cons_of_mem _ hmem)

/-- **The keys are distinct.** -/
theorem nodup_keepUnseen (key : α → κ) (seen : List κ) (l : List α) :
    ((keepUnseen key seen l).map key).Nodup := by
  induction l generalizing seen with
  | nil => exact List.nodup_nil
  | cons a l ih =>
    rw [keepUnseen]
    split_ifs with hseen
    · exact ih seen
    · rw [List.map_cons, List.nodup_cons]
      refine ⟨fun hmem => ?_, ih _⟩
      obtain ⟨b, hb, heq⟩ := List.mem_map.mp hmem
      exact key_notMem_of_mem_keepUnseen hb (heq ▸ List.mem_cons_self)

/-- **Every key is kept**, unless it was seen before. -/
theorem exists_mem_keepUnseen (h : a ∈ l) :
    key a ∈ seen ∨ ∃ b ∈ keepUnseen key seen l, key b = key a := by
  induction l generalizing seen with
  | nil => exact absurd h List.not_mem_nil
  | cons c l ih =>
    rw [keepUnseen]
    split_ifs with hseen
    · rcases List.mem_cons.mp h with rfl | h
      · exact .inl hseen
      · exact ih h
    · rcases List.mem_cons.mp h with rfl | h
      · exact .inr ⟨a, List.mem_cons_self, rfl⟩
      · rcases ih h with hmem | ⟨b, hb, heq⟩
        · rcases List.mem_cons.mp hmem with hmem | hmem
          · exact .inr ⟨c, List.mem_cons_self, hmem.symm⟩
          · exact .inl hmem
        · exact .inr ⟨b, List.mem_cons_of_mem _ hb, heq⟩

/-- Where no key comes twice, nothing is dropped. -/
theorem keepUnseen_eq_self (hnodup : (l.map key).Nodup) (hseen : ∀ a ∈ l, key a ∉ seen) :
    keepUnseen key seen l = l := by
  induction l generalizing seen with
  | nil => rfl
  | cons a l ih =>
    obtain ⟨hnew, hrest⟩ := List.nodup_cons.mp hnodup
    rw [keepUnseen, if_neg (hseen a List.mem_cons_self), ih hrest]
    intro b hb hmem
    rcases List.mem_cons.mp hmem with heq | hmem
    · exact hnew (heq ▸ List.mem_map_of_mem hb)
    · exact hseen b (List.mem_cons_of_mem _ hb) hmem

end RestoreEngine.Lists
