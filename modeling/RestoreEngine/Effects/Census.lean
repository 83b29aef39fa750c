import RestoreEngine.Effects.Pool
import Mathlib.Data.Set.Card

/-!
# Counting the programs of a pool

`census p v` are the programs whose view satisfies `p`. A step of a pool replaces one view, so
that it leaves a census alone, or adds the program that moves, or takes it out; the lemmas of
this file say what each does to the size of a census.
-/

namespace Effects

variable {M ι : Type} [DecidableEq ι] {p : M → Prop} {v : ι → M} {i : ι} {m : M}

/-- The programs whose view satisfies `p`. -/
def census (p : M → Prop) (v : ι → M) : Set ι := {i | p (v i)}

omit [DecidableEq ι] in
@[simp] theorem mem_census : i ∈ census p v ↔ p (v i) := Iff.rfl

/-- The view of the program that moves satisfies `p` as much as before. -/
theorem census_update_same (h : p m ↔ p (v i)) :
    census p (Function.update v i m) = census p v := by
  ext j
  by_cases hj : j = i
  · subst hj
    simpa using h
  · simp [hj]

/-- The program that moves comes to satisfy `p`. -/
theorem census_update_enter (h : p m) :
    census p (Function.update v i m) = insert i (census p v) := by
  ext j
  by_cases hj : j = i
  · subst hj
    simpa using h
  · simp [hj]

/-- The program that moves ceases to satisfy `p`. -/
theorem census_update_leave (h : ¬ p m) :
    census p (Function.update v i m) = census p v \ {i} := by
  ext j
  by_cases hj : j = i
  · subst hj
    simpa using h
  · simp [hj]

theorem finite_census_update (h : (census p v).Finite) :
    (census p (Function.update v i m)).Finite := by
  refine (h.insert i).subset fun j hj => ?_
  by_cases hij : j = i
  · exact .inl hij
  · exact .inr (by simpa [hij] using hj)

theorem ncard_census_enter (hfin : (census p v).Finite) (hold : ¬ p (v i)) (hnew : p m) :
    (census p (Function.update v i m)).ncard = (census p v).ncard + 1 := by
  rw [census_update_enter hnew]
  exact Set.ncard_insert_of_notMem hold hfin

theorem ncard_census_leave (hfin : (census p v).Finite) (hold : p (v i)) (hnew : ¬ p m) :
    (census p (Function.update v i m)).ncard + 1 = (census p v).ncard := by
  rw [census_update_leave hnew]
  exact Set.ncard_sdiff_singleton_add_one hold hfin

end Effects
