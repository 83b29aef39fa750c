import RestoreEngine.Effects.Pool

/-!
# What programs hold

Programs of a pool may hold things of which there is only one each: a fresh identifier, an entry
taken from a queue. `hold m` is what a program with the view `m` holds. The lemmas say when nobody
comes to hold what another one holds (`Exclusive`), and when all that is held has a property
(`HeldAll`), as one program moves.
-/

namespace Effects

variable {M X ι : Type} [DecidableEq ι] {hold : M → Option X} {v : ι → M} {i : ι} {m : M}
  {P P' : X → Prop}

/-- **Exclusive holdings**: nothing is held by two programs. -/
def Exclusive (hold : M → Option X) (v : ι → M) : Prop :=
  ∀ i j x, hold (v i) = some x → hold (v j) = some x → i = j

/-- All that is held satisfies `P`. -/
def HeldAll (hold : M → Option X) (P : X → Prop) (v : ι → M) : Prop :=
  ∀ i x, hold (v i) = some x → P x

/-- A program comes to hold what nobody else holds. -/
theorem Exclusive.acquire (h : Exclusive hold v)
    (hm : ∀ x, hold m = some x → ∀ j, j ≠ i → hold (v j) ≠ some x) :
    Exclusive hold (Function.update v i m) := by
  intro j j' x hj hj'
  by_cases hji : j = i <;> by_cases hji' : j' = i
  · exact hji.trans hji'.symm
  · subst hji
    rw [Function.update_self] at hj
    rw [Function.update_of_ne hji'] at hj'
    exact absurd hj' (hm x hj j' hji')
  · subst hji'
    rw [Function.update_self] at hj'
    rw [Function.update_of_ne hji] at hj
    exact absurd hj (hm x hj' j hji)
  · rw [Function.update_of_ne hji] at hj
    rw [Function.update_of_ne hji'] at hj'
    exact h j j' x hj hj'

/-- A program goes on holding what it holds, or lets it go. -/
theorem Exclusive.retain (h : Exclusive hold v)
    (hm : ∀ x, hold m = some x → hold (v i) = some x) :
    Exclusive hold (Function.update v i m) :=
  h.acquire fun x hx j hj hjx => hj (h j i x hjx (hm x hx))

/-- The program that moves holds what satisfies the property, and the others what did. -/
theorem HeldAll.update (h : HeldAll hold P v) (hm : ∀ x, hold m = some x → P' x)
    (hothers : ∀ j x, j ≠ i → hold (v j) = some x → P x → P' x) :
    HeldAll hold P' (Function.update v i m) := by
  intro j x hj
  by_cases hji : j = i
  · subst hji
    rw [Function.update_self] at hj
    exact hm x hj
  · rw [Function.update_of_ne hji] at hj
    exact hothers j x hji hj (h j x hj)

/-- The program that moves lets go of what it holds, or goes on holding it. -/
theorem HeldAll.retain (h : HeldAll hold P v) (hm : ∀ x, hold m = some x → hold (v i) = some x)
    (himp : ∀ x, P x → P' x) : HeldAll hold P' (Function.update v i m) :=
  h.update (fun x hx => himp x (h i x (hm x hx))) fun _ _ _ _ hP => himp _ hP

end Effects
