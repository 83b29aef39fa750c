import Mathlib.Data.Finset.Lattice.Fold
import Mathlib.Data.Finset.Dedup
import Mathlib.Data.Multiset.Count
import Mathlib.Order.Lattice.Nat

/-!
# Balanced assignments

Jobs are assigned to nodes that already carry a load. An assignment that gives every job to a
node of least load at that moment (`Greedy`) is *balanced*: a node that got a job ends at most one
above every other node. No assignment of as many jobs has a smaller peak than a balanced one
(`Balanced.peak_le`).
-/

namespace RestoreEngine.Lists

variable {ν : Type} [DecidableEq ν] {nodes assigned other : List ν} {load : ν → ℕ} {n m pick : ν}

/-- The load of a node after an assignment. -/
def loadAfter (load : ν → ℕ) (assigned : List ν) (n : ν) : ℕ := load n + assigned.count n

/-- The load with one more job on a node. -/
def raised (load : ν → ℕ) (pick n : ν) : ℕ := if n = pick then load n + 1 else load n

theorem le_raised (load : ν → ℕ) (pick n : ν) : load n ≤ raised load pick n := by
  rw [raised]
  split_ifs <;> omega

/-- The jobs may be counted one by one. -/
theorem loadAfter_cons (load : ν → ℕ) (pick : ν) (assigned : List ν) (n : ν) :
    loadAfter load (pick :: assigned) n = loadAfter (raised load pick) assigned n := by
  rw [loadAfter, loadAfter, raised, List.count_cons]
  by_cases h : n = pick
  · subst h
    simp only [beq_self_eq_true, if_true]
    omega
  · rw [if_neg h, if_neg (by simpa using Ne.symm h)]
    omega

/-- Every job is given to a node that has the least load at that moment. -/
inductive Greedy (nodes : List ν) : (ν → ℕ) → List ν → Prop
  | nil {load : ν → ℕ} : Greedy nodes load []
  | cons {load : ν → ℕ} {pick : ν} {rest : List ν} (hmem : pick ∈ nodes)
      (hleast : ∀ m ∈ nodes, load pick ≤ load m) (hrest : Greedy nodes (raised load pick) rest) :
    Greedy nodes load (pick :: rest)

/-- **A balanced assignment**: the nodes that got a job end at most one above the others. -/
def Balanced (nodes : List ν) (load : ν → ℕ) (assigned : List ν) : Prop :=
  ∀ n ∈ assigned, ∀ m ∈ nodes, loadAfter load assigned n ≤ loadAfter load assigned m + 1

/-- The greatest load after an assignment. -/
def peak (nodes : List ν) (load : ν → ℕ) (assigned : List ν) : ℕ :=
  nodes.toFinset.sup (loadAfter load assigned)

/-- The jobs go to nodes of the list. -/
theorem Greedy.mem (h : Greedy nodes load assigned) : ∀ n ∈ assigned, n ∈ nodes := by
  induction h with
  | nil => exact nofun
  | cons hmem _ _ ih =>
    intro n hn
    rcases List.mem_cons.mp hn with rfl | hn
    · exact hmem
    · exact ih n hn

/-- **Greedy assignments are balanced.** -/
theorem Greedy.balanced (h : Greedy nodes load assigned) : Balanced nodes load assigned := by
  induction h with
  | nil => exact nofun
  | @cons load pick rest _ hleast _ ih =>
    intro n hn m hm
    rw [loadAfter_cons, loadAfter_cons]
    by_cases hrest : n ∈ rest
    · exact ih n hrest m hm
    · -- the node got its last job now, when no other node had less
      obtain rfl : n = pick := (List.mem_cons.mp hn).resolve_right hrest
      have hlast : loadAfter (raised load n) rest n = load n + 1 := by
        rw [loadAfter, List.count_eq_zero_of_not_mem hrest, raised, if_pos rfl, Nat.add_zero]
      have hother : load m ≤ loadAfter (raised load n) rest m :=
        (le_raised load n m).trans (Nat.le_add_right _ _)
      have hle := hleast m hm
      omega

/-- An assignment that leaves every node below a node of a balanced one assigns fewer jobs. -/
private theorem Balanced.length_lt (h : Balanced nodes load assigned) (hn : n ∈ assigned)
    (hnode : n ∈ nodes) (hother : ∀ m ∈ other, m ∈ nodes)
    (hbelow : ∀ m ∈ nodes, loadAfter load other m < loadAfter load assigned n) :
    other.length < assigned.length := by
  have hcount : ∀ m, other.count m ≤ assigned.count m := by
    intro m
    by_cases hm : m ∈ nodes
    · have hlow := hbelow m hm
      have hbal := h n hn m hm
      rw [loadAfter, loadAfter] at hlow hbal
      omega
    · rw [List.count_eq_zero_of_not_mem (mt (hother m) hm)]
      exact Nat.zero_le _
  have hless : other.count n < assigned.count n := by
    have hlow := hbelow n hnode
    rw [loadAfter, loadAfter] at hlow
    omega
  have hle : (other : Multiset ν) ≤ (assigned : Multiset ν) := by
    rw [Multiset.le_iff_count]
    intro m
    simpa only [Multiset.coe_count] using hcount m
  by_contra hlength
  have hsame : (other : Multiset ν) = assigned :=
    Multiset.eq_of_le_of_card_le hle (by simpa using not_lt.mp hlength)
  have hequal := congrArg (Multiset.count n) hsame
  rw [Multiset.coe_count, Multiset.coe_count] at hequal
  omega

/-- **No assignment of as many jobs has a smaller peak** than a balanced one. -/
theorem Balanced.peak_le (h : Balanced nodes load assigned) (hother : ∀ m ∈ other, m ∈ nodes)
    (hlength : assigned.length ≤ other.length) :
    peak nodes load assigned ≤ peak nodes load other := by
  refine Finset.sup_le fun n hn => ?_
  have hn : n ∈ nodes := List.mem_toFinset.mp hn
  by_contra hlow
  have hbelow : ∀ m ∈ nodes, loadAfter load other m < loadAfter load assigned n := by
    intro m hm
    have hle : loadAfter load other m ≤ peak nodes load other :=
      Finset.le_sup (f := loadAfter load other) (List.mem_toFinset.mpr hm)
    omega
  by_cases hgot : n ∈ assigned
  · have hfewer := h.length_lt hgot hn hother hbelow
    omega
  · -- a node that got nothing carries its old load in the other assignment, too
    have hold := hbelow n hn
    rw [loadAfter, loadAfter, List.count_eq_zero_of_not_mem hgot] at hold
    omega

end RestoreEngine.Lists
