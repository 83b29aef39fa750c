import RestoreEngine.Enqueue.Steps
import RestoreEngine.Lists.Balanced

/-!
# The placement on nodes

`assign_nodes_least_loaded` gives every job to a node of least load, counting the active restores
and the jobs already assigned. So no node gets a job while another one is two jobs behind it, and
the most loaded node is as little loaded as any assignment can make it
(`assignNodesLeastLoaded_balanced`).
-/

namespace RestoreEngine

open RestoreEngine.Lists EnqueueRequest

variable {counts : String → ℕ} {nodes : List String}

/-- The names of the candidate nodes. -/
def candidateNames (candidates : List String) : List String :=
  (candidates.map Text.strip).filter (· ≠ "")

/-- The node that is picked has the least load. -/
private theorem leastLoaded_le {pick : String} (h : leastLoaded counts nodes = some pick) :
    ∀ m ∈ nodes, counts pick ≤ counts m := by
  induction nodes generalizing pick with
  | nil => exact nofun
  | cons n rest ih =>
    intro m hm
    rw [leastLoaded] at h
    split at h
    · next hnone =>
      -- only an empty rest has no node of least load
      obtain rfl : rest = [] := by
        by_contra hsome
        obtain ⟨found, hfound⟩ := leastLoaded_isSome counts hsome
        rw [hnone] at hfound
        cases hfound
      obtain rfl := Option.some.inj h
      rw [List.mem_singleton.mp hm]
    · next found hfound =>
      have hrest := ih hfound
      split_ifs at h with hless
      · obtain rfl := Option.some.inj h
        rcases List.mem_cons.mp hm with rfl | hm
        · exact hless.le
        · exact hrest m hm
      · obtain rfl := Option.some.inj h
        rcases List.mem_cons.mp hm with rfl | hm
        · exact le_rfl
        · exact (not_lt.mp hless).trans (hrest m hm)

/-- **The loop is greedy.** -/
theorem assignNodes_greedy (left : ℕ) (h : nodes ≠ []) :
    Greedy nodes counts (assignNodes nodes counts left) := by
  induction left generalizing counts with
  | zero => exact .nil
  | succ left ih =>
    obtain ⟨pick, hpick⟩ := leastLoaded_isSome counts h
    rw [assignNodes, hpick]
    exact .cons (leastLoaded_mem hpick) (leastLoaded_le hpick) ih

/-- **The placement is balanced**, and the load of the most loaded node as small as it can be. -/
theorem assignNodesLeastLoaded_balanced (candidates : List String) (activeCounts : String → ℕ)
    (count : ℕ) (h : candidateNames candidates ≠ []) :
    ∃ assigned, assignNodesLeastLoaded candidates count activeCounts = .ok assigned ∧
      assigned.length = count ∧ (∀ n ∈ assigned, n ∈ candidateNames candidates) ∧
      Balanced (candidateNames candidates) activeCounts assigned ∧
      ∀ other : List String, other.length = count → (∀ m ∈ other, m ∈ candidateNames candidates) →
        peak (candidateNames candidates) activeCounts assigned ≤
          peak (candidateNames candidates) activeCounts other := by
  have hdedup : (candidateNames candidates).dedup ≠ [] := by
    rwa [ne_eq, List.dedup_eq_nil]
  obtain ⟨hlength, hmem⟩ := assignNodes_spec activeCounts count hdedup
  have hgreedy : Greedy _ activeCounts _ := assignNodes_greedy count hdedup
  generalize hassigned : assignNodes (candidateNames candidates).dedup activeCounts count = assigned
    at hlength hmem hgreedy
  have hbalanced : Balanced (candidateNames candidates) activeCounts assigned :=
    fun n hn m hm => hgreedy.balanced n hn m (List.mem_dedup.mpr hm)
  refine ⟨assigned, ?_, hlength, fun n hn => List.mem_dedup.mp (hmem n hn), hbalanced, ?_⟩
  · rw [assignNodesLeastLoaded, ← hassigned]
    exact if_neg h
  · intro other hother hnodes
    exact hbalanced.peak_le hnodes (hlength.trans hother.symm).le

/-- Two jobs for three nodes, one of which has two active restores. -/
theorem assignNodesLeastLoaded_balanced_three :
    ∃ assigned, assignNodesLeastLoaded ["a", " b", "c", ""] 2
        (fun n => if n = "a" then 2 else 0) = .ok assigned ∧
      peak (candidateNames ["a", " b", "c", ""]) (fun n => if n = "a" then 2 else 0) assigned ≤
        peak (candidateNames ["a", " b", "c", ""]) (fun n => if n = "a" then 2 else 0) ["a", "b"] := by
  obtain ⟨assigned, hok, -, -, -, hpeak⟩ := assignNodesLeastLoaded_balanced ["a", " b", "c", ""]
    (fun n => if n = "a" then 2 else 0) 2 (by decide)
  exact ⟨assigned, hok, hpeak ["a", "b"] rfl (by decide)⟩

end RestoreEngine
