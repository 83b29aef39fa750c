import RestoreEngine.Model.PveClient

/-!
# The allocation of VMIDs

What `allocateSequentialFreeVmids` returns: the first free VMIDs of a window, in increasing order,
if the window holds enough of them.
-/

namespace RestoreEngine

/-! ### The scan -/

/-- The free VMIDs among the `window` ones from `v` on. -/
def freeCount (inUse : Finset ℤ) (v : ℤ) : (window : ℕ) → ℕ
  | 0 => 0
  | window + 1 => (if v ∈ inUse then 0 else 1) + freeCount inUse (v + 1) window

variable {inUse : Finset ℤ} {v x : ℤ} {left window : ℕ}

/-- A scan finds what is wanted, or all there is. -/
theorem scanFree_length : (scanFree inUse v left window).length =
    min left (freeCount inUse v window) := by
  induction window generalizing v left with
  | zero => cases left <;> simp [scanFree, freeCount]
  | succ window ih =>
    cases left with
    | zero => simp [scanFree]
    | succ left =>
      rw [scanFree, freeCount]
      split_ifs with hv
      · rw [ih]
        omega
      · rw [List.length_cons, ih]
        omega

/-- A scan finds free VMIDs of its window. -/
theorem mem_scanFree (hx : x ∈ scanFree inUse v left window) :
    v ≤ x ∧ x < v + window ∧ x ∉ inUse := by
  induction window generalizing v left with
  | zero => cases left <;> simp [scanFree] at hx
  | succ window ih =>
    cases left with
    | zero => simp [scanFree] at hx
    | succ left =>
      rw [scanFree] at hx
      split_ifs at hx with hv
      · have hrest := ih hx
        refine ⟨?_, ?_, hrest.2.2⟩ <;> omega
      · rcases List.mem_cons.mp hx with rfl | hrest
        · refine ⟨le_rfl, ?_, hv⟩
          omega
        · have hrest := ih hrest
          refine ⟨?_, ?_, hrest.2.2⟩ <;> omega

/-- A scan finds its VMIDs in increasing order. -/
theorem scanFree_sorted : (scanFree inUse v left window).Pairwise (· < ·) := by
  induction window generalizing v left with
  | zero => cases left <;> simp [scanFree]
  | succ window ih =>
    cases left with
    | zero => simp [scanFree]
    | succ left =>
      rw [scanFree]
      split_ifs with hv
      · exact ih
      · refine List.pairwise_cons.mpr ⟨fun x hx => ?_, ih⟩
        have hle := (mem_scanFree hx).1
        omega

/-! ### The allocation -/

/-- The VMIDs of an allocation. -/
structure Allocated (inUse : Finset ℤ) (start : ℤ) (count : ℕ) (vmids : List ℤ) : Prop where
  length : vmids.length = count
  sorted : vmids.Pairwise (· < ·)
  bounds : ∀ x ∈ vmids, max 100 start ≤ x ∧ x ≤ max 100 start + max 5000 (count * 250 : ℕ)
  free : ∀ x ∈ vmids, x ∉ inUse

theorem Allocated.nodup {start : ℤ} {count : ℕ} {vmids : List ℤ}
    (h : Allocated inUse start count vmids) : vmids.Nodup :=
  h.sorted.imp fun hlt => hlt.ne

variable {start next : ℤ} {count : ℕ} {vmids : List ℤ}

/-- What an allocation returns is free. -/
theorem allocated_of_ok (h : allocateSequentialFreeVmids inUse start count = .ok (vmids, next)) :
    Allocated inUse start count vmids := by
  rw [allocateSequentialFreeVmids] at h
  split_ifs at h with hcount
  · obtain ⟨rfl, -⟩ := Prod.mk.inj (Except.ok.inj h)
    have hzero : count = 0 := by omega
    subst hzero
    exact ⟨rfl, List.Pairwise.nil, fun x hx => (List.not_mem_nil hx).elim,
      fun x hx => (List.not_mem_nil hx).elim⟩
  · dsimp only at h
    split_ifs at h with hlen
    obtain ⟨rfl, -⟩ := Prod.mk.inj (Except.ok.inj h)
    have hle : (scanFree inUse (max 100 start) count (max 5000 (count * 250) + 1)).length ≤
        count := by
      rw [scanFree_length]
      omega
    refine ⟨by omega, scanFree_sorted, fun x hx => ?_, fun x hx => (mem_scanFree hx).2.2⟩
    have hx := mem_scanFree hx
    omega

/-- The VMIDs that an allocation looks at suffice. -/
def HasRoom (inUse : Finset ℤ) (start : ℤ) (count : ℕ) : Prop :=
  count ≤ freeCount inUse (max 100 start) (max 5000 (count * 250) + 1)

/-- **When an allocation succeeds.** -/
theorem allocate_ok_iff :
    (∃ vmids next, allocateSequentialFreeVmids inUse start count = .ok (vmids, next)) ↔
      HasRoom inUse start count := by
  rw [allocateSequentialFreeVmids, HasRoom]
  by_cases hcount : count < 1
  · rw [if_pos hcount]
    have hzero : count = 0 := by omega
    subst hzero
    exact ⟨fun _ => Nat.zero_le _, fun _ => ⟨[], start, rfl⟩⟩
  · rw [if_neg hcount]
    dsimp only
    rw [scanFree_length]
    by_cases hroom : count ≤ freeCount inUse (max 100 start) (max 5000 (count * 250) + 1)
    · rw [if_neg (by omega)]
      exact ⟨fun _ => hroom, fun _ => ⟨_, _, rfl⟩⟩
    · rw [if_pos (by omega)]
      refine ⟨?_, fun h => absurd h hroom⟩
      rintro ⟨vmids, next, h⟩
      cases h

/-- Without guests there is room. -/
theorem hasRoom_empty : HasRoom ∅ start count := by
  have hall : ∀ (v : ℤ) (window : ℕ), freeCount ∅ v window = window := by
    intro v window
    induction window generalizing v with
    | zero => rfl
    | succ window ih =>
      rw [freeCount, ih]
      simp only [Finset.notMem_empty, if_false]
      omega
  rw [HasRoom, hall]
  omega

end RestoreEngine
