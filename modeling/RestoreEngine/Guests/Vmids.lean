import Mathlib.Data.Finset.Sort
import Mathlib.Data.Int.ConditionallyCompleteOrder
import Mathlib.Order.ConditionallyCompleteLattice.Basic
import RestoreEngine.Model.Allocation

/-!
# VMIDs of new guests

`allocate_sequential_free_vmids` adds what it allocates to the set that it is given, and its loop
looks at that set. So the loop is modelled with the set it writes to (`takeFree`); what it takes is
the beginning of the free VMIDs of the window in their order (`takeFree_eq`), and the outcome is the
one of `allocateSequentialFreeVmids`, which leaves the set out (`allocateInPlace_fst`).
-/

namespace RestoreEngine

/-! ### The loop and the caller's set -/

/-- The loop of `allocate_sequential_free_vmids`: what it has found, and the caller's set. -/
def takeFree (upper : ℤ) (count : ℕ) (out : List ℤ) (inUse : Finset ℤ) (v : ℤ) :
    List ℤ × Finset ℤ :=
  if out.length < count ∧ v ≤ upper then
    if v ∉ inUse then takeFree upper count (out ++ [v]) (insert v inUse) (v + 1)
    else takeFree upper count out inUse (v + 1)
  else (out, inUse)
termination_by (upper + 1 - v).toNat

/-- **`allocate_sequential_free_vmids`**, with the caller's set as it is left. -/
def allocateInPlace (inUse : Finset ℤ) (desiredStart : ℤ) (count : ℕ) :
    Except Exn (List ℤ × ℤ) × Finset ℤ :=
  if count < 1 then (.ok ([], desiredStart), inUse)
  else
    let v := max 100 desiredStart
    let upper := v + max 5000 (count * 250 : ℕ)
    let (out, inUse) := takeFree upper count [] inUse v
    if out.length < count then
      (.error (.runtimeError (s!"could not allocate {count} free guest VMIDs starting near " ++
        s!"{desiredStart} (exhausted scan to {upper})")), inUse)
    else (.ok (out, out.getLastD desiredStart + 1), inUse)

/-! ### The free VMIDs of a window -/

/-- The free VMIDs of a window. -/
def freeIn (inUse : Finset ℤ) (v upper : ℤ) : Finset ℤ :=
  (Finset.range (upper + 1 - v).toNat).image (fun i : ℕ => v + i) \ inUse

section freeIn

variable {inUse : Finset ℤ} {v upper x : ℤ} {count : ℕ} {out : List ℤ}

theorem mem_freeIn : x ∈ freeIn inUse v upper ↔ (v ≤ x ∧ x ≤ upper) ∧ x ∉ inUse := by
  rw [freeIn, Finset.mem_sdiff, Finset.mem_image]
  refine and_congr_left fun _ => ⟨?_, fun hbounds => ⟨(x - v).toNat, ?_, by omega⟩⟩
  · rintro ⟨i, hi, rfl⟩
    rw [Finset.mem_range] at hi
    omega
  · rw [Finset.mem_range]
    omega

theorem freeIn_of_lt (h : upper < v) : freeIn inUse v upper = ∅ := by
  rw [freeIn, show (upper + 1 - v).toNat = 0 by omega, Finset.range_zero, Finset.image_empty,
    Finset.empty_sdiff]

/-- The window begins with a VMID that is in use. -/
theorem freeIn_of_mem (h : v ∈ inUse) : freeIn inUse v upper = freeIn inUse (v + 1) upper := by
  ext x
  rw [mem_freeIn, mem_freeIn]
  constructor
  · rintro ⟨⟨hle, hupper⟩, hx⟩
    have hne : v ≠ x := fun heq => hx (heq ▸ h)
    exact ⟨⟨by omega, hupper⟩, hx⟩
  · rintro ⟨⟨hle, hupper⟩, hx⟩
    exact ⟨⟨by omega, hupper⟩, hx⟩

/-- The window begins with a free VMID, which comes first. -/
theorem sort_freeIn_of_notMem (hv : v ∉ inUse) (hle : v ≤ upper) :
    (freeIn inUse v upper).sort (· ≤ ·) =
      v :: (freeIn (insert v inUse) (v + 1) upper).sort (· ≤ ·) := by
  have hinsert : freeIn inUse v upper = insert v (freeIn (insert v inUse) (v + 1) upper) := by
    ext x
    rw [Finset.mem_insert, mem_freeIn, mem_freeIn, Finset.mem_insert]
    by_cases heq : x = v
    · subst heq
      exact ⟨fun _ => .inl rfl, fun _ => ⟨⟨le_rfl, hle⟩, hv⟩⟩
    · constructor
      · rintro ⟨⟨hlow, hupper⟩, hx⟩
        exact .inr ⟨⟨by omega, hupper⟩, not_or.mpr ⟨heq, hx⟩⟩
      · rintro (hx | ⟨⟨hlow, hupper⟩, hx⟩)
        · exact absurd hx heq
        · exact ⟨⟨by omega, hupper⟩, fun hmem => hx (.inr hmem)⟩
  rw [hinsert, Finset.sort_insert]
  · intro x hx
    have hlow := (mem_freeIn.mp hx).1.1
    omega
  · intro hmem
    have hlow := (mem_freeIn.mp hmem).1.1
    omega

/-- The smallest free VMIDs of a window. -/
def smallestFree (inUse : Finset ℤ) (v upper : ℤ) (count : ℕ) : List ℤ :=
  ((freeIn inUse v upper).sort (· ≤ ·)).take count

theorem length_smallestFree :
    (smallestFree inUse v upper count).length = min count (freeIn inUse v upper).card := by
  rw [smallestFree, List.length_take, Finset.length_sort]

/-! ### What the loop takes -/

/-- **The loop takes the smallest free VMIDs** and adds them to the set. -/
theorem takeFree_eq : takeFree upper count out inUse v =
    (out ++ smallestFree inUse v upper (count - out.length),
      inUse ∪ (smallestFree inUse v upper (count - out.length)).toFinset) := by
  fun_induction takeFree upper count out inUse v with
  | case1 out inUse v hloop hfree ih =>
    -- a free VMID is taken, and one less is wanted
    obtain ⟨left, hleft⟩ : ∃ left, count - out.length = left + 1 :=
      ⟨count - out.length - 1, by omega⟩
    have hrest : count - (out ++ [v]).length = left := by
      rw [List.length_append, List.length_singleton]
      omega
    have hsmallest : smallestFree inUse v upper (count - out.length) =
        v :: smallestFree (insert v inUse) (v + 1) upper left := by
      rw [smallestFree, sort_freeIn_of_notMem hfree hloop.2, hleft, List.take_succ_cons]
      rfl
    rw [ih, hrest, hsmallest, List.append_assoc, List.singleton_append, List.toFinset_cons,
      Finset.insert_union, Finset.union_insert]
  | case2 out inUse v hloop hused ih =>
    have hmem : v ∈ inUse := not_not.mp hused
    have hsmallest : smallestFree inUse v upper (count - out.length) =
        smallestFree inUse (v + 1) upper (count - out.length) := by
      rw [smallestFree, freeIn_of_mem hmem]
      rfl
    rw [ih, hsmallest]
  | case3 out inUse v hdone =>
    -- nothing is wanted, or the window is used up
    have hnil : smallestFree inUse v upper (count - out.length) = [] := by
      rcases not_and_or.mp hdone with hcount | hupper
      · rw [smallestFree, Nat.sub_eq_zero_of_le (by omega), List.take_zero]
      · rw [smallestFree, freeIn_of_lt (by omega), Finset.sort_empty, List.take_nil]
    rw [hnil, List.append_nil, List.toFinset_nil, Finset.union_empty]

/-! ### The allocation -/

/-- A VMID that was taken is not looked at again. -/
private theorem freeIn_insert (h : v < x) :
    freeIn (insert v inUse) x upper = freeIn inUse x upper := by
  ext y
  rw [mem_freeIn, mem_freeIn, Finset.mem_insert]
  refine and_congr_right fun hbounds => not_congr (or_iff_right fun heq => ?_)
  omega

/-- The scan that leaves the set alone finds the same VMIDs. -/
theorem scanFree_eq_smallestFree {window : ℕ} (hwindow : v + window = upper + 1) :
    scanFree inUse v count window = smallestFree inUse v upper count := by
  induction window generalizing v count with
  | zero =>
    rw [smallestFree, freeIn_of_lt (by omega), Finset.sort_empty, List.take_nil]
    cases count <;> rfl
  | succ window ih =>
    cases count with
    | zero => rw [smallestFree, List.take_zero, scanFree]
    | succ count =>
      have hrest : v + 1 + window = upper + 1 := by omega
      rw [scanFree]
      split_ifs with hv
      · rw [ih hrest, smallestFree, smallestFree, freeIn_of_mem hv]
      · rw [ih hrest, smallestFree, smallestFree, sort_freeIn_of_notMem hv (by omega),
          List.take_succ_cons, freeIn_insert (by omega)]

/-- The outcome is the one of the allocation that leaves the set out. -/
theorem allocateInPlace_fst (inUse : Finset ℤ) (desiredStart : ℤ) (count : ℕ) :
    (allocateInPlace inUse desiredStart count).1 =
      allocateSequentialFreeVmids inUse desiredStart count := by
  rw [allocateInPlace, allocateSequentialFreeVmids]
  split_ifs with hcount
  · rfl
  · have hwindow : max 100 desiredStart + ((max 5000 (count * 250) + 1 : ℕ) : ℤ) =
        max 100 desiredStart + (max 5000 (count * 250) : ℕ) + 1 := by omega
    dsimp only
    rw [takeFree_eq, List.nil_append, List.length_nil, Nat.sub_zero,
      scanFree_eq_smallestFree hwindow]
    split_ifs with hlength
    · rfl
    · rfl

end freeIn

/-- The window that an allocation looks at. -/
def vmidWindow (inUse : Finset ℤ) (desiredStart : ℤ) (count : ℕ) : Finset ℤ :=
  freeIn inUse (max 100 desiredStart) (max 100 desiredStart + max 5000 (250 * count : ℕ))

/-- The VMIDs that an allocation is to take: the smallest free ones of its window. -/
def vmidsWanted (inUse : Finset ℤ) (desiredStart : ℤ) (count : ℕ) : List ℤ :=
  ((vmidWindow inUse desiredStart count).sort (· ≤ ·)).take count

/-- **VMIDs are allocated in their order.** The allocation fails exactly if the window has too few
free VMIDs; otherwise it takes the smallest ones. -/
theorem allocateInPlace_takes_smallest (inUse : Finset ℤ) (desiredStart : ℤ) (count : ℕ)
    (hcount : 1 ≤ count) :
    ((∃ text, (allocateInPlace inUse desiredStart count).1 = .error (.runtimeError text)) ↔
        (vmidWindow inUse desiredStart count).card < count) ∧
      (count ≤ (vmidWindow inUse desiredStart count).card →
        (vmidsWanted inUse desiredStart count).length = count ∧
        ∃ last, (vmidsWanted inUse desiredStart count).getLast? = some last ∧
          allocateInPlace inUse desiredStart count =
            (.ok (vmidsWanted inUse desiredStart count, last + 1),
              inUse ∪ (vmidsWanted inUse desiredStart count).toFinset)) := by
  have htake : takeFree (max 100 desiredStart + max 5000 (count * 250 : ℕ)) count [] inUse
      (max 100 desiredStart) =
        (vmidsWanted inUse desiredStart count,
          inUse ∪ (vmidsWanted inUse desiredStart count).toFinset) := by
    rw [Nat.mul_comm count 250]
    exact takeFree_eq
  have hlength : (vmidsWanted inUse desiredStart count).length =
      min count (vmidWindow inUse desiredStart count).card := length_smallestFree
  rw [allocateInPlace, if_neg (by omega)]
  dsimp only
  rw [htake]
  dsimp only
  generalize vmidsWanted inUse desiredStart count = taken at hlength
  by_cases hroom : count ≤ (vmidWindow inUse desiredStart count).card
  · rw [if_neg (by omega)]
    refine ⟨⟨?_, fun hlt => absurd hroom (by omega)⟩, fun _ => ⟨by omega, ?_⟩⟩
    · rintro ⟨text, herror⟩
      cases herror
    · have hne : taken ≠ [] := List.ne_nil_of_length_pos (by omega)
      have hlast : taken.getLast? = some (taken.getLast hne) := List.getLast?_eq_some_getLast hne
      refine ⟨_, hlast, ?_⟩
      rw [List.getLastD_eq_getLast?, hlast]
      rfl
  · rw [if_pos (by omega)]
    exact ⟨⟨fun _ => by omega, fun _ => ⟨_, rfl⟩⟩, fun h => absurd h hroom⟩

/-- Two VMIDs between guests and above them. -/
theorem allocateInPlace_takes_two : (vmidsWanted {100, 102} 0 2).length = 2 ∧
    ∃ last, (vmidsWanted {100, 102} 0 2).getLast? = some last ∧
      allocateInPlace {100, 102} 0 2 =
        (.ok (vmidsWanted {100, 102} 0 2, last + 1),
          {100, 102} ∪ (vmidsWanted {100, 102} 0 2).toFinset) := by
  refine (allocateInPlace_takes_smallest {100, 102} 0 2 (by decide)).2 ?_
  have hfree : {101, 103} ⊆ vmidWindow {100, 102} 0 2 := by
    intro x hx
    rw [vmidWindow, mem_freeIn]
    rcases Finset.mem_insert.mp hx with rfl | hx
    · decide
    · obtain rfl := Finset.mem_singleton.mp hx
      decide
  exact Finset.card_le_card hfree

end RestoreEngine
