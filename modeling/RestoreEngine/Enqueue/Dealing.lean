import Mathlib.Data.List.GetD
import RestoreEngine.Enqueue.Steps
import RestoreEngine.Model.Readiness

/-!
# VMIDs dealt out group by group

The groups of a plan run get their target VMIDs one after the other, each from the VMID after the
last one of the groups before it. In DR mode every group gets its own. In normal mode the groups
together get the VMIDs that one allocation for all of them would find, in the same order, as long
as those of each group lie in the window that the allocation for this group looks at
(`WithinWindows`, `allocate_dealt`). The window depends on the size of the group.
-/

namespace RestoreEngine

variable {inUse inUse' : Finset ℤ} {v start : ℤ} {l l' s group : List ℤ} {groups : List (List ℤ)}

/-! ### The first free VMIDs -/

/-- The free VMIDs from `v` on, as far as the list goes. -/
structure FirstFree (inUse : Finset ℤ) (v : ℤ) (l : List ℤ) : Prop where
  sorted : l.Pairwise (· < ·)
  free : ∀ x ∈ l, v ≤ x ∧ x ∉ inUse
  complete : ∀ x, v ≤ x → x ∉ inUse → x ∈ l ∨ ∀ y ∈ l, y < x

/-- A scan finds the first free VMIDs. -/
theorem firstFree_scanFree (inUse : Finset ℤ) (v : ℤ) (left window : ℕ) :
    FirstFree inUse v (scanFree inUse v left window) := by
  refine ⟨scanFree_sorted, fun x hx => ⟨(mem_scanFree hx).1, (mem_scanFree hx).2.2⟩, ?_⟩
  induction window generalizing v left with
  | zero =>
    intro x _ _
    right
    intro y hy
    have hbounds := mem_scanFree hy
    omega
  | succ window ih =>
    intro x hx hfree
    cases left with
    | zero => exact .inr fun y hy => by simp [scanFree] at hy
    | succ left =>
      rw [scanFree]
      split_ifs with hv
      · have hne : x ≠ v := fun heq => hfree (heq ▸ hv)
        exact ih (v + 1) (left + 1) x (by omega) hfree
      · by_cases hxv : x = v
        · exact .inl (hxv ▸ List.mem_cons_self)
        · rcases ih (v + 1) left x (by omega) hfree with hmem | hlast
          · exact .inl (List.mem_cons_of_mem _ hmem)
          · right
            intro y hy
            rcases List.mem_cons.mp hy with rfl | hy
            · omega
            · exact hlast y hy

namespace FirstFree

/-- The VMIDs below do not matter. -/
theorem congr (h : FirstFree inUse v l) (hagree : ∀ x, v ≤ x → (x ∈ inUse' ↔ x ∈ inUse)) :
    FirstFree inUse' v l where
  sorted := h.sorted
  free x hx := ⟨(h.free x hx).1, mt (hagree x (h.free x hx).1).mp (h.free x hx).2⟩
  complete x hx hfree := h.complete x hx (mt (hagree x hx).mpr hfree)

/-- What is left after the first ones. -/
theorem rest (h : FirstFree inUse v (l ++ l')) {w : ℤ} (hv : v ≤ w) (hbelow : ∀ x ∈ l, x < w)
    (habove : ∀ x ∈ l', w ≤ x) : FirstFree inUse w l' where
  sorted := (List.pairwise_append.mp h.sorted).2.1
  free x hx := ⟨habove x hx, (h.free x (List.mem_append_right _ hx)).2⟩
  complete x hx hfree := by
    rcases h.complete x (hv.trans hx) hfree with hmem | hlast
    · rcases List.mem_append.mp hmem with hmem | hmem
      · have hlt := hbelow x hmem
        omega
      · exact .inl hmem
    · exact .inr fun y hy => hlast y (List.mem_append_right _ hy)

/-- The first of them is the first free VMID. -/
private theorem head_eq {x : ℤ} (h : FirstFree inUse v (x :: l)) (hv : v ∉ inUse) : x = v := by
  have hle := (h.free x List.mem_cons_self).1
  rcases h.complete v le_rfl hv with hmem | hlast
  · rcases List.mem_cons.mp hmem with heq | hmem
    · exact heq.symm
    · have hlt := (List.pairwise_cons.mp h.sorted).1 v hmem
      omega
  · have hlt := hlast x List.mem_cons_self
    omega

/-- **A scan for the first of them finds them**, if its window reaches so far. -/
theorem scanFree_eq {window : ℕ} (h : FirstFree inUse v (l ++ l'))
    (hwindow : ∀ x ∈ l, x < v + window) : scanFree inUse v l.length window = l := by
  induction window generalizing v l with
  | zero =>
    cases l with
    | nil => rw [List.length_nil, scanFree]
    | cons x rest =>
      have hle := (h.free x List.mem_cons_self).1
      have hlt := hwindow x List.mem_cons_self
      omega
  | succ window ih =>
    cases l with
    | nil => rw [List.length_nil, scanFree]
    | cons x rest =>
      rw [List.length_cons, scanFree]
      split_ifs with hv
      · have hnext : FirstFree inUse (v + 1) ((x :: rest) ++ l') := by
          refine FirstFree.rest (l := []) h (by omega) (List.forall_mem_nil _) fun y hy => ?_
          obtain ⟨hle, hfree⟩ := h.free y hy
          have hne : y ≠ v := fun heq => hfree (heq ▸ hv)
          omega
        refine ih hnext fun y hy => ?_
        have hlt := hwindow y hy
        omega
      · obtain rfl := h.head_eq hv
        have hnext : FirstFree inUse (x + 1) (rest ++ l') := by
          refine FirstFree.rest (l := [x]) h (by omega) (fun y hy => ?_) fun y hy => ?_
          · obtain rfl := List.mem_singleton.mp hy
            omega
          · have hlt := (List.pairwise_cons.mp h.sorted).1 y hy
            omega
        rw [ih hnext fun y hy => ?_]
        have hlt := hwindow y (List.mem_cons_of_mem _ hy)
        omega

end FirstFree

/-! ### Dealing -/

/-- Where the search goes on after VMIDs were assigned. -/
def startAfter (start : ℤ) (vmids : List ℤ) : ℤ := (vmids.getLast?.map (· + 1)).getD start

theorem startAfter_append (start : ℤ) (l l' : List ℤ) :
    startAfter start (l ++ l') = startAfter (startAfter start l) l' := by
  rw [startAfter, List.getLast?_append, startAfter, startAfter]
  cases l'.getLast? <;> rfl

/-- Each group of VMIDs lies in the window of the allocation for it. -/
def WithinWindows (start : ℤ) : List (List ℤ) → Prop
  | [] => True
  | group :: rest =>
    (∀ x ∈ group, x ≤ max 100 start + max 5000 (group.length * 250 : ℕ)) ∧
      WithinWindows (startAfter start group) rest

/-- An allocation for the first group. -/
private theorem allocate_first (h : FirstFree inUse (max 100 start) (group ++ s))
    (hne : group ≠ [])
    (hwindow : ∀ x ∈ group, x ≤ max 100 start + max 5000 (group.length * 250 : ℕ)) :
    ∃ next, allocateSequentialFreeVmids inUse start group.length = .ok (group, next) := by
  have hlen : 0 < group.length := List.length_pos_of_ne_nil hne
  have hscan : scanFree inUse (max 100 start) group.length
      (max 5000 (group.length * 250) + 1) = group := by
    refine h.scanFree_eq fun x hx => ?_
    have hle := hwindow x hx
    omega
  rw [allocateSequentialFreeVmids, if_neg (by omega)]
  dsimp only
  rw [hscan, if_neg (by omega)]
  exact ⟨_, rfl⟩

private theorem below_startAfter (start : ℤ) (h : l.Pairwise (· < ·)) :
    ∀ x ∈ l, x < startAfter start l := by
  intro x hx
  obtain ⟨front, last, rfl⟩ := List.eq_nil_or_concat l |>.resolve_left (List.ne_nil_of_mem hx)
  rw [List.concat_eq_append] at hx h ⊢
  rw [startAfter, List.getLast?_append]
  change x < last + 1
  rcases List.mem_append.mp hx with hx | hx
  · have hlt := (List.pairwise_append.mp h).2.2 x hx last List.mem_cons_self
    omega
  · obtain rfl := List.mem_singleton.mp hx
    omega

private theorem startAfter_le (start : ℤ) (hlast : ∀ y ∈ l, y < v) (hne : l ≠ []) :
    startAfter start l ≤ v := by
  obtain ⟨last, hmem⟩ := Option.isSome_iff_exists.mp (List.getLast?_isSome.mpr hne)
  rw [startAfter, hmem]
  have hlt := hlast last (List.mem_of_getLast? hmem)
  change last + 1 ≤ v
  omega

/-- The groups after the first one. -/
private theorem FirstFree.after (h : FirstFree inUse (max 100 start) (group ++ s))
    (hne : group ≠ []) : FirstFree inUse (max 100 (startAfter start group)) s := by
  obtain ⟨hsorted, -, hcross⟩ := List.pairwise_append.mp h.sorted
  have hbelow := below_startAfter start hsorted
  obtain ⟨x, hx⟩ := List.exists_mem_of_ne_nil _ hne
  have hfirst := (h.free x (List.mem_append_left _ hx)).1
  have hlt := hbelow x hx
  refine h.rest (by omega) (fun y hy => ?_) fun y hy => ?_
  · have hlt' := hbelow y hy
    omega
  · have hle := startAfter_le start (fun z hz => hcross z hz y hy) hne
    omega

/-- **Dealing out VMIDs group by group.** A group gets its part of the first free VMIDs, when the
groups before it have theirs and nothing else has changed. -/
theorem allocate_dealt {before after : List (List ℤ)} {s : ℤ}
    (hfree : FirstFree inUse (max 100 start) (before ++ group :: after).flatten)
    (hne : ∀ g ∈ before ++ group :: after, g ≠ [])
    (hwindows : WithinWindows start (before ++ group :: after))
    (hagree : ∀ x, max 100 start ≤ x → x ∉ before.flatten → (x ∈ inUse' ↔ x ∈ inUse))
    (hs : max 100 s = max 100 (startAfter start before.flatten)) :
    ∃ next, allocateSequentialFreeVmids inUse' s group.length = .ok (group, next) := by
  induction before generalizing start with
  | nil =>
    rw [List.nil_append] at hfree hne hwindows
    have hs : max 100 s = max 100 start := hs
    refine allocate_first (s := after.flatten) ?_ (hne group List.mem_cons_self) ?_
    · rw [hs]
      exact hfree.congr fun x hx => hagree x hx List.not_mem_nil
    · rw [hs]
      exact hwindows.1
  | cons first rest ih =>
    have hfirst := hne first List.mem_cons_self
    rw [List.cons_append, List.flatten_cons] at hfree
    refine ih (hfree.after hfirst) (fun g hg => hne g (List.mem_cons_of_mem _ hg)) hwindows.2 ?_ ?_
    · intro x hx hnot
      have hbelow := below_startAfter start (List.pairwise_append.mp hfree.sorted).1
      obtain ⟨y, hy⟩ := List.exists_mem_of_ne_nil _ hfirst
      have hle := (hfree.free y (List.mem_append_left _ hy)).1
      have hlt := hbelow y hy
      refine hagree x (by omega) fun hmem => ?_
      rcases List.mem_append.mp (List.flatten_cons ▸ hmem) with hmem | hmem
      · have hlt' := hbelow x hmem
        omega
      · exact hnot hmem
    · rwa [List.flatten_cons, startAfter_append] at hs

/-! ### The groups of a plan -/

/-- Values dealt out to groups of the given sizes, in order. -/
def dealOut {α : Type} : List ℕ → List α → List (List α)
  | [], _ => []
  | n :: sizes, values => values.take n :: dealOut sizes (values.drop n)

theorem dealOut_spec {α : Type} {sizes : List ℕ} {values : List α}
    (hlength : values.length = sizes.sum) :
    (dealOut sizes values).map List.length = sizes ∧ (dealOut sizes values).flatten = values := by
  induction sizes generalizing values with
  | nil => exact ⟨rfl, (List.length_eq_zero_iff.mp hlength).symm⟩
  | cons n sizes ih =>
    rw [List.sum_cons] at hlength
    obtain ⟨hlengths, hflatten⟩ := @ih (values.drop n) (by rw [List.length_drop]; omega)
    constructor
    · rw [dealOut, List.map_cons, hlengths, List.length_take, Nat.min_eq_left (by omega)]
    · rw [dealOut, List.flatten_cons, hflatten, List.take_append_drop]

/-- The request is one for the rows of the group at `k`, in the mode of the location, and from
where the groups before it have got to. -/
structure EnqueueRequest.AsksFor (req : EnqueueRequest) (location : Location)
    (groupRows : List (List Row)) (groups : List (List ℤ)) (k : ℕ) : Prop where
  rows : req.rows = groupRows.getD k []
  mode : req.mode = location.mode
  start : location.mode ≠ "dr" →
    max 100 req.vmidStart = max 100 (startAfter location.vmidStart (groups.take k).flatten)

/-- **The VMIDs `groups` can be dealt out** to the groups of rows: each group gets its own, as
long as the VMIDs in use change by those of the groups before it only. -/
structure Dealt (location : Location) (inUse : Finset ℤ) (groupRows : List (List Row))
    (groups : List (List ℤ)) : Prop where
  lengths : groups.map List.length = groupRows.map List.length
  gets : ∀ k < groupRows.length, ∀ req : EnqueueRequest, req.AsksFor location groupRows groups k →
    ∀ inUse' : Finset ℤ, (∀ x ∉ (groups.take k).flatten, (x ∈ inUse' ↔ x ∈ inUse)) →
      req.allocate inUse' = .ok (groups.getD k []) ∧ ∀ x ∈ groups.getD k [], x ∉ inUse'
  ordered : location.mode ≠ "dr" → groups.flatten.Pairwise (· < ·) ∧ ∀ x ∈ groups.flatten, 100 ≤ x

variable {location : Location} {groupRows : List (List Row)}

private theorem split_at {α : Type} {lists : List (List α)} {k : ℕ} (hk : k < lists.length) :
    lists = lists.take k ++ lists.getD k [] :: lists.drop (k + 1) := by
  rw [List.getD_eq_getElem _ _ hk, List.getElem_cons_drop, List.take_append_drop]

/-- **Dealing out in normal mode.** -/
theorem dealt_normal {vmids : List ℤ} {s next : ℤ} (hmode : location.mode ≠ "dr")
    (hrows : ∀ rows ∈ groupRows, rows ≠ []) (hs : max 100 s = max 100 location.vmidStart)
    (hallocate : allocateSequentialFreeVmids inUse s groupRows.flatten.length = .ok (vmids, next))
    (hwindows : WithinWindows location.vmidStart (dealOut (groupRows.map List.length) vmids)) :
    Dealt location inUse groupRows (dealOut (groupRows.map List.length) vmids) := by
  have hall := allocated_of_ok hallocate
  have hlength : vmids.length = (groupRows.map List.length).sum := by
    rw [hall.length, List.length_flatten]
  obtain ⟨hlengths, hflatten⟩ := dealOut_spec hlength
  generalize dealOut (groupRows.map List.length) vmids = groups at hlengths hflatten hwindows ⊢
  have hcount : groups.length = groupRows.length := by
    simpa using congrArg List.length hlengths
  have hfirst : FirstFree inUse (max 100 location.vmidStart) groups.flatten := by
    rw [hflatten, ← hs]
    have hscan := firstFree_scanFree inUse (max 100 s) groupRows.flatten.length
      (max 5000 (groupRows.flatten.length * 250) + 1)
    rw [allocateSequentialFreeVmids] at hallocate
    split_ifs at hallocate with hzero
    · have hnil : vmids = [] := (Prod.mk.inj (Except.ok.inj hallocate)).1.symm
      have hnone : groupRows.flatten.length = 0 := by omega
      rw [hnone, scanFree] at hscan
      exact hnil ▸ hscan
    · dsimp only at hallocate
      split_ifs at hallocate
      exact (Prod.mk.inj (Except.ok.inj hallocate)).1 ▸ hscan
  have hne : ∀ g ∈ groups, g ≠ [] := by
    rintro g hg rfl
    have hmem : 0 ∈ groupRows.map List.length := hlengths ▸ List.mem_map.mpr ⟨[], hg, rfl⟩
    obtain ⟨rows, hrow, hnil⟩ := List.mem_map.mp hmem
    exact hrows rows hrow (List.length_eq_zero_iff.mp hnil)
  refine ⟨hlengths, fun k hk req hreq inUse' hagree => ?_, fun _ => ⟨hfirst.sorted, ?_⟩⟩
  · have hk' : k < groups.length := hcount ▸ hk
    have hsize : (groups.getD k []).length = req.rows.length := by
      have hat := congrArg (fun sizes : List ℕ => sizes.getD k 0) hlengths
      rw [hreq.rows]
      exact (List.getD_map _ [] List.length).symm.trans (hat.trans (List.getD_map _ [] List.length))
    have hsplit := split_at hk'
    rw [hsplit] at hfirst hne hwindows
    obtain ⟨next', hok⟩ := allocate_dealt (s := req.vmidStart) hfirst hne hwindows
      (fun x _ hnot => hagree x hnot) (hreq.start hmode)
    rw [hsize] at hok
    have hallocated := (EnqueueRequest.allocate_normal (hreq.mode ▸ hmode)).mpr ⟨next', hok⟩
    exact ⟨hallocated, (allocated_of_ok hok).free⟩
  · intro x hx
    have hle := (hfirst.free x hx).1
    omega

/-- **Dealing out in DR mode.** -/
theorem dealt_dr (hmode : location.mode = "dr")
    (hvmids : ∀ row ∈ groupRows.flatten, row.vmid.isSome = true)
    (hnodup : (sourceIds groupRows.flatten).Nodup)
    (hfree : ∀ x ∈ sourceIds groupRows.flatten, x ∉ inUse) :
    Dealt location inUse groupRows (groupRows.map sourceIds) := by
  have hown : ∀ rows : List Row, (∀ row ∈ rows, row.vmid.isSome = true) →
      rows.map (·.vmid) = (sourceIds rows).map some := by
    intro rows hsome
    rw [sourceIds, List.map_map]
    refine List.map_congr_left fun row hrow => ?_
    obtain ⟨x, hx⟩ := Option.isSome_iff_exists.mp (hsome row hrow)
    simp [hx]
  have hflat : ∀ lists : List (List Row),
      (lists.map sourceIds).flatten = sourceIds lists.flatten := by
    intro lists
    rw [sourceIds, List.map_flatten]
    rfl
  refine ⟨?_, fun k hk req hreq inUse' hagree => ?_, fun hnormal => absurd hmode hnormal⟩
  · rw [List.map_map]
    exact List.map_congr_left fun rows _ => List.length_map _
  have hgroup : (groupRows.map sourceIds).getD k [] = sourceIds (groupRows.getD k []) :=
    List.getD_map _ [] sourceIds
  have hsplit := split_at hk
  have hrows : ∀ row ∈ groupRows.getD k [], row ∈ groupRows.flatten := by
    intro row hrow
    rw [hsplit, List.flatten_append, List.flatten_cons]
    exact List.mem_append_right _ (List.mem_append_left _ hrow)
  have hparts : sourceIds groupRows.flatten = sourceIds (groupRows.take k).flatten ++
      (sourceIds (groupRows.getD k []) ++ sourceIds (groupRows.drop (k + 1)).flatten) := by
    conv_lhs => rw [hsplit]
    simp only [sourceIds, List.flatten_append, List.flatten_cons, List.map_append]
  rw [hparts] at hnodup
  obtain ⟨-, hlater, hcross⟩ := List.nodup_append.mp hnodup
  have hunused : ∀ x ∈ sourceIds (groupRows.getD k []), x ∉ inUse' := by
    intro x hx
    have hnot : x ∉ ((groupRows.map sourceIds).take k).flatten := by
      rw [← List.map_take, hflat]
      exact fun hmem => hcross x hmem x (List.mem_append_left _ hx) rfl
    rw [hagree x hnot]
    refine hfree x ?_
    rw [hparts]
    exact List.mem_append_right _ (List.mem_append_left _ hx)
  rw [hgroup]
  refine ⟨?_, hunused⟩
  have howns : EnqueueRequest.OwnVmids inUse' req.overwrite req.rows
      (sourceIds (groupRows.getD k [])) := by
    refine ⟨?_, (List.nodup_append.mp hlater).1, fun _ x hx => hunused x hx⟩
    rw [hreq.rows]
    exact hown _ fun row hrow => hvmids row (hrows row hrow)
  rcases req.allocate_dr inUse' (hreq.mode.trans hmode) with ⟨vmids, hok, hown'⟩ | ⟨-, hnone⟩
  · have hsame : vmids.map some = (sourceIds (groupRows.getD k [])).map some :=
      hown'.rows_eq.symm.trans howns.rows_eq
    rw [hok, List.map_injective_iff.mpr (Option.some_injective _) hsame]
  · exact absurd howns (hnone _)

end RestoreEngine
