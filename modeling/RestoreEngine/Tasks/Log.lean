import RestoreEngine.Model.TaskLog

/-!
# The lines of a task log

`fetch_task_log` takes the number of the last row, which counts from one, for an offset, which
counts from zero, and adds one to it: the line behind every window with rows is passed over. The
lines that `wait_for_task` hands on are a part of the log, in order (`handed_sublist`), and the
whole of it exactly if nothing but blank lines is passed over, and none is left behind the window
of the last poll (`handed_iff`).
-/

namespace RestoreEngine

namespace TaskLog

variable {log : List String} {s : ℕ}

/-- The lines of a log that are not blank, without the spaces behind them. -/
def shownLines (log : List String) : List String := (log.map rstrip).filter (· ≠ "")

private theorem shownLines_append (a b : List String) :
    shownLines (a ++ b) = shownLines a ++ shownLines b := by
  rw [shownLines, List.map_append, List.filter_append]
  rfl

private theorem shownLines_eq_nil_iff : shownLines log = [] ↔ ∀ l ∈ log, rstrip l = "" := by
  simp [shownLines, List.filter_eq_nil_iff]

/-! ### One window -/

private theorem filterMap_shown (lines : List String) (f : ℕ → Option ℤ) :
    (lines.mapIdx fun i t => Row.entry (f i) t "").filterMap Row.shown = shownLines lines := by
  induction lines using List.reverseRecOn with
  | nil => rfl
  | append_singleton lines t ih =>
    rw [List.mapIdx_concat, List.filterMap_append, ih, shownLines_append]
    refine congrArg (shownLines lines ++ ·) ?_
    have hself : (if t = "" then "" else t) = t := by
      split_ifs with h
      · exact h.symm
      · rfl
    rw [List.filterMap_cons, Row.shown, hself, shownLines, List.map_singleton,
      List.filter_singleton]
    by_cases hblank : rstrip t = "" <;> simp [Option.filter_some, hblank]

private theorem foldl_number (lines : List String) (s : ℤ) :
    ((lines.mapIdx fun i t => Row.entry (some (s + i + 1)) t "").filterMap Row.number).foldl max
      (s - 1) = if lines = [] then s - 1 else s + lines.length := by
  induction lines using List.reverseRecOn with
  | nil => rfl
  | append_singleton lines t ih =>
    rw [List.mapIdx_concat, List.filterMap_append, List.foldl_append, ih,
      if_neg (List.append_ne_nil_of_right_ne_nil _ (List.cons_ne_nil _ _)), List.length_append]
    change max _ (s + lines.length + 1) = _
    rw [List.length_singleton]
    split_ifs with h
    · subst h
      simp
      omega
    · omega

/-- **One window**: its lines, and the offset of the next one. -/
private theorem fetchTaskLog_pveLog (log : List String) (s : ℕ) :
    fetchTaskLog (pveLog log) s 80 = (shownLines ((log.drop s).take 80),
      ((if log.length ≤ s then s else min log.length (s + 80) + 1 : ℕ) : ℤ)) := by
  rw [fetchTaskLog, pveLog]
  simp only [Int.toNat_natCast]
  rw [filterMap_shown, foldl_number, show (80 : ℤ).toNat = 80 from rfl]
  refine Prod.ext rfl ?_
  have hlength : ((log.drop s).take 80).length = min 80 (log.length - s) := by
    rw [List.length_take, List.length_drop]
  by_cases hle : log.length ≤ s
  · have hnil : (log.drop s).take 80 = [] := by
      rw [List.drop_eq_nil_of_le hle, List.take_nil]
    simp [hnil, hle, shownLines]
  · have hne : (log.drop s).take 80 ≠ [] := by
      intro hnil
      rw [hnil, List.length_nil] at hlength
      omega
    simp only [if_neg hne, if_neg hle, hlength]
    rw [if_pos (by omega)]
    push_cast
    omega

/-! ### The loop -/

/-- A round of the loop, and the log as it is then. -/
structure Look where
  expired : Bool := false
  cancel : Bool := false
  status : Option TaskStatus
  seen : List String

/-- What the loop finds: Proxmox answers from the log. -/
def Look.poll (look : Look) : Poll where
  expired := look.expired
  cancel := look.cancel
  status := look.status
  get := pveLog look.seen

/-- The lengths of the log in the rounds that read it. -/
def lengths (looks : List Look) : List ℕ :=
  (looks.filter (·.status.isSome)).map (·.seen.length)

private theorem lengths_cons (look : Look) (looks : List Look) :
    lengths (look :: looks) =
      if look.status.isSome = true then look.seen.length :: lengths looks else lengths looks := by
  rw [lengths, List.filter_cons]
  split_ifs <;> rfl

/-- **Nothing but blank lines is passed over**: neither behind a window with rows nor behind the
last one. -/
def NoneMissed (log : List String) : ℕ → List ℕ → Prop
  | s, [] => ∀ l ∈ log.drop s, rstrip l = ""
  | s, length :: rest =>
    if length ≤ s then NoneMissed log s rest
    else
      (∀ l ∈ log[min length (s + 80)]?, rstrip l = "") ∧
        NoneMissed log (min length (s + 80) + 1) rest

instance decidableNoneMissed (log : List String) :
    ∀ (s : ℕ) (lengths : List ℕ), Decidable (NoneMissed log s lengths)
  | s, [] => inferInstanceAs (Decidable (∀ l ∈ log.drop s, rstrip l = ""))
  | s, length :: rest =>
    have := decidableNoneMissed log s rest
    have := decidableNoneMissed log (min length (s + 80) + 1) rest
    inferInstanceAs (Decidable (if length ≤ s then NoneMissed log s rest
      else (∀ l ∈ log[min length (s + 80)]?, rstrip l = "") ∧
        NoneMissed log (min length (s + 80) + 1) rest))

/-- The lines that the rest of the loop hands on, from an offset. -/
private def handedFrom (log : List String) : ℕ → List ℕ → List String
  | _, [] => []
  | s, length :: rest =>
    shownLines (((log.take length).drop s).take 80) ++
      handedFrom log (if length ≤ s then s else min length (s + 80) + 1) rest

/-- What is left of the log, window by window. -/
private theorem shownLines_drop {length : ℕ} (hs : s < length) :
    shownLines (log.drop s) = shownLines (((log.take length).drop s).take 80) ++
      (shownLines (log[min length (s + 80)]?).toList ++
        shownLines (log.drop (min length (s + 80) + 1))) := by
  have hwindow : ((log.take length).drop s).take 80 =
      (log.drop s).take (min length (s + 80) - s) := by
    rw [List.drop_take, List.take_take]
    congr 1
    omega
  have hrest : (log.drop s).drop (min length (s + 80) - s) = log.drop (min length (s + 80)) := by
    rw [List.drop_drop]
    congr 1
    omega
  have hnext : log.drop (min length (s + 80)) = (log[min length (s + 80)]?).toList ++
      log.drop (min length (s + 80) + 1) := List.drop_eq_getElem?_toList_append
  rw [← shownLines_append, ← hnext, ← hrest, hwindow, ← shownLines_append, List.take_append_drop]

private theorem handedFrom_sublist (log : List String) (lengths : List ℕ) (s : ℕ) :
    (handedFrom log s lengths).Sublist (shownLines (log.drop s)) := by
  induction lengths generalizing s with
  | nil => exact List.nil_sublist _
  | cons length rest ih =>
    rw [handedFrom]
    split_ifs with h
    · have hnil : (log.take length).drop s = [] :=
        List.drop_eq_nil_of_le ((List.length_take_le _ _).trans h)
      rw [hnil]
      exact ih s
    · rw [shownLines_drop (Nat.lt_of_not_le h)]
      exact (List.Sublist.refl _).append ((ih _).trans (List.sublist_append_right _ _))

/-- **All lines are handed on** exactly if nothing but blank lines is passed over. -/
private theorem handedFrom_iff (log : List String) (lengths : List ℕ) (s : ℕ) :
    handedFrom log s lengths = shownLines (log.drop s) ↔ NoneMissed log s lengths := by
  induction lengths generalizing s with
  | nil =>
    rw [NoneMissed, ← shownLines_eq_nil_iff]
    exact eq_comm
  | cons length rest ih =>
    rw [handedFrom, NoneMissed]
    split_ifs with h
    · have hnil : (log.take length).drop s = [] :=
        List.drop_eq_nil_of_le ((List.length_take_le _ _).trans h)
      rw [hnil]
      exact ih s
    · have hnext : (∀ l ∈ log[min length (s + 80)]?, rstrip l = "") ↔
          shownLines (log[min length (s + 80)]?).toList = [] := by
        simp [shownLines_eq_nil_iff]
      rw [shownLines_drop (Nat.lt_of_not_le h), List.append_cancel_left_eq, hnext, ← ih]
      have hsub := handedFrom_sublist log rest (min length (s + 80) + 1)
      constructor
      · intro heq
        -- what is handed on is no longer than what is left, so nothing comes in between
        have hlen := congrArg List.length heq
        rw [List.length_append] at hlen
        have hnil : shownLines (log[min length (s + 80)]?).toList = [] :=
          List.length_eq_zero_iff.mp (by have := hsub.length_le; omega)
        rw [hnil, List.nil_append] at heq
        exact ⟨hnil, heq⟩
      · rintro ⟨hnil, heq⟩
        rw [hnil, List.nil_append, heq]

/-- **One round of the loop**: it gives up, or reads nothing, or hands on a window and either ends
there or goes on from the next offset. -/
private theorem pollTask_cases (look : Look) (s : ℕ) :
    (∃ out : Outcome, out ≠ .waiting ∧ ¬ out.Stopped ∧
      ∀ polls, pollTask s (look.poll :: polls) = ([], out)) ∨
    (look.status.isSome = false ∧ ∀ polls, pollTask s (look.poll :: polls) = pollTask s polls) ∨
    (look.status.isSome = true ∧
      ((∃ out : Outcome, out ≠ .waiting ∧ ∀ polls, pollTask s (look.poll :: polls) =
        ([shownLines ((look.seen.drop s).take 80)], out)) ∨
      ∃ next : ℕ, (next = if look.seen.length ≤ s then s else min look.seen.length (s + 80) + 1) ∧
        ∀ polls, pollTask s (look.poll :: polls) = (shownLines ((look.seen.drop s).take 80) ::
          (pollTask next polls).1, (pollTask next polls).2))) := by
  obtain ⟨expired, cancel, status, seen⟩ := look
  cases expired with
  | true => exact .inl ⟨.timedOut, nofun, id, fun _ => rfl⟩
  | false =>
    cases cancel with
    | true => exact .inl ⟨.cancelled, nofun, id, fun _ => rfl⟩
    | false =>
      cases status with
      | none => exact .inr (.inl ⟨rfl, fun _ => rfl⟩)
      | some status =>
        refine .inr (.inr ⟨rfl, ?_⟩)
        have hround : ∀ polls, pollTask s (Look.poll ⟨false, false, some status, seen⟩ :: polls) =
            if Text.lower status.status = "stopped" then
              if status.exitstatus ≠ "" ∧ Text.lower status.exitstatus ≠ "ok" then
                ([shownLines ((seen.drop s).take 80)],
                  .failed (explainPveTaskFailure status.exitstatus))
              else ([shownLines ((seen.drop s).take 80)], .returned)
            else
              let rest := pollTask
                ((if seen.length ≤ s then s else min seen.length (s + 80) + 1 : ℕ) : ℤ) polls
              (shownLines ((seen.drop s).take 80) :: rest.1, rest.2) := by
          intro polls
          rw [Look.poll, pollTask]
          simp only [Bool.false_eq_true, if_false, fetchTaskLog_pveLog]
        by_cases hstopped : Text.lower status.status = "stopped"
        · refine .inl ?_
          by_cases hfailed : status.exitstatus ≠ "" ∧ Text.lower status.exitstatus ≠ "ok"
          · exact ⟨.failed _, nofun, fun polls => by rw [hround, if_pos hstopped, if_pos hfailed]⟩
          · exact ⟨.returned, nofun, fun polls => by rw [hround, if_pos hstopped, if_neg hfailed]⟩
        · exact .inr ⟨_, rfl, fun polls => by rw [hround, if_neg hstopped]⟩

/-- What the loop hands on, if it ends with the last round because the task has stopped. -/
private theorem pollTask_handed {last : Look} {looks : List Look}
    (hseen : ∀ look ∈ looks ++ [last], look.seen = log.take look.seen.length)
    (hwaiting : (pollTask s (looks.map Look.poll)).2 = .waiting)
    (hstopped : (pollTask s ((looks ++ [last]).map Look.poll)).2.Stopped) :
    (pollTask s ((looks ++ [last]).map Look.poll)).1.flatten =
      handedFrom log s (lengths (looks ++ [last])) := by
  induction looks generalizing s with
  | nil =>
    rw [List.nil_append, List.map_singleton] at hstopped ⊢
    rcases pollTask_cases last s with ⟨out, -, hnot, heq⟩ | ⟨-, heq⟩ | ⟨hsome, hread⟩
    · rw [heq] at hstopped
      exact absurd hstopped hnot
    · rw [heq] at hstopped
      exact hstopped.elim
    · rcases hread with ⟨out, -, heq⟩ | ⟨next, -, heq⟩
      · have hlengths : lengths [last] = [last.seen.length] := by
          rw [lengths_cons, hsome]
          rfl
        rw [heq, hlengths, handedFrom, handedFrom, ← hseen last List.mem_cons_self]
        simp
      · rw [heq] at hstopped
        exact hstopped.elim
  | cons look looks ih =>
    obtain ⟨hlook, hseen⟩ := List.forall_mem_cons.mp hseen
    rw [List.cons_append, List.map_cons] at hstopped ⊢
    rw [List.map_cons] at hwaiting
    rcases pollTask_cases look s with ⟨out, hnot, -, heq⟩ | ⟨hnone, heq⟩ | ⟨hsome, hread⟩
    · rw [heq] at hwaiting
      exact absurd hwaiting hnot
    · rw [heq] at hwaiting hstopped ⊢
      rw [lengths_cons, hnone]
      exact ih hseen hwaiting hstopped
    · rcases hread with ⟨out, hnot, heq⟩ | ⟨next, hnext, heq⟩
      · rw [heq] at hwaiting
        exact absurd hwaiting hnot
      · rw [heq] at hwaiting hstopped ⊢
        rw [lengths_cons, hsome, if_pos rfl, handedFrom, ← hlook, List.flatten_cons, ← hnext,
          ih hseen hwaiting hstopped]

/-! ### Logs without blank lines -/

/-- There is nothing to miss behind the end of the log. -/
private theorem noneMissed_of_le {lengths : List ℕ} (hle : ∀ n ∈ lengths, n ≤ log.length)
    (hs : log.length ≤ s) : NoneMissed log s lengths := by
  induction lengths with
  | nil =>
    intro l hl
    rw [List.drop_eq_nil_of_le hs] at hl
    exact absurd hl List.not_mem_nil
  | cons length rest ih =>
    obtain ⟨hlength, hrest⟩ := List.forall_mem_cons.mp hle
    rw [NoneMissed, if_pos (hlength.trans hs)]
    exact ih hrest

/-- **A log without blank lines** is handed on whole only if the first round that finds lines finds
all of them, and no more than a window holds. -/
theorem noneMissed_iff_of_filled (hfilled : ∀ l ∈ log, rstrip l ≠ "") {lengths : List ℕ}
    (hle : ∀ n ∈ lengths, n ≤ log.length) (hlast : lengths.getLast? = some log.length) :
    NoneMissed log 0 lengths ↔
      ∀ n, lengths.find? (0 < ·) = some n → n = log.length ∧ n ≤ 80 := by
  induction lengths with
  | nil => cases hlast
  | cons length rest ih =>
    obtain ⟨hlength, hrest⟩ := List.forall_mem_cons.mp hle
    rw [NoneMissed]
    split_ifs with hzero
    · rw [List.find?_cons_of_neg (by simpa using hzero)]
      cases rest with
      | nil =>
        -- the log is empty
        obtain rfl : length = log.length := Option.some.inj hlast
        rw [List.length_eq_zero_iff.mp (Nat.le_zero.mp hzero)]
        exact ⟨fun _ n hn => (by cases hn), fun _ l hl => absurd hl List.not_mem_nil⟩
      | cons next rest => exact ih hrest (by rwa [List.getLast?_cons_cons] at hlast)
    · rw [List.find?_cons_of_pos (by simpa using Nat.pos_of_ne_zero (by omega)), Nat.zero_add]
      have hnext : (∀ l ∈ log[min length 80]?, rstrip l = "") ↔ log.length ≤ min length 80 := by
        constructor
        · intro hblank
          by_contra hlt
          have hget := List.getElem?_eq_getElem (Nat.lt_of_not_le hlt)
          exact hfilled _ (List.getElem_mem _) (hblank _ hget)
        · intro hend l hl
          rw [List.getElem?_eq_none hend] at hl
          cases hl
      rw [hnext]
      constructor
      · rintro ⟨hend, -⟩ n hn
        obtain rfl := Option.some.inj hn
        omega
      · intro h
        obtain ⟨hall, hwindow⟩ := h length rfl
        exact ⟨by omega, noneMissed_of_le hrest (by omega)⟩

/-! ### The lines that are handed on -/

private theorem prefix_of_grows {looks : List Look} {last : Look}
    (hgrows : (looks ++ [last]).IsChain fun a b => a.seen <+: b.seen) :
    ∀ look ∈ looks ++ [last], look.seen <+: last.seen := by
  have htrans : IsTrans Look fun a b => a.seen <+: b.seen := ⟨fun _ _ _ => List.IsPrefix.trans⟩
  have hpairwise := (List.pairwise_append.mp (List.isChain_iff_pairwise.mp hgrows)).2.2
  refine List.forall_mem_append.mpr ⟨fun look hlook => hpairwise look hlook last
    List.mem_cons_self, List.forall_mem_singleton.mpr List.prefix_rfl⟩

/-- **No line is handed on twice or out of order.** -/
theorem handed_sublist {looks : List Look} {last : Look}
    (hgrows : (looks ++ [last]).IsChain fun a b => a.seen <+: b.seen)
    (hwaiting : (waitForTask (looks.map Look.poll)).2 = .waiting)
    (hstopped : (waitForTask ((looks ++ [last]).map Look.poll)).2.Stopped) :
    (waitForTask ((looks ++ [last]).map Look.poll)).1.flatten.Sublist (shownLines last.seen) := by
  have hseen : ∀ look ∈ looks ++ [last], look.seen = last.seen.take look.seen.length :=
    fun look hlook => List.prefix_iff_eq_take.mp (prefix_of_grows hgrows look hlook)
  have h := handedFrom_sublist last.seen (lengths (looks ++ [last])) 0
  rw [← pollTask_handed hseen hwaiting hstopped] at h
  exact h

/-- **When all lines are handed on.** The log grows from round to round, the loop goes on up to the
last round, and ends there because the task has stopped. -/
theorem handed_iff {looks : List Look} {last : Look}
    (hgrows : (looks ++ [last]).IsChain fun a b => a.seen <+: b.seen)
    (hwaiting : (waitForTask (looks.map Look.poll)).2 = .waiting)
    (hstopped : (waitForTask ((looks ++ [last]).map Look.poll)).2.Stopped) :
    (waitForTask ((looks ++ [last]).map Look.poll)).1.flatten = shownLines last.seen ↔
      NoneMissed last.seen 0 (lengths (looks ++ [last])) := by
  have hseen : ∀ look ∈ looks ++ [last], look.seen = last.seen.take look.seen.length :=
    fun look hlook => List.prefix_iff_eq_take.mp (prefix_of_grows hgrows look hlook)
  have h := handedFrom_iff last.seen (lengths (looks ++ [last])) 0
  rw [← pollTask_handed hseen hwaiting hstopped] at h
  exact h

/-- A log that is there at the first look, and then no more, is handed on. -/
theorem handed_iff_short : (waitForTask ([
    { status := some { status := "running" }, seen := ["a", "b"] },
    { status := some { status := "stopped", exitstatus := "OK" }, seen := ["a", "b"] }].map
      Look.poll)).1.flatten = ["a", "b"] :=
  (@handed_iff [{ status := some { status := "running" }, seen := ["a", "b"] }]
    { status := some { status := "stopped", exitstatus := "OK" }, seen := ["a", "b"] }
    (by simp) (by decide) trivial).mpr (by decide)

/-- **A line is lost**: the second of two that come one by one. -/
theorem second_line_lost : ¬ ∀ (looks : List Look) (last : Look),
    ((looks ++ [last]).IsChain fun a b => a.seen <+: b.seen) →
    (waitForTask (looks.map Look.poll)).2 = .waiting →
    (waitForTask ((looks ++ [last]).map Look.poll)).2.Stopped →
    (waitForTask ((looks ++ [last]).map Look.poll)).1.flatten = shownLines last.seen := by
  intro h
  have heq := h [{ status := some { status := "running" }, seen := ["a"] }]
    { status := some { status := "stopped", exitstatus := "OK" }, seen := ["a", "b"] }
    (by simp) (by decide) trivial
  exact absurd heq (by decide)

end TaskLog

end RestoreEngine
