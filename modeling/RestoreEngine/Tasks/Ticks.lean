import Mathlib.Data.List.Induction
import Mathlib.Tactic.Linarith
import RestoreEngine.Model.Progress
import RestoreEngine.Model.Text

/-!
# The time of a tick

`on_tick` keeps the time of the last poll and the last byte counter, and updates the time at every
poll but the counter only at polls that bring one. So the time that goes with a counter is the time
since the poll before, not since the poll that recorded it: they are the same exactly if no poll
came in between, or if both are below the floor of a millisecond (`tickTimes_iff`).
-/

namespace RestoreEngine

namespace Progress

variable {parse : List String → Option (ParsedProgress ℚ)} {env : TickEnv} {st : TickState}
  {polls before : List Poll} {p q : Poll}

/-- The byte counter of a poll. -/
def counter (parse : List String → Option (ParsedProgress ℚ)) (p : Poll) : Option ℤ :=
  if p.newLines = [] then none else (parse p.newLines).bind (·.bytesDone)

/-- The last poll that brought a byte counter. -/
def recorder (parse : List String → Option (ParsedProgress ℚ)) (polls : List Poll) : Option Poll :=
  polls.reverse.find? fun p => (counter parse p).isSome

/-! ### One tick -/

private theorem onTick_lastTick (p : Poll) : (onTick parse env st p).1.lastTick = p.now := by
  rw [onTick]
  split_ifs
  · rfl
  · cases parse p.newLines <;> rfl

private theorem onTick_prevBytes (p : Poll) :
    (onTick parse env st p).1.prevBytes = (counter parse p).or st.prevBytes := by
  rw [onTick, counter]
  split_ifs
  · rfl
  · cases parse p.newLines with
    | none => rfl
    | some parsed => exact Option.orElse_eq_or.trans rfl

/-- What the metrics are called with. -/
private theorem onTick_args {args : TickArgs} (h : (onTick parse env st p).2 = some args) :
    args.tickDtSec = max (1 / 1000) (p.now - st.lastTick) ∧ args.prevBytesDone = st.prevBytes := by
  rw [onTick] at h
  split_ifs at h
  cases hparse : parse p.newLines with
  | none => rw [hparse] at h; cases h
  | some parsed =>
    rw [hparse] at h
    obtain rfl := Option.some.inj h
    exact ⟨rfl, rfl⟩

/-! ### All ticks -/

private theorem ticks_concat (polls : List Poll) (p : Poll) :
    ticks parse env st (polls ++ [p]) = (onTick parse env (ticks parse env st polls) p).1 := by
  rw [ticks, List.foldl_append]
  rfl

/-- The time is that of the last poll. -/
private theorem ticks_lastTick (polls : List Poll) :
    (ticks parse env st polls).lastTick = (polls.getLast?.map (·.now)).getD st.lastTick := by
  induction polls using List.reverseRecOn with
  | nil => rfl
  | append_singleton polls p ih =>
    rw [ticks_concat, onTick_lastTick, List.getLast?_concat]
    rfl

/-- The counter is that of the last poll that brought one. -/
private theorem ticks_prevBytes (hstart : st.prevBytes = none) (polls : List Poll) :
    (ticks parse env st polls).prevBytes = (recorder parse polls).bind (counter parse) := by
  induction polls using List.reverseRecOn with
  | nil => exact hstart
  | append_singleton polls p ih =>
    rw [ticks_concat, onTick_prevBytes, ih, recorder, recorder, List.reverse_append]
    change _ = (List.find? _ (p :: polls.reverse)).bind _
    cases hcounter : counter parse p with
    | none =>
      rw [List.find?_cons_of_neg (by rw [hcounter]; nofun), Option.none_or]
    | some bytes =>
      rw [List.find?_cons_of_pos (by rw [hcounter]; rfl), Option.bind_some, hcounter]
      rfl

/-! ### The time that goes with a counter -/

/-- **The times are right**: where the metrics are called with a previous counter, a poll recorded
that counter, the time is the time since that poll, at least a millisecond, and the instantaneous
rate is the number of bytes since then by that time. -/
def TickTimes (parse : List String → Option (ParsedProgress ℚ)) (env : TickEnv) (st : TickState)
    (polls : List Poll) : Prop :=
  ∀ before p after args bytes, polls = before ++ p :: after →
    (onTick parse env (ticks parse env st before) p).2 = some args →
    args.prevBytesDone = some bytes →
    ∃ q, recorder parse before = some q ∧ counter parse q = some bytes ∧
      args.tickDtSec = max (1 / 1000) (p.now - q.now) ∧
      ∀ rate, args.instant = some rate → ∃ done, args.parsed.bytesDone = some done ∧
        rate = ((done - bytes : ℤ) : ℚ) / max (1 / 1000) (p.now - q.now)

/-- **In step**: a poll whose lines are parsed follows at once on the one that recorded the last
counter, or within a millisecond. -/
def InStep (parse : List String → Option (ParsedProgress ℚ)) (polls : List Poll) : Prop :=
  ∀ before p after q, polls = before ++ p :: after → p.newLines ≠ [] →
    (parse p.newLines).isSome → recorder parse before = some q →
    before.getLast? = some q ∨ p.now - q.now ≤ 1 / 1000

/-- The poll before and an earlier one give the same time only below the floor. -/
private theorem dt_eq_iff {last q p floor : ℚ} (h : q < last) :
    max floor (p - last) = max floor (p - q) ↔ p - q ≤ floor := by
  constructor
  · intro heq
    by_contra hlt
    rw [not_le] at hlt
    rw [max_eq_right hlt.le] at heq
    rcases max_choice floor (p - last) with hmax | hmax
    · linarith
    · linarith
  · intro hle
    rw [max_eq_left hle, max_eq_left (by linarith)]

/-- The instantaneous rate is over the time of the tick. -/
private theorem instant_eq {args : TickArgs} {rate : ℚ} {bytes : ℤ}
    (hprev : args.prevBytesDone = some bytes) (h : args.instant = some rate) :
    ∃ done, args.parsed.bytesDone = some done ∧
      rate = ((done - bytes : ℤ) : ℚ) / args.tickDtSec := by
  rw [TickArgs.instant, hprev] at h
  cases hdone : args.parsed.bytesDone with
  | none => rw [hdone] at h; cases h
  | some done =>
    rw [hdone] at h
    dsimp only at h
    split_ifs at h
    exact ⟨done, rfl, (Option.some.inj h).symm⟩

/-- The metrics are called when lines are parsed. -/
private theorem onTick_calls (p : Poll) (hlines : p.newLines ≠ [])
    (hparse : (parse p.newLines).isSome) : ∃ args, (onTick parse env st p).2 = some args := by
  obtain ⟨parsed, hparsed⟩ := Option.isSome_iff_exists.mp hparse
  rw [onTick, if_neg hlines, hparsed]
  exact ⟨_, rfl⟩

private theorem parsed_of_calls {args : TickArgs} (h : (onTick parse env st p).2 = some args) :
    p.newLines ≠ [] ∧ (parse p.newLines).isSome := by
  rw [onTick] at h
  split_ifs at h with hlines
  refine ⟨hlines, ?_⟩
  cases hparse : parse p.newLines with
  | none => rw [hparse] at h; cases h
  | some parsed => rfl

/-- **When the times are right**: exactly if the polls with lines keep in step. -/
theorem tickTimes_iff (hstart : st.prevBytes = none)
    (htimes : polls.Pairwise fun a b => a.now < b.now) :
    TickTimes parse env st polls ↔ InStep parse polls := by
  have hdt : ∀ before p after q, polls = before ++ p :: after → recorder parse before = some q →
      (max (1 / 1000) (p.now - (ticks parse env st before).lastTick) =
        max (1 / 1000) (p.now - q.now) ↔
          before.getLast? = some q ∨ p.now - q.now ≤ 1 / 1000) := by
    intro before p after q hpolls hq
    have hmem : q ∈ before := List.mem_reverse.mp (List.mem_of_find?_eq_some hq)
    obtain ⟨init, last, rfl⟩ : ∃ init last, before = init ++ [last] :=
      ⟨_, _, (List.dropLast_append_getLast (List.ne_nil_of_mem hmem)).symm⟩
    rw [ticks_lastTick, List.getLast?_concat, Option.map_some, Option.getD_some]
    rcases List.mem_append.mp hmem with hinit | hlast
    · have hlt : q.now < last.now := by
        rw [hpolls, List.append_assoc] at htimes
        exact (List.pairwise_append.mp htimes).2.2 q hinit last List.mem_cons_self
      rw [dt_eq_iff hlt, Option.some.injEq]
      refine ⟨.inr, fun h => h.resolve_left ?_⟩
      rintro rfl
      exact lt_irrefl _ hlt
    · obtain rfl := List.mem_singleton.mp hlast
      exact ⟨fun _ => .inl rfl, fun _ => rfl⟩
  constructor
  · intro hright before p after q hpolls hlines hparse hq
    obtain ⟨args, hargs⟩ : ∃ args, (onTick parse env (ticks parse env st before) p).2 = some args :=
      onTick_calls p hlines hparse
    obtain ⟨hdtEq, hprev⟩ := onTick_args hargs
    have hsome : (counter parse q).isSome = true :=
      List.find?_some (p := fun p => (counter parse p).isSome) hq
    obtain ⟨bytes, hbytes⟩ := Option.isSome_iff_exists.mp hsome
    rw [ticks_prevBytes hstart, hq, Option.bind_some, hbytes] at hprev
    obtain ⟨q', hq', -, htime, -⟩ := hright before p after args bytes hpolls hargs hprev
    obtain rfl := Option.some.inj (hq.symm.trans hq')
    rw [hdtEq] at htime
    exact (hdt before p after q hpolls hq).mp htime
  · intro hstep before p after args bytes hpolls hargs hprev
    obtain ⟨hdtEq, hprevEq⟩ := onTick_args hargs
    rw [hprev, ticks_prevBytes hstart] at hprevEq
    obtain ⟨q, hq, hbytes⟩ := Option.bind_eq_some_iff.mp hprevEq.symm
    obtain ⟨hlines, hparse⟩ := parsed_of_calls hargs
    have htime : args.tickDtSec = max (1 / 1000) (p.now - q.now) :=
      hdtEq.trans ((hdt before p after q hpolls hq).mpr
        (hstep before p after q hpolls hlines hparse hq))
    refine ⟨q, hq, hbytes, htime, fun rate hrate => ?_⟩
    rw [← htime]
    exact instant_eq hprev hrate

/-- A parser that reads one number. -/
private def oneNumber (lines : List String) : Option (ParsedProgress ℚ) :=
  some { bytesDone := lines.getLast?.bind Text.parseInt }

/-- Two polls with counters, one after the other. -/
theorem tickTimes_iff_two : TickTimes oneNumber {} { lastTick := 0 }
    [{ now := 3, newLines := ["100"] }, { now := 6, newLines := ["700"] }] := by
  refine (tickTimes_iff rfl (by simp; norm_num)).mpr ?_
  rintro before p after q hpolls - - hq
  have hmem : q ∈ before := List.mem_reverse.mp (List.mem_of_find?_eq_some hq)
  match before, hpolls with
  | [], _ => exact absurd hmem List.not_mem_nil
  | [x], _ =>
    rw [List.mem_singleton.mp hmem]
    exact .inl rfl
  | _ :: _ :: before, hpolls =>
    have hlength := congrArg List.length hpolls
    simp only [List.length_cons, List.length_append, List.length_nil] at hlength
    omega

/-- **A rate that is twice too high**: a poll without lines lies between the counters. -/
theorem rate_too_high : ¬ ∀ (parse : List String → Option (ParsedProgress ℚ)) (env : TickEnv)
    (st : TickState) (polls : List Poll), st.prevBytes = none →
    polls.Pairwise (fun a b => a.now < b.now) → TickTimes parse env st polls := by
  intro h
  have hright := h oneNumber {} { lastTick := 0 } [{ now := 3, newLines := ["100"] },
    { now := 6, newLines := [] }, { now := 9, newLines := ["700"] }] rfl (by simp; norm_num)
  obtain ⟨q, hq, -, htime, -⟩ := hright
    [{ now := 3, newLines := ["100"] }, { now := 6, newLines := [] }]
    { now := 9, newLines := ["700"] } [] _ 100 rfl rfl rfl
  have hrecorder : recorder oneNumber [{ now := 3, newLines := ["100"] },
      { now := 6, newLines := [] }] = some { now := 3, newLines := ["100"] } := rfl
  obtain rfl := Option.some.inj (hrecorder.symm.trans hq)
  have hdt : max (1 / 1000) ((9 : ℚ) - 6) = max (1 / 1000) (9 - 3) := htime
  norm_num at hdt

end Progress

end RestoreEngine
