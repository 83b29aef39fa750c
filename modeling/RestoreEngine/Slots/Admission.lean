import RestoreEngine.Effects.Census
import RestoreEngine.Model.Changes
import RestoreEngine.Model.Slots
import RestoreEngine.Protocols.Rules

/-!
# Admission to the slots

Any number of programs take slots and give them back, their INCR and DECR commands interleaved
in any order, each with a limit of its own. The counter is at all times the number of slots that
are held plus the number of attempts that exceeded their limit and are not rolled back yet
(`slots_admission`). A successful attempt leaves no more slots held than its limit says, because
the value that INCR returned counts at least the slots held.
-/

namespace RestoreEngine

open Effects Prog Program

/-! ### The protocol of a slot -/

/-- Where a program stands with respect to its slot. -/
inductive SlotPhase
  /-- No slot has been asked for. -/
  | outside
  /-- INCR exceeded the limit and is still to be rolled back. -/
  | exceeding
  | holding
  /-- The slot was given back, or the attempt rolled back. -/
  | done
  /-- DECR returned a negative number. -/
  | negative
  deriving DecidableEq

/-- What a program knows of its slot: the limit of its attempt and its phase. -/
structure SlotView where
  limit : ℤ
  phase : SlotPhase := .outside

/-- The cap that an attempt compares with. -/
def SlotView.cap (m : SlotView) : ℤ := max 1 m.limit

/-- Commands that leave the counter of slots alone. -/
def Op.SparesSlots : Op → Prop
  | setSlots _ | incrSlots | decrSlots => False
  | _ => True

instance (o : Op) : Decidable o.SparesSlots := by
  cases o <;> unfold Op.SparesSlots <;> infer_instance

/-- **The protocol of a slot**: INCR once; DECR once if that exceeded the limit; otherwise
anything that leaves the counter alone, and then DECR once. -/
def slotProtocol : Protocol commands SlotView where
  observe m o r :=
    match o with
    | .incrSlots => { m with phase := if m.cap < r then .exceeding else .holding }
    | .decrSlots =>
      { m with phase := if m.phase = .exceeding ∨ 0 ≤ r then .done else .negative }
    | _ => m
  Permits m o :=
    match o with
    | .incrSlots => m.phase = .outside
    | .decrSlots => m.phase = .exceeding ∨ m.phase = .holding
    | .setSlots n => m.phase = .negative ∧ n = 0
    | o => o.SparesSlots

theorem slotProtocol_observe_spares {m : SlotView} {o : Op} {r : o.Res} (h : o.SparesSlots) :
    slotProtocol.observe m o r = m := by
  cases o <;> first | exact h.elim | rfl

theorem slotProtocol_permits_spares {m : SlotView} {o : Op} (h : o.SparesSlots) :
    slotProtocol.Permits m o := by
  cases o <;> first | exact h.elim | trivial

private theorem releaseSlot_onProtocol {m : SlotView} (h : m.phase = .holding) :
    Satisfies slotProtocol.machine (fun _ _ => True) m releaseSlot := by
  rw [releaseSlot, satisfies_bind, onProtocol_issue]
  refine ⟨.inr h, fun n => ?_⟩
  rw [then_ok]
  refine Satisfies.ite (fun hneg => ?_) fun _ => satisfies_ret.mpr trivial
  refine (onProtocol_issue (.setSlots 0)).mpr ⟨⟨if_neg ?_, rfl⟩, fun _ => trivial⟩
  rintro (hex | hle)
  · rw [h] at hex
    cases hex
  · exact absurd hneg (not_lt.mpr hle)

/-- Work in a slot keeps to the protocol. -/
theorem withSlot_onProtocol {limit : ℤ} {body : Prog Unit} (h : body.Only Op.SparesSlots) :
    Satisfies slotProtocol.machine (fun _ _ => True) { limit } (withSlot limit body) := by
  rw [withSlot, satisfies_bind, tryAcquireSlot, satisfies_bind, onProtocol_issue]
  refine ⟨rfl, fun n => ?_⟩
  rw [then_ok]
  refine Satisfies.ite (fun hex => ?_) fun hle => ?_
  · -- over the limit: the increment is taken back
    rw [satisfies_bind, onProtocol_issue]
    refine ⟨.inl (if_pos hex), fun n' => ?_⟩
    rw [then_ok]
    refine satisfies_ret.mpr ?_
    rw [then_ok, if_neg Bool.false_ne_true]
    exact satisfies_ret.mpr trivial
  · -- admitted: the body, and then the slot is given back
    refine satisfies_ret.mpr ?_
    rw [then_ok, if_pos rfl, satisfies_bind, satisfies_attempt]
    refine (onProtocol_of_only h (fun _ => slotProtocol_permits_spares)
      fun _ _ => slotProtocol_observe_spares).mono ?_
    rintro out m rfl
    rw [then_ok, satisfies_bind]
    refine (releaseSlot_onProtocol (if_neg hle)).mono ?_
    rintro (e | u) m -
    · rw [then_error]
      trivial
    · rw [then_ok]
      exact satisfies_ofExcept.mpr trivial

/-! ### The invariant -/

/-- The programs that hold a slot. -/
abbrev holders {ι : Type} (v : ι → SlotView) : Set ι := census (fun m => m.phase = .holding) v

/-- The programs whose attempt exceeded its limit and is not rolled back yet. -/
abbrev exceeders {ι : Type} (v : ι → SlotView) : Set ι :=
  census (fun m => m.phase = .exceeding) v

/-- The counter counts the slots held and the attempts to be rolled back. -/
structure SlotsCounted {ι : Type} (w : World) (v : ι → SlotView) : Prop where
  finite_holders : (holders v).Finite
  finite_exceeders : (exceeders v).Finite
  counted : w.slots = (holders v).ncard + (exceeders v).ncard
  -- DECR is only issued where something was counted
  never_negative : ∀ i, (v i).phase ≠ .negative

variable {ι : Type} [DecidableEq ι] {w w' : World} {v : ι → SlotView} {i : ι}

private theorem Op.SparesSlots.slotsAfter {o : Op} (ho : o.SparesSlots) :
    o.slotsAfter w = w.slots := by
  cases o <;> first | exact ho.elim | rfl

namespace SlotsCounted

private theorem never_negative_update {m : SlotView} (h : SlotsCounted w v)
    (hm : m.phase ≠ .negative) (j : ι) : (Function.update v i m j).phase ≠ .negative := by
  by_cases hj : j = i
  · subst hj
    rwa [Function.update_self]
  · rw [Function.update_of_ne hj]
    exact h.never_negative j

/-- A step to a view whose phase is not negative keeps the count if the counter is right. -/
private theorem update {m : SlotView} (h : SlotsCounted w v) (hm : m.phase ≠ .negative)
    (hcounted : w'.slots = (holders (Function.update v i m)).ncard +
      (exceeders (Function.update v i m)).ncard) : SlotsCounted w' (Function.update v i m) where
  finite_holders := finite_census_update h.finite_holders
  finite_exceeders := finite_census_update h.finite_exceeders
  counted := hcounted
  never_negative := h.never_negative_update hm

/-- INCR makes an attempt a holder, or one that exceeds its limit. -/
private theorem incr {m : SlotView} (h : SlotsCounted w v) (hi : (v i).phase = .outside)
    (hm : m.phase = .exceeding ∨ m.phase = .holding) (hslots : w'.slots = w.slots + 1) :
    SlotsCounted w' (Function.update v i m) := by
  have hcounted := h.counted
  have hnotHolding : ¬ (v i).phase = .holding := by rw [hi]; nofun
  have hnotExceeding : ¬ (v i).phase = .exceeding := by rw [hi]; nofun
  rcases hm with hm | hm
  · have hholders : holders (Function.update v i m) = holders v :=
      census_update_same (by simp [hm, hnotHolding])
    have hexceeders : (exceeders (Function.update v i m)).ncard = (exceeders v).ncard + 1 :=
      ncard_census_enter h.finite_exceeders hnotExceeding hm
    refine h.update (by rw [hm]; nofun) ?_
    rw [hholders]
    omega
  · have hexceeders : exceeders (Function.update v i m) = exceeders v :=
      census_update_same (by simp [hm, hnotExceeding])
    have hholders : (holders (Function.update v i m)).ncard = (holders v).ncard + 1 :=
      ncard_census_enter h.finite_holders hnotHolding hm
    refine h.update (by rw [hm]; nofun) ?_
    rw [hexceeders]
    omega

omit [DecidableEq ι] in
/-- A holder is counted, so that the counter is positive. -/
private theorem slots_pos (h : SlotsCounted w v) (hi : (v i).phase = .holding) : 0 < w.slots := by
  have hpos : 0 < (holders v).ncard := (Set.ncard_pos h.finite_holders).mpr ⟨i, hi⟩
  have hcounted := h.counted
  omega

/-- DECR rolls an attempt back, or gives a slot back. -/
private theorem decr {m : SlotView} (h : SlotsCounted w v)
    (hi : (v i).phase = .exceeding ∨ (v i).phase = .holding) (hm : m.phase = .done)
    (hslots : w'.slots = w.slots - 1) : SlotsCounted w' (Function.update v i m) := by
  have hcounted := h.counted
  have hnotHolding : ¬ m.phase = .holding := by rw [hm]; nofun
  have hnotExceeding : ¬ m.phase = .exceeding := by rw [hm]; nofun
  rcases hi with hi | hi
  · have hholders : holders (Function.update v i m) = holders v :=
      census_update_same (by simp [hi, hnotHolding])
    have hexceeders : (exceeders (Function.update v i m)).ncard + 1 = (exceeders v).ncard :=
      ncard_census_leave h.finite_exceeders hi hnotExceeding
    refine h.update (by rw [hm]; nofun) ?_
    rw [hholders]
    omega
  · have hexceeders : exceeders (Function.update v i m) = exceeders v :=
      census_update_same (by simp [hi, hnotExceeding])
    have hholders : (holders (Function.update v i m)).ncard + 1 = (holders v).ncard :=
      ncard_census_leave h.finite_holders hi hnotHolding
    refine h.update (by rw [hm]; nofun) ?_
    rw [hexceeders]
    omega

/-- **The step lemma**: every command that the protocol permits keeps the count. -/
theorem step {o : Op} {a : Answer} {r : o.Res} (h : SlotsCounted w v)
    (hpermits : slotProtocol.Permits (v i) o) (henv : environment o a w = some (r, w')) :
    SlotsCounted w' (Function.update v i (slotProtocol.observe (v i) o r)) := by
  have hslots := (after_step henv).slots
  by_cases ho : o.SparesSlots
  · rw [slotProtocol_observe_spares ho, Function.update_eq_self]
    exact ⟨h.finite_holders, h.finite_exceeders, (hslots.trans ho.slotsAfter).trans h.counted,
      h.never_negative⟩
  · cases o with
    | setSlots n => exact absurd hpermits.1 (h.never_negative i)
    | incrSlots =>
      refine h.incr hpermits ?_ hslots
      by_cases hn : (v i).cap < r
      · exact .inl (if_pos hn)
      · exact .inr (if_neg hn)
    | decrSlots =>
      have hr : r = w'.slots := by
        cases henv
        rfl
      refine h.decr hpermits (if_pos ?_) hslots
      rcases hpermits with hi | hi
      · exact .inl hi
      · have hpos := h.slots_pos hi
        have hle : 0 ≤ w'.slots := by
          have hslots' : w'.slots = w.slots - 1 := hslots
          omega
        exact .inr (hr ▸ hle)
    | _ => exact absurd trivial ho

end SlotsCounted

/-! ### Admission -/

/-- The pool of the programs that do `body i` in a slot, with the limit `limit i`. -/
def slotPool {ι : Type} (w : World) (limit : ι → ℤ) (body : ι → Prog Unit) :
    Pool commands Exn World SlotView ι where
  world := w
  proc i := withSlot (limit i) (body i)
  view i := { limit := limit i }

/-- The limit of a program's attempt never changes. -/
private theorem limit_observe (m : SlotView) (o : Op) (r : o.Res) :
    (slotProtocol.observe m o r).limit = m.limit := by
  cases o <;> rfl

variable {limit : ι → ℤ} {body : ι → Prog Unit} {cond : Condition commands World SlotView ι}
  {c : Pool commands Exn World SlotView ι}

theorem slotsCounted_of_reachable (hw : w.slots = 0) (hbody : ∀ i, (body i).Only Op.SparesSlots)
    (h : Reachable environment slotProtocol cond (slotPool w limit body) c) :
    SlotsCounted c.world c.view := by
  have hnone : ∀ phase : SlotPhase, phase ≠ .outside →
      census (fun m => m.phase = phase) (slotPool w limit body).view = ∅ := fun phase hne => by
    ext i
    simpa [slotPool] using hne.symm
  refine h.invariant SlotsCounted (fun i => withSlot_onProtocol (hbody i)) ?_ ?_
  · refine ⟨?_, ?_, ?_, nofun⟩
    · rw [holders, hnone _ (by nofun)]
      exact Set.finite_empty
    · rw [exceeders, hnone _ (by nofun)]
      exact Set.finite_empty
    · rw [holders, hnone _ (by nofun), exceeders, hnone _ (by nofun)]
      simpa [slotPool] using hw
  · intro w v i o a r w' hinv hpermits henv _
    exact hinv.step hpermits henv

private theorem limit_of_reachable
    (h : Reachable environment slotProtocol cond (slotPool w limit body) c) (i : ι) :
    (c.view i).limit = limit i := by
  induction h with
  | refl => rfl
  | @step c j o k a r w hc hj hw hcond ih =>
    by_cases hij : i = j
    · subst hij
      simpa [Pool.advance, limit_observe] using ih
    · simpa [Pool.advance, hij] using ih

/-- An acquisition: the step makes the program that moves a holder. -/
def Acquires {ι : Type} (i : ι) (v v' : ι → SlotView) : Prop := i ∉ holders v ∧ i ∈ holders v'

/-- Only INCR acquires, -/
private theorem Acquires.incr {o : Op} {r : o.Res}
    (h : Acquires i v (Function.update v i (slotProtocol.observe (v i) o r))) :
    o = .incrSlots := by
  obtain ⟨hold, hnew⟩ := h
  rw [mem_census, Function.update_self] at hnew
  rw [mem_census] at hold
  cases o with
  | incrSlots => rfl
  | decrSlots =>
    have hphase : (slotProtocol.observe (v i) .decrSlots r).phase = .done ∨
        (slotProtocol.observe (v i) .decrSlots r).phase = .negative := by
      by_cases hr : (v i).phase = .exceeding ∨ 0 ≤ r
      · exact .inl (if_pos hr)
      · exact .inr (if_neg hr)
    rw [hnew] at hphase
    rcases hphase with hphase | hphase <;> cases hphase
  | _ => exact absurd hnew hold

/-- and only within the cap. -/
private theorem Acquires.le_cap {n : ℤ}
    (h : Acquires i v (Function.update v i (slotProtocol.observe (v i) .incrSlots n))) :
    n ≤ (v i).cap := by
  by_contra hlt
  have hnew := h.2
  rw [mem_census, Function.update_self] at hnew
  have hphase : (slotProtocol.observe (v i) .incrSlots n).phase = .exceeding :=
    if_pos (not_le.mp hlt)
  rw [hphase] at hnew
  cases hnew

/-- **Admission.** In every run of any number of programs that work in slots, whatever their
limits, the counter is the number of slots held plus the number of attempts not yet rolled back,
it is never negative, it is the number of holders when no attempt is to be rolled back, and an
acquisition leaves at most as many slots held as its limit says. -/
theorem slots_admission (hw : w.slots = 0) (hbody : ∀ i, (body i).Only Op.SparesSlots)
    (h : Reachable environment slotProtocol cond (slotPool w limit body) c) :
    c.world.slots = (holders c.view).ncard + (exceeders c.view).ncard ∧
      0 ≤ c.world.slots ∧
      (exceeders c.view = ∅ → c.world.slots = (holders c.view).ncard) ∧
      ∀ (i : ι) (o : Op) (k : o.Res → Prog Unit) (a : Answer) (r : o.Res) (w' : World),
        c.proc i = .call o k → environment o a c.world = some (r, w') →
        Acquires i c.view (c.advance slotProtocol i o k r w').view →
        (holders (c.advance slotProtocol i o k r w').view).ncard ≤ max 1 (limit i) := by
  have hinv := slotsCounted_of_reachable hw hbody h
  have hcounted := hinv.counted
  refine ⟨hcounted, by omega, fun hnone => ?_, fun i o k a r w' hi henv hacq => ?_⟩
  · rw [hcounted, hnone, Set.ncard_empty]
    omega
  · obtain rfl := hacq.incr
    have hpermits := h.permits (fun i => withSlot_onProtocol (hbody i)) hi
    have hafter := (hinv.step hpermits henv).counted
    have hle : w'.slots ≤ max 1 (limit i) := by
      have hr : r = w'.slots := by
        cases henv
        rfl
      have hcap := hacq.le_cap
      rwa [SlotView.cap, limit_of_reachable h, hr] at hcap
    change ((holders (Function.update c.view i _)).ncard : ℤ) ≤ _
    omega

/-- The work of a worker leaves the counter alone: workers take turns in slots. -/
theorem Op.OfWork.sparesSlots {o : Op} (h : o.OfWork) : o.SparesSlots := by
  rcases h with rfl | ⟨id, ho⟩
  · trivial
  · rcases ho with ho | ⟨node, p, rfl⟩ | ⟨node, v, rfl⟩
    · cases o <;> first | exact ho.elim | trivial
    · trivial
    · trivial

theorem claimJob_sparesSlots {cfg : Config} {polls : ℕ} :
    (claimJob cfg polls).Only Op.SparesSlots :=
  claimJob_only.mono fun _ => Op.OfWork.sparesSlots

/-- Two workers, each of which wants the only slot. -/
private abbrev twoWorkers : Pool commands Exn World SlotView Bool :=
  slotPool {} (fun _ => 1) fun _ => claimJob {} 0

/-- Both have issued INCR: one of them holds the slot, the other is to roll back. -/
theorem slots_admission_two_workers :
    ∃ c, Reachable environment slotProtocol (fun _ _ _ _ _ => True) twoWorkers c ∧
      c.world.slots = 2 ∧ (c.view true).phase = .holding ∧ (c.view false).phase = .exceeding ∧
      c.world.slots = (holders c.view).ncard + (exceeders c.view).ncard := by
  obtain ⟨c, hexec, hslots, htrue, hfalse⟩ :
      ∃ c, twoWorkers.exec environment slotProtocol [(true, .ok), (false, .ok)] = some c ∧
        c.world.slots = 2 ∧ (c.view true).phase = .holding ∧ (c.view false).phase = .exceeding :=
    ⟨_, rfl, by decide, by decide, by decide⟩
  have hreach : Reachable environment slotProtocol (fun _ _ _ _ _ => True) twoWorkers c :=
    Pool.reachable_of_exec (fun _ _ _ _ _ => trivial) .refl hexec
  exact ⟨c, hreach, hslots, htrue, hfalse,
    (slots_admission rfl (fun _ => claimJob_sparesSlots) hreach).1⟩

end RestoreEngine
