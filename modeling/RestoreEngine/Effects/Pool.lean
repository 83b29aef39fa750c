import RestoreEngine.Effects.Program

/-!
# Pools of interleaved programs

A pool runs a family of programs against one world. At every step some program issues the
call it is waiting to issue, the world answers, and the program goes on with the reply;
nothing orders the steps of different programs. The family may be infinite: a program that
has not taken a step yet is one that has not been started.

Each program carries a *view*: what it has observed so far, computed by `observe` from the
calls it issued and the replies it got. Views are history variables. They do not influence
the run; conditions on a run and invariants may mention them.

The invariant rule `Reachable.invariant` reduces a statement about all interleavings to two
obligations that no longer mention each other: every program keeps to a protocol on views
(`Program.Satisfies` against `Protocol.machine`), and every permitted call keeps the
invariant, which speaks about the world and the views only.
-/

namespace Effects

variable {S : Signature} {ε W C M ι : Type} [DecidableEq ι]

/-- The state of a pool: the world, what is left of every program, and every view. -/
structure Pool (S : Signature) (ε W M ι : Type) where
  world : W
  proc : ι → Program S ε Unit
  view : ι → M

/-- How views grow, and which calls the protocol permits to a program with a given view. -/
structure Protocol (S : Signature) (M : Type) where
  observe : M → (o : S.Op) → S.Res o → M
  Permits : M → S.Op → Prop

/-- A protocol as a machine: the view moves as observed, for every reply whatsoever. -/
def Protocol.machine (P : Protocol S M) : Machine S M where
  Permits := P.Permits
  Moves := fun m o r m' => m' = P.observe m o r

/-- What may be required of a step: the world and the views before it, the program that
moves, its call and the reply. -/
abbrev Condition (S : Signature) (W M ι : Type) : Type :=
  W → (ι → M) → ι → (o : S.Op) → S.Res o → Prop

/-- The pool after program `i` got the reply `r` to its call and the world became `w`. -/
def Pool.advance (c : Pool S ε W M ι) (P : Protocol S M) (i : ι) (o : S.Op)
    (k : S.Res o → Program S ε Unit) (r : S.Res o) (w : W) : Pool S ε W M ι where
  world := w
  proc := Function.update c.proc i (k r)
  view := Function.update c.view i (P.observe (c.view i) o r)

/-- The pools reachable from `c₀` by steps that meet `cond`. -/
inductive Reachable (env : Environment S W C) (P : Protocol S M) (cond : Condition S W M ι)
    (c₀ : Pool S ε W M ι) : Pool S ε W M ι → Prop where
  | refl : Reachable env P cond c₀ c₀
  | step {c : Pool S ε W M ι} {i : ι} {o : S.Op} {k : S.Res o → Program S ε Unit} {a : C}
      {r : S.Res o} {w : W} (hc : Reachable env P cond c₀ c) (hi : c.proc i = .call o k)
      (hw : env o a c.world = some (r, w)) (hcond : cond c.world c.view i o r) :
      Reachable env P cond c₀ (c.advance P i o k r w)

namespace Reachable

variable {env : Environment S W C} {P : Protocol S M} {cond cond' : Condition S W M ι}
  {c₀ c : Pool S ε W M ι} {Q : Except ε Unit → M → Prop}

/-- Every program of a reachable pool is still on its protocol. -/
theorem onProtocol (h : Reachable env P cond c₀ c)
    (h₀ : ∀ i, (c₀.proc i).Satisfies P.machine Q (c₀.view i)) (i : ι) :
    (c.proc i).Satisfies P.machine Q (c.view i) := by
  induction h generalizing i with
  | refl => exact h₀ i
  | @step c j o k a r w hc hj hw hcond ih =>
    by_cases hij : i = j
    · subst hij
      have hcall := ih i
      rw [hj, Program.satisfies_call] at hcall
      simpa [Pool.advance] using hcall.2 r _ rfl
    · simpa [Pool.advance, hij] using ih i

/-- A call about to be issued in a reachable pool is permitted. -/
theorem permits (h : Reachable env P cond c₀ c)
    (h₀ : ∀ i, (c₀.proc i).Satisfies P.machine Q (c₀.view i)) {i : ι}
    {o : S.Op} {k : S.Res o → Program S ε Unit} (hi : c.proc i = .call o k) :
    P.Permits (c.view i) o := by
  have hcall := h.onProtocol h₀ i
  rw [hi, Program.satisfies_call] at hcall
  exact hcall.1

/-- **The invariant rule.** If every program keeps to the protocol, and every call that the
protocol permits and the condition admits keeps `Inv`, then `Inv` holds in every reachable
pool. -/
theorem invariant (Inv : W → (ι → M) → Prop) (h : Reachable env P cond c₀ c)
    (h₀ : ∀ i, (c₀.proc i).Satisfies P.machine Q (c₀.view i))
    (hinit : Inv c₀.world c₀.view)
    (hstep : ∀ w v i o a r w', Inv w v → P.Permits (v i) o → env o a w = some (r, w') →
      cond w v i o r → Inv w' (Function.update v i (P.observe (v i) o r))) :
    Inv c.world c.view := by
  induction h with
  | refl => exact hinit
  | step hc hi hw hcond ih =>
    exact hstep _ _ _ _ _ _ _ ih (hc.permits h₀ hi) hw hcond

end Reachable

/-! ### Replies that are known to be genuine -/

/-- A protocol as a machine for replies that are known to be `Genuine`. -/
def Protocol.guarded (P : Protocol S M) (Genuine : M → (o : S.Op) → S.Res o → Prop) :
    Machine S M where
  Permits := P.Permits
  Moves := fun m o r m' => Genuine m o r ∧ m' = P.observe m o r

/-- What keeps to a protocol does so if replies are genuine. -/
theorem Program.Satisfies.guarded {α : Type} {P : Protocol S M} {Q : Except ε α → M → Prop} {m : M}
    {p : Program S ε α} {Genuine : M → (o : S.Op) → S.Res o → Prop}
    (h : p.Satisfies P.machine Q m) : p.Satisfies (P.guarded Genuine) Q m :=
  (h.simulate (B := P.guarded Genuine) (R := fun m m' => m = m') rfl
    (fun _ _ _ heq hpermits => heq ▸ hpermits)
    fun _ _ _ _ _ heq _ hmove => ⟨_, heq ▸ hmove.2, rfl⟩).mono
      fun _ _ ⟨_, hQ, heq⟩ => heq ▸ hQ

namespace Reachable

variable {env : Environment S W C} {P : Protocol S M} {cond : Condition S W M ι}
  {c₀ c : Pool S ε W M ι} {Genuine : M → (o : S.Op) → S.Res o → Prop}

/-- **The invariant rule for genuine replies.** The programs may rely on replies being genuine, if
the invariant sees to it. -/
theorem guarded_invariant (Inv : W → (ι → M) → Prop) (h : Reachable env P cond c₀ c)
    (h₀ : ∀ i, (c₀.proc i).Satisfies (P.guarded Genuine) (fun _ _ => True) (c₀.view i))
    (hinit : Inv c₀.world c₀.view)
    (hgenuine : ∀ w v i o a r w', Inv w v → P.Permits (v i) o → env o a w = some (r, w') →
      cond w v i o r → Genuine (v i) o r)
    (hstep : ∀ w v i o a r w', Inv w v → P.Permits (v i) o → env o a w = some (r, w') →
      cond w v i o r → Inv w' (Function.update v i (P.observe (v i) o r))) :
    Inv c.world c.view ∧
      ∀ i, (c.proc i).Satisfies (P.guarded Genuine) (fun _ _ => True) (c.view i) := by
  induction h with
  | refl => exact ⟨hinit, h₀⟩
  | @step c i o k a r w hc hi hw hcond ih =>
    obtain ⟨hinv, hproc⟩ := ih
    have hcall := hproc i
    rw [hi, Program.satisfies_call] at hcall
    refine ⟨hstep _ _ _ _ _ _ _ hinv hcall.1 hw hcond, fun j => ?_⟩
    by_cases hij : j = i
    · subst hij
      have hmove := hcall.2 r _ ⟨hgenuine _ _ _ _ _ _ _ hinv hcall.1 hw hcond, rfl⟩
      simpa [Pool.advance] using hmove
    · simpa [Pool.advance, hij] using hproc j

end Reachable

/-! ### Scheduled runs -/

/-- Whether a program has come to its end. -/
def Program.returned {α : Type} : Program S ε α → Bool
  | .ret _ => true
  | _ => false

theorem Program.eq_ret_of_returned {p : Program S ε Unit} (h : p.returned = true) :
    p = .ret () := by
  cases p with
  | ret a => rfl
  | raise e => cases h
  | call o k => cases h

/-- The run that a schedule describes: which program moves, and how the world answers. -/
def Pool.exec (env : Environment S W C) (P : Protocol S M) :
    List (ι × C) → Pool S ε W M ι → Option (Pool S ε W M ι)
  | [], c => some c
  | (i, a) :: rest, c =>
    match c.proc i with
    | .call o k =>
      match env o a c.world with
      | some (r, w) => exec env P rest (c.advance P i o k r w)
      | none => none
    | _ => none

/-- A scheduled run that stops short of a step that does not meet the condition. -/
def Pool.execWhen (env : Environment S W C) (P : Protocol S M) (cond : Condition S W M ι)
    [∀ w v i o r, Decidable (cond w v i o r)] :
    List (ι × C) → Pool S ε W M ι → Option (Pool S ε W M ι)
  | [], c => some c
  | (i, a) :: rest, c =>
    match c.proc i with
    | .call o k =>
      match env o a c.world with
      | some (r, w) =>
        if cond c.world c.view i o r then execWhen env P cond rest (c.advance P i o k r w)
        else none
      | none => none
    | _ => none

section execWhen

variable {env : Environment S W C} {P : Protocol S M} {cond : Condition S W M ι}
  [∀ w v i o r, Decidable (cond w v i o r)] {c₀ c c' : Pool S ε W M ι} {sched : List (ι × C)}

/-- A scheduled run of steps that meet the condition ends in a reachable pool. -/
theorem Pool.reachable_of_execWhen (hc : Reachable env P cond c₀ c)
    (h : c.execWhen env P cond sched = some c') : Reachable env P cond c₀ c' := by
  induction sched generalizing c with
  | nil =>
    rw [execWhen, Option.some.injEq] at h
    exact h ▸ hc
  | cons ia rest ih =>
    obtain ⟨i, a⟩ := ia
    rw [execWhen] at h
    split at h
    · next o k hi =>
      split at h
      · next r w hw =>
        split at h
        · next hmeets => exact ih (hc.step hi hw hmeets) h
        · cases h
      · cases h
    · cases h

/-- A scheduled run that meets the condition, and ends as it should, shows that a pool can be
reached. -/
theorem Pool.exists_reachable_when {p : Pool S ε W M ι → Bool}
    (h : (c.execWhen env P cond sched).any p = true) :
    ∃ c', Reachable env P cond c c' ∧ p c' = true := by
  obtain ⟨c', hexec, hend⟩ := (Option.any_eq_true _ _).mp h
  exact ⟨c', reachable_of_execWhen .refl hexec, hend⟩

end execWhen

/-- A scheduled run ends in a reachable pool, if the condition excludes nothing. -/
theorem Pool.reachable_of_exec {env : Environment S W C} {P : Protocol S M}
    {cond : Condition S W M ι} {c₀ c c' : Pool S ε W M ι} {sched : List (ι × C)}
    (hcond : ∀ w v i o r, cond w v i o r) (hc : Reachable env P cond c₀ c)
    (h : c.exec env P sched = some c') : Reachable env P cond c₀ c' := by
  induction sched generalizing c with
  | nil =>
    rw [exec, Option.some.injEq] at h
    exact h ▸ hc
  | cons ia rest ih =>
    obtain ⟨i, a⟩ := ia
    rw [exec] at h
    split at h
    · next o k hi =>
      split at h
      · next r w hw => exact ih (hc.step hi hw (hcond _ _ _ _ _)) h
      · cases h
    · cases h

/-- A scheduled run that ends as it should shows that a pool can be reached. -/
theorem Pool.exists_reachable {env : Environment S W C} {P : Protocol S M}
    {cond : Condition S W M ι} {c : Pool S ε W M ι} {sched : List (ι × C)}
    {p : Pool S ε W M ι → Bool} (hcond : ∀ w v i o r, cond w v i o r)
    (h : (c.exec env P sched).any p = true) : ∃ c', Reachable env P cond c c' ∧ p c' = true := by
  obtain ⟨c', hexec, hend⟩ := (Option.any_eq_true _ _).mp h
  exact ⟨c', reachable_of_exec hcond .refl hexec, hend⟩

end Effects
