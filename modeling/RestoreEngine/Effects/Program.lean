import Mathlib.Data.List.Forall2
import Mathlib.Logic.Function.Basic
import Mathlib.Tactic.SplitIfs

/-!
# Programs of effectful calls

A `Program S ε α` is a finite-depth tree of calls to an outside world, each node waiting for
the reply to one call of the signature `S`, ending in a value or in a raised exception. It
is the meaning given to a sequential piece of imperative code whose only contact with its
surroundings are atomic commands.

A `Machine S σ` is a labelled transition system over the calls of `S`: it says which calls
are permitted in a state and which successor states a reply may lead to. One Hoare-style
judgement, `Program.Satisfies`, serves two purposes:

* with `σ` the state of the world and `Environment.machine` as the machine it is the weakest
  (partial-correctness) precondition of a run that nobody disturbs (`satisfies_iff_ends`);
* with `σ` a bookkeeping state it says that a program keeps to a protocol, whatever the
  replies are. `Effects/Pool.lean` uses it in this second form for interleaved programs.
-/

namespace Effects

/-- A signature of calls: the calls themselves, and the type of replies of each. -/
structure Signature where
  /-- The calls a program may issue. -/
  Op : Type
  /-- The replies a call may receive. -/
  Res : Op → Type

/-- A sequential program over the calls of `S`, raising exceptions in `ε`. A loop whose
length the replies decide is a tree of unbounded depth; one that never ends is cut off by a
call without replies. -/
inductive Program (S : Signature) (ε α : Type) : Type where
  | ret (a : α)
  | raise (e : ε)
  | call (o : S.Op) (k : S.Res o → Program S ε α)

namespace Program

variable {S : Signature} {ε α β γ σ W C : Type}

/-- Sequencing; an exception skips the rest. -/
protected def bind : Program S ε α → (α → Program S ε β) → Program S ε β
  | ret a, f => f a
  | raise e, _ => raise e
  | call o k, f => call o fun r => (k r).bind f

/-- Run to the end and hand the outcome, exception or value, to the rest: the `try` of an
imperative language, whose `except` branches are matches on the outcome. -/
def attempt : Program S ε α → Program S ε (Except ε α)
  | ret a => ret (.ok a)
  | raise e => ret (.error e)
  | call o k => call o fun r => (k r).attempt

instance : Monad (Program S ε) where
  pure := ret
  bind := Program.bind

@[simp] theorem pure_eq_ret (a : α) : (pure a : Program S ε α) = ret a := rfl

@[simp] theorem map_eq_bind (f : α → β) (p : Program S ε α) :
    f <$> p = p >>= fun a => ret (f a) := rfl

@[simp] theorem ret_bind (a : α) (f : α → Program S ε β) : ret a >>= f = f a := rfl

@[simp] theorem raise_bind (e : ε) (f : α → Program S ε β) : raise e >>= f = raise e := rfl

@[simp] theorem call_bind (o : S.Op) (k : S.Res o → Program S ε α) (f : α → Program S ε β) :
    call o k >>= f = call o fun r => k r >>= f := rfl

@[simp] theorem attempt_ret (a : α) : (ret a : Program S ε α).attempt = ret (.ok a) := rfl

@[simp] theorem attempt_raise (e : ε) :
    (raise e : Program S ε α).attempt = ret (.error e) := rfl

@[simp] theorem attempt_call (o : S.Op) (k : S.Res o → Program S ε α) :
    (call o k).attempt = call o fun r => (k r).attempt := rfl

/-- The value of a computed outcome, or its exception raised. -/
def ofExcept : Except ε α → Program S ε α
  | .ok a => ret a
  | .error e => raise e

@[simp] theorem ofExcept_ok (a : α) : (ofExcept (.ok a) : Program S ε α) = ret a := rfl

@[simp] theorem ofExcept_error (e : ε) :
    (ofExcept (.error e) : Program S ε α) = raise e := rfl

/-- Issue one call and return its reply. -/
def perform (o : S.Op) : Program S ε (S.Res o) := call o ret

end Program

/-! ### Machines and the satisfaction judgement -/

/-- A labelled transition system over the calls of `S`. -/
structure Machine (S : Signature) (σ : Type) where
  /-- The calls that may be issued in a state. -/
  Permits : σ → S.Op → Prop
  /-- `Moves s o r s'`: issuing `o` in `s` may be answered by `r`, leading to `s'`. -/
  Moves : σ → (o : S.Op) → S.Res o → σ → Prop

namespace Program

variable {S : Signature} {ε α β γ σ W C : Type} {A : Machine S σ}

/-- `p.Satisfies A Q s`: run against `A` from `s`, the program issues permitted calls only,
and every outcome it reaches satisfies `Q`. -/
def Satisfies (A : Machine S σ) (Q : Except ε α → σ → Prop) : σ → Program S ε α → Prop
  | s, ret a => Q (.ok a) s
  | s, raise e => Q (.error e) s
  | s, call o k => A.Permits s o ∧ ∀ r s', A.Moves s o r s' → Satisfies A Q s' (k r)

@[simp] theorem satisfies_ret {Q : Except ε α → σ → Prop} {s : σ} {a : α} :
    Satisfies A Q s (ret a) ↔ Q (.ok a) s := Iff.rfl

@[simp] theorem satisfies_raise {Q : Except ε α → σ → Prop} {s : σ} {e : ε} :
    Satisfies A Q s (raise e) ↔ Q (.error e) s := Iff.rfl

@[simp] theorem satisfies_call {Q : Except ε α → σ → Prop} {s : σ} {o : S.Op}
    {k : S.Res o → Program S ε α} :
    Satisfies A Q s (call o k) ↔
      A.Permits s o ∧ ∀ r s', A.Moves s o r s' → Satisfies A Q s' (k r) := Iff.rfl

@[simp] theorem satisfies_perform {s : σ} {o : S.Op} {Q : Except ε (S.Res o) → σ → Prop} :
    Satisfies A Q s (perform o) ↔
      A.Permits s o ∧ ∀ r s', A.Moves s o r s' → Q (.ok r) s' := Iff.rfl

@[simp] theorem satisfies_ofExcept {Q : Except ε α → σ → Prop} {s : σ} {x : Except ε α} :
    Satisfies A Q s (ofExcept x) ↔ Q x s := by
  cases x <;> rfl

/-- The outcome of the first half decides how the second half is judged. -/
def Then (A : Machine S σ) (Q : Except ε β → σ → Prop) (f : α → Program S ε β) :
    Except ε α → σ → Prop
  | .ok a, s => Satisfies A Q s (f a)
  | .error e, s => Q (.error e) s

@[simp] theorem then_ok {Q : Except ε β → σ → Prop} {f : α → Program S ε β} {a : α} {s : σ} :
    Then A Q f (.ok a) s ↔ Satisfies A Q s (f a) := Iff.rfl

@[simp] theorem then_error {Q : Except ε β → σ → Prop} {f : α → Program S ε β} {e : ε} {s : σ} :
    Then A Q f (.error e) s ↔ Q (.error e) s := Iff.rfl

/-- The rule of sequencing, as an equivalence. -/
@[simp] theorem satisfies_bind {Q : Except ε β → σ → Prop} {f : α → Program S ε β} {s : σ}
    {p : Program S ε α} : Satisfies A Q s (p >>= f) ↔ Satisfies A (Then A Q f) s p := by
  induction p generalizing s with
  | ret a => rfl
  | raise e => rfl
  | call o k ih =>
    rw [call_bind, satisfies_call, satisfies_call]
    exact and_congr_right fun _ => forall_congr' fun r => forall_congr' fun s' =>
      imp_congr_right fun _ => ih r

/-- The rule of `try`: both outcomes are results. -/
@[simp] theorem satisfies_attempt {Q : Except ε (Except ε α) → σ → Prop} {s : σ}
    {p : Program S ε α} :
    Satisfies A Q s p.attempt ↔ Satisfies A (fun out s' => Q (.ok out) s') s p := by
  induction p generalizing s with
  | ret a => rfl
  | raise e => rfl
  | call o k ih =>
    rw [attempt_call, satisfies_call, satisfies_call]
    exact and_congr_right fun _ => forall_congr' fun r => forall_congr' fun s' =>
      imp_congr_right fun _ => ih r

/-- The rule of consequence. -/
theorem Satisfies.mono {Q Q' : Except ε α → σ → Prop} {s : σ} {p : Program S ε α}
    (h : Satisfies A Q s p) (hQ : ∀ out s', Q out s' → Q' out s') : Satisfies A Q' s p := by
  induction p generalizing s with
  | ret a => exact hQ _ _ h
  | raise e => exact hQ _ _ h
  | call o k ih => exact ⟨h.1, fun r s' hr => ih r (h.2 r s' hr)⟩

/-- Sequencing, in the form used to compose the specification of a first half with the
proof of the second. -/
theorem Satisfies.bind {Q : Except ε β → σ → Prop} {R : Except ε α → σ → Prop}
    {f : α → Program S ε β} {s : σ} {p : Program S ε α} (hp : Satisfies A R s p)
    (hok : ∀ a s', R (.ok a) s' → Satisfies A Q s' (f a))
    (herr : ∀ e s', R (.error e) s' → Q (.error e) s') : Satisfies A Q s (p >>= f) := by
  refine satisfies_bind.mpr (hp.mono fun out s' h => ?_)
  cases out with
  | ok a => exact hok a s' h
  | error e => exact herr e s' h

theorem Satisfies.ite {Q : Except ε α → σ → Prop} {c : Prop} [Decidable c] {s : σ}
    {p q : Program S ε α} (hp : c → Satisfies A Q s p) (hq : ¬ c → Satisfies A Q s q) :
    Satisfies A Q s (if c then p else q) := by
  split_ifs with hc
  · exact hp hc
  · exact hq hc

/-- On a machine that permits everything, what no call can disturb survives every program. -/
theorem satisfies_of_moves {I : σ → Prop} (hpermits : ∀ s o, A.Permits s o)
    (hmove : ∀ s o r s', I s → A.Moves s o r s' → I s') {s : σ} {p : Program S ε α} (hs : I s) :
    Satisfies A (fun _ s' => I s') s p := by
  induction p generalizing s with
  | ret a => exact hs
  | raise e => exact hs
  | call o k ih => exact ⟨hpermits s o, fun r s' hr => ih r (hmove s o r s' hs hr)⟩

/-- On a machine that permits everything, every program is all right. -/
theorem satisfies_of_permits (hpermits : ∀ s o, A.Permits s o) {s : σ} {p : Program S ε α} :
    Satisfies A (fun _ _ => True) s p :=
  satisfies_of_moves (I := fun _ => True) hpermits (fun _ _ _ _ _ _ => trivial) trivial

/-- Two specifications of one program hold together. -/
theorem Satisfies.and {Q Q' : Except ε α → σ → Prop} {s : σ} {p : Program S ε α}
    (h : Satisfies A Q s p) (h' : Satisfies A Q' s p) :
    Satisfies A (fun out s' => Q out s' ∧ Q' out s') s p := by
  induction p generalizing s with
  | ret a => exact ⟨h, h'⟩
  | raise e => exact ⟨h, h'⟩
  | call o k ih => exact ⟨h.1, fun r s' hr => ih r (h.2 r s' hr) (h'.2 r s' hr)⟩

/-- The rule of simulation: what keeps to a machine keeps to every machine that it simulates. -/
theorem Satisfies.simulate {τ : Type} {B : Machine S τ} {Q : Except ε α → σ → Prop}
    {R : σ → τ → Prop} {s : σ} {t : τ} {p : Program S ε α} (h : Satisfies A Q s p) (hR : R s t)
    (hpermit : ∀ s t o, R s t → A.Permits s o → B.Permits t o)
    (hmove : ∀ s t o r t', R s t → A.Permits s o → B.Moves t o r t' →
      ∃ s', A.Moves s o r s' ∧ R s' t') :
    Satisfies B (fun out t' => ∃ s', Q out s' ∧ R s' t') t p := by
  induction p generalizing s t with
  | ret a => exact ⟨s, h, hR⟩
  | raise e => exact ⟨s, h, hR⟩
  | call o k ih =>
    refine ⟨hpermit s t o hR h.1, fun r t' hr => ?_⟩
    obtain ⟨s', hs', hR'⟩ := hmove s t o r t' hR h.1 hr
    exact ih r (h.2 r s' hs') hR'

/-! ### Invariants of a single program -/

/-- `p.Only P`: every call the program can issue, whatever the replies, satisfies `P`. -/
def Only (P : S.Op → Prop) : Program S ε α → Prop
  | ret _ => True
  | raise _ => True
  | call o k => P o ∧ ∀ r, Only P (k r)

@[simp] theorem only_ret {P : S.Op → Prop} {a : α} : Only P (ret a : Program S ε α) := trivial

@[simp] theorem only_raise {P : S.Op → Prop} {e : ε} :
    Only P (raise e : Program S ε α) := trivial

@[simp] theorem only_call {P : S.Op → Prop} {o : S.Op} {k : S.Res o → Program S ε α} :
    Only P (call o k) ↔ P o ∧ ∀ r, Only P (k r) := Iff.rfl

@[simp] theorem only_perform {P : S.Op → Prop} {o : S.Op} :
    Only P (perform o : Program S ε (S.Res o)) ↔ P o := by
  simp [perform]

@[simp] theorem only_ofExcept {P : S.Op → Prop} {x : Except ε α} :
    Only P (ofExcept x : Program S ε α) := by
  cases x <;> trivial

theorem Only.bind {P : S.Op → Prop} {p : Program S ε α} {f : α → Program S ε β}
    (hp : Only P p) (hf : ∀ a, Only P (f a)) : Only P (p >>= f) := by
  induction p with
  | ret a => exact hf a
  | raise e => trivial
  | call o k ih => exact ⟨hp.1, fun r => ih r (hp.2 r)⟩

theorem Only.attempt {P : S.Op → Prop} {p : Program S ε α} (hp : Only P p) :
    Only P p.attempt := by
  induction p with
  | ret a => trivial
  | raise e => trivial
  | call o k ih => exact ⟨hp.1, fun r => ih r (hp.2 r)⟩

theorem Only.ite {P : S.Op → Prop} {c : Prop} [Decidable c] {p q : Program S ε α}
    (hp : c → Only P p) (hq : ¬ c → Only P q) : Only P (if c then p else q) := by
  split_ifs with hc
  · exact hp hc
  · exact hq hc

theorem Only.mono {P P' : S.Op → Prop} {p : Program S ε α} (hp : Only P p)
    (h : ∀ o, P o → P' o) : Only P' p := by
  induction p with
  | ret a => trivial
  | raise e => trivial
  | call o k ih => exact ⟨h o hp.1, fun r => ih r (hp.2 r)⟩

/-- The frame rule: a property that no call of the program can disturb survives it. -/
theorem Only.satisfies {P : S.Op → Prop} {I : σ → Prop} {p : Program S ε α} {s : σ}
    (hp : Only P p) (hs : I s) (hpermit : ∀ s o, P o → I s → A.Permits s o)
    (hmove : ∀ s o r s', P o → I s → A.Moves s o r s' → I s') :
    Satisfies A (fun _ s' => I s') s p := by
  induction p generalizing s with
  | ret a => exact hs
  | raise e => exact hs
  | call o k ih =>
    exact ⟨hpermit s o hp.1 hs, fun r s' hr => ih r (hp.2 r) (hmove s o r s' hp.1 hs hr)⟩

/-- On a machine that gives every reply to a call it permits, a program can issue no other call
than those which the machine permits. -/
theorem Satisfies.only {P : S.Op → Prop} {Q : Except ε α → σ → Prop} {p : Program S ε α} {s : σ}
    (h : Satisfies A Q s p) (hpermits : ∀ s o, A.Permits s o → P o)
    (hmoves : ∀ s o r, A.Permits s o → ∃ s', A.Moves s o r s') : Only P p := by
  induction p generalizing s with
  | ret a => trivial
  | raise e => trivial
  | call o k ih =>
    refine ⟨hpermits s o h.1, fun r => ?_⟩
    obtain ⟨s', hs'⟩ := hmoves s o r h.1
    exact ih r (h.2 r s' hs')

end Program

/-! ### Undisturbed runs -/

/-- How the world answers a call. The choice `C` carries what the world, not the program,
decides (whether a request fails, say); `none` means that this choice does not apply. -/
abbrev Environment (S : Signature) (W C : Type) : Type :=
  (o : S.Op) → C → W → Option (S.Res o × W)

/-- The machine of the world itself: every call is permitted, every applicable choice is a
move. -/
def Environment.machine {S : Signature} {W C : Type} (env : Environment S W C) :
    Machine S W where
  Permits := fun _ _ => True
  Moves := fun w o r w' => ∃ c, env o c w = some (r, w')

namespace Program

variable {S : Signature} {ε α β γ σ W C : Type} {env : Environment S W C}

/-- `Ends env p w out w'`: some undisturbed run of `p` from `w` ends with `out` in `w'`. -/
inductive Ends (env : Environment S W C) :
    Program S ε α → W → Except ε α → W → Prop where
  | ret (a : α) (w : W) : Ends env (ret a) w (.ok a) w
  | raise (e : ε) (w : W) : Ends env (raise e) w (.error e) w
  | call {o : S.Op} {k : S.Res o → Program S ε α} {w w₁ w₂ : W} {c : C} {r : S.Res o}
      {out : Except ε α} (h : env o c w = some (r, w₁)) (hk : Ends env (k r) w₁ out w₂) :
      Ends env (call o k) w out w₂

/-- A call judged against the world: every applicable choice counts. -/
theorem satisfies_machine_perform {o : S.Op} {Q : Except ε (S.Res o) → W → Prop} {w : W} :
    Satisfies env.machine Q w (perform o) ↔
      ∀ c r w', env o c w = some (r, w') → Q (.ok r) w' := by
  constructor
  · intro h c r w' hc
    exact h.2 r w' ⟨c, hc⟩
  · intro h
    exact ⟨trivial, fun r w' ⟨c, hc⟩ => h c r w' hc⟩

/-- A call whose answer does not depend on the choice. -/
theorem satisfies_of_determined [Nonempty C] {o : S.Op} {Q : Except ε (S.Res o) → W → Prop}
    {w w₀ : W} {r₀ : S.Res o} (h : ∀ c, env o c w = some (r₀, w₀)) :
    Satisfies env.machine Q w (perform o) ↔ Q (.ok r₀) w₀ := by
  refine satisfies_machine_perform.trans ⟨fun hQ => ?_, fun hQ c r w' hc => ?_⟩
  · obtain ⟨c⟩ := ‹Nonempty C›
    exact hQ c r₀ w₀ (h c)
  · rw [h c, Option.some.injEq, Prod.mk.injEq] at hc
    obtain ⟨rfl, rfl⟩ := hc
    exact hQ

/-- Satisfaction against the world is what holds at the end of every undisturbed run. -/
theorem satisfies_iff_ends {Q : Except ε α → W → Prop} {w : W} {p : Program S ε α} :
    Satisfies env.machine Q w p ↔ ∀ out w', Ends env p w out w' → Q out w' := by
  constructor
  · intro h out w' hends
    induction hends with
    | ret a w => exact h
    | raise e w => exact h
    | call hc _ ih => exact ih (h.2 _ _ ⟨_, hc⟩)
  · intro h
    induction p generalizing w with
    | ret a => exact h _ _ (.ret a w)
    | raise e => exact h _ _ (.raise e w)
    | call o k ih =>
      refine ⟨trivial, fun r w₁ ⟨c, hc⟩ => ih r fun out w' hends => ?_⟩
      exact h out w' (.call hc hends)

/-- What a program satisfies holds at the end of a run. -/
theorem Ends.post {Q : Except ε α → W → Prop} {p : Program S ε α} {w w' : W} {out : Except ε α}
    (h : Ends env p w out w') (hp : Satisfies env.machine Q w p) : Q out w' :=
  satisfies_iff_ends.mp hp out w' h

/-- Programs that satisfy the same postconditions have the same runs. -/
theorem ends_congr {p q : Program S ε α} {w v w' : W} {out : Except ε α}
    (h : ∀ Q, Satisfies env.machine Q w p ↔ Satisfies env.machine Q v q) :
    Ends env p w out w' ↔ Ends env q v out w' := by
  have hnot : ∀ (r : Program S ε α) (u : W), ¬ Ends env r u out w' ↔
      Satisfies env.machine (fun o s => ¬ (o = out ∧ s = w')) u r := fun r u => by
    rw [satisfies_iff_ends]
    refine ⟨fun hno o s hends heq => hno (heq.1 ▸ heq.2 ▸ hends), fun hall hends => ?_⟩
    exact hall out w' hends ⟨rfl, rfl⟩
  exact not_iff_not.mp ((hnot p w).trans ((h _).trans (hnot q v).symm))

/-- An undisturbed run of a sequence is a run of the first half, followed, if that ends in a
value, by a run of the second. -/
theorem ends_bind {p : Program S ε α} {f : α → Program S ε β} {w w' : W} {out : Except ε β} :
    Ends env (p >>= f) w out w' ↔
      (∃ a w₁, Ends env p w (.ok a) w₁ ∧ Ends env (f a) w₁ out w') ∨
        ∃ e, out = .error e ∧ Ends env p w (.error e) w' := by
  constructor
  · intro h
    induction p generalizing w with
    | ret a => exact .inl ⟨a, w, .ret a w, h⟩
    | raise e =>
      cases h
      exact .inr ⟨e, rfl, .raise e _⟩
    | call o k ih =>
      cases h with
      | call hc hk =>
        rcases ih _ hk with ⟨a, w₁, ha, hf⟩ | ⟨e, rfl, he⟩
        · exact .inl ⟨a, w₁, .call hc ha, hf⟩
        · exact .inr ⟨e, rfl, .call hc he⟩
  · rintro (⟨a, w₁, ha, hf⟩ | ⟨e, rfl, he⟩)
    · induction p generalizing w with
      | ret b =>
        cases ha
        exact hf
      | raise e => cases ha
      | call o k ih =>
        cases ha with
        | call hc hk => exact .call hc (ih _ hk)
    · induction p generalizing w with
      | ret b => cases he
      | raise e =>
        cases he
        exact .raise _ _
      | call o k ih =>
        cases he with
        | call hc hk => exact .call hc (ih _ hk)

/-- One call. -/
theorem Ends.perform {o : S.Op} {c : C} {r : S.Res o} {w w' : W}
    (h : env o c w = some (r, w')) : Ends env (perform o : Program S ε (S.Res o)) w (.ok r) w' :=
  .call h (.ret r w')

/-- A run of a first half that ends in a value goes on with the second. -/
theorem Ends.bind {p : Program S ε α} {f : α → Program S ε β} {a : α} {w w₁ w' : W}
    {out : Except ε β} (hp : Ends env p w (.ok a) w₁) (hf : Ends env (f a) w₁ out w') :
    Ends env (p >>= f) w out w' :=
  ends_bind.mpr (.inl ⟨a, w₁, hp, hf⟩)

/-- An undisturbed run of a `try` is a run of its body. -/
theorem Ends.attempt {p : Program S ε α} {w w' : W} {out : Except ε α}
    (h : Ends env p w out w') : Ends env p.attempt w (.ok out) w' := by
  induction h with
  | ret a w => exact .ret _ _
  | raise e w => exact .ret _ _
  | call hc _ ih => exact .call hc ih

/-- A run of a `try` is a run of its body. -/
theorem ends_attempt {p : Program S ε α} {w w' : W} {out : Except ε (Except ε α)} :
    Ends env p.attempt w out w' ↔ ∃ tried, out = .ok tried ∧ Ends env p w tried w' := by
  refine ⟨fun h => ?_, fun ⟨tried, hout, h⟩ => hout ▸ h.attempt⟩
  induction p generalizing w with
  | ret a =>
    cases h
    exact ⟨_, rfl, .ret a _⟩
  | raise e =>
    cases h
    exact ⟨_, rfl, .raise e _⟩
  | call o k ih =>
    cases h with
    | call hc hk =>
      obtain ⟨tried, hout, htried⟩ := ih _ hk
      exact ⟨tried, hout, .call hc htried⟩

/-- A program that only issues calls which the world always answers has a run. -/
theorem Only.exists_ends {P : S.Op → Prop} {p : Program S ε α} (hp : Only P p)
    (henv : ∀ o w, P o → ∃ c r w', env o c w = some (r, w')) (w : W) :
    ∃ out w', Ends env p w out w' := by
  induction p generalizing w with
  | ret a => exact ⟨_, _, .ret a w⟩
  | raise e => exact ⟨_, _, .raise e w⟩
  | call o k ih =>
    obtain ⟨c, r, w₁, hc⟩ := henv o w hp.1
    obtain ⟨out, w', h⟩ := ih r (hp.2 r) w₁
    exact ⟨out, w', .call hc h⟩

end Program

/-- The environment that only makes the choices `A` admits. -/
def Environment.restrict {S : Signature} {W C : Type} (env : Environment S W C)
    (A : S.Op → C → Bool) : Environment S W C :=
  fun o c w => if A o c then env o c w else none

/-- Admitting every choice is no restriction. -/
theorem Environment.restrict_true {S : Signature} {W C : Type} (env : Environment S W C) :
    env.restrict (fun _ _ => true) = env := by
  funext o c w
  exact if_pos rfl

namespace Program

variable {S : Signature} {ε α β γ σ W C : Type} {env : Environment S W C}

/-- A run with restricted choices is a run. -/
theorem Ends.of_restrict {A : S.Op → C → Bool} {p : Program S ε α} {w w' : W}
    {out : Except ε α} (h : Ends (env.restrict A) p w out w') : Ends env p w out w' := by
  induction h with
  | ret a w => exact .ret a w
  | raise e w => exact .raise e w
  | @call o k w w₁ w₂ c r out hc _ ih =>
    rw [Environment.restrict] at hc
    split at hc
    · exact .call hc ih
    · cases hc

/-- What holds for all choices holds for the restricted ones. -/
theorem Satisfies.restrict {A : S.Op → C → Bool} {Q : Except ε α → W → Prop}
    {p : Program S ε α} {w : W} (h : Satisfies env.machine Q w p) :
    Satisfies (env.restrict A).machine Q w p :=
  satisfies_iff_ends.mpr fun out w' hends => satisfies_iff_ends.mp h out w' hends.of_restrict

/-- The run in which the world makes the choices of a script, and `default` once the script
is used up. -/
def run [Inhabited C] (env : Environment S W C) :
    List C → Program S ε α → W → Option (Except ε α × W)
  | _, ret a, w => some (.ok a, w)
  | _, raise e, w => some (.error e, w)
  | cs, call o k, w =>
    match env o (cs.headD default) w with
    | some (r, w₁) => run env cs.tail (k r) w₁
    | none => none

/-- A scripted run is an undisturbed run. -/
theorem ends_of_run [Inhabited C] {cs : List C} {p : Program S ε α} {w w' : W}
    {out : Except ε α} (h : run env cs p w = some (out, w')) : Ends env p w out w' := by
  induction p generalizing cs w with
  | ret a =>
    simp only [run, Option.some.injEq, Prod.mk.injEq] at h
    obtain ⟨rfl, rfl⟩ := h
    exact .ret a w
  | raise e =>
    simp only [run, Option.some.injEq, Prod.mk.injEq] at h
    obtain ⟨rfl, rfl⟩ := h
    exact .raise e w
  | call o k ih =>
    rw [run] at h
    cases hc : env o (cs.headD default) w with
    | none => rw [hc] at h; cases h
    | some rw₁ =>
      rw [hc] at h
      exact .call hc (ih _ h)

/-- What a scripted run shows is the case in some undisturbed run. -/
theorem exists_ends_of_run [Inhabited C] {cs : List C} {p : Program S ε α} {w : W}
    {f : Except ε α × W → β} {b : β} (h : (run env cs p w).map f = some b) :
    ∃ out w', Ends env p w out w' ∧ f (out, w') = b := by
  obtain ⟨⟨out, w'⟩, hrun, hf⟩ := Option.map_eq_some_iff.mp h
  exact ⟨out, w', ends_of_run hrun, hf⟩

-- From here on the judgements are used through their rules. Unfolding them would make the
-- elaborator run the programs they are about.
attribute [irreducible] Satisfies Only Then

end Program

/-! ### Outcomes -/

section outcomes

variable {ε α β : Type}

/-- What went well in two steps. -/
theorem of_bind_ok {x : Except ε α} {f : α → Except ε β} {b : β} (h : x >>= f = .ok b) :
    ∃ a, x = .ok a ∧ f a = .ok b := by
  cases x with
  | error e => cases h
  | ok a => exact ⟨a, rfl, h⟩

/-- What went well passed the check. -/
theorem of_ite_ok {c : Prop} [Decidable c] {x : Except ε α} {e : ε} {a : α}
    (h : (if c then .error e else x) = .ok a) : ¬ c ∧ x = .ok a := by
  split_ifs at h with hc
  exact ⟨hc, h⟩

/-- What goes well for a whole list goes well for each of its elements. -/
theorem mapM_ok_iff {f : α → Except ε β} {xs : List α} {ys : List β} :
    xs.mapM f = .ok ys ↔ List.Forall₂ (fun x y => f x = .ok y) xs ys := by
  induction xs generalizing ys with
  | nil =>
    rw [List.mapM_nil, List.forall₂_nil_left_iff]
    exact ⟨fun h => (Except.ok.inj h).symm, fun h => congrArg Except.ok h.symm⟩
  | cons x xs ih =>
    rw [List.mapM_cons, List.forall₂_cons_left_iff]
    constructor
    · intro h
      obtain ⟨y, hy, h⟩ := of_bind_ok h
      obtain ⟨rest, hrest, h⟩ := of_bind_ok h
      exact ⟨y, rest, hy, ih.mp hrest, (Except.ok.inj h).symm⟩
    · rintro ⟨y, rest, hy, hrest, rfl⟩
      rw [hy, ih.mpr hrest]
      rfl

/-- Something holds of all that is made of a list: each element makes something of which it holds. -/
theorem exists_mapM_forall₂_iff {f : α → Except ε β} {R : α → β → Prop} {xs : List α} :
    (∃ ys, xs.mapM f = .ok ys ∧ List.Forall₂ R xs ys) ↔ ∀ x ∈ xs, ∃ y, f x = .ok y ∧ R x y := by
  constructor
  · rintro ⟨ys, hmap, hall⟩ x hx
    obtain ⟨i, hi, rfl⟩ := List.getElem_of_mem hx
    have hlt : i < ys.length := hall.length_eq ▸ hi
    exact ⟨ys[i], (mapM_ok_iff.mp hmap).get hi hlt, hall.get hi hlt⟩
  · intro h
    induction xs with
    | nil => exact ⟨[], rfl, .nil⟩
    | cons x xs ih =>
      obtain ⟨y, hy, hrel⟩ := h x List.mem_cons_self
      obtain ⟨ys, hys, hall⟩ := ih fun z hz => h z (List.mem_cons_of_mem _ hz)
      exact ⟨y :: ys, mapM_ok_iff.mpr (.cons hy (mapM_ok_iff.mp hys)), .cons hrel hall⟩

end outcomes

end Effects
