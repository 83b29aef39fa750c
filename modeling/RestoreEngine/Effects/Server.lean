import Mathlib.Data.List.Basic

/-!
# Servers

A **server** answers requests one after the other: each request gets a reply and may change the
state. What it has done is the list of its **exchanges**.

* What every exchange of every sequence of requests satisfies is shown by an invariant of the state
  and of the exchanges so far (`serve_sound`).
* Two states give the same replies to every sequence of requests if they are related by an
  **unwinding** relation: related states answer alike and stay related (`Unwinding.replies_eq`).
* A part of the state that changes as some other machine says is, in the end, in the state of that
  machine (`final_eq_foldl`).

Handlers that may raise are compared by `Agree`, which goes through their steps and loops.
-/

namespace Effects

variable {σ ρ α β : Type*}

/-- A server: what a state makes of a request. -/
structure Server (σ ρ α : Type*) where
  answer : σ → ρ → σ × α

/-- A request, its reply, and the states around them. -/
structure Exchange (σ ρ α : Type*) where
  before : σ
  request : ρ
  reply : α
  after : σ

namespace Server

variable (m : Server σ ρ α)

/-- The exchange that a request leads to. -/
def exchange (s : σ) (r : ρ) : Exchange σ ρ α := ⟨s, r, (m.answer s r).2, (m.answer s r).1⟩

/-- The exchanges of a sequence of requests. -/
def serve : σ → List ρ → List (Exchange σ ρ α)
  | _, [] => []
  | s, r :: rs => m.exchange s r :: serve (m.exchange s r).after rs

/-- The state after a sequence of requests. -/
def final : σ → List ρ → σ
  | s, [] => s
  | s, r :: rs => final (m.exchange s r).after rs

variable {m}

/-! ### Invariants -/

private theorem serve_from {Inv : List (Exchange σ ρ α) → σ → Prop}
    {Q : List (Exchange σ ρ α) → Exchange σ ρ α → Prop}
    (hstep : ∀ past s r, Inv past s →
      Q past (m.exchange s r) ∧ Inv (past ++ [m.exchange s r]) (m.exchange s r).after)
    (rs : List ρ) (done : List (Exchange σ ρ α)) (s : σ) (hs : Inv done s)
    {past later : List (Exchange σ ρ α)} {e : Exchange σ ρ α}
    (h : m.serve s rs = past ++ e :: later) : Q (done ++ past) e := by
  induction rs generalizing done s past with
  | nil => exact absurd (congrArg List.length h) (by simp [serve])
  | cons r rs ih =>
    obtain ⟨hq, hnext⟩ := hstep done s r hs
    -- the exchange is the first one, or one of those after it
    cases past with
    | nil =>
      obtain ⟨rfl, -⟩ := List.cons.inj h
      rwa [List.append_nil]
    | cons e' past =>
      obtain ⟨rfl, htail⟩ := List.cons.inj h
      have hlater := ih _ _ hnext htail
      rwa [List.append_assoc, List.singleton_append] at hlater

/-- **Every exchange satisfies** what the invariant of the exchanges before it entails. -/
theorem serve_sound {Inv : List (Exchange σ ρ α) → σ → Prop}
    {Q : List (Exchange σ ρ α) → Exchange σ ρ α → Prop} {s : σ} (hinit : Inv [] s)
    (hstep : ∀ past s r, Inv past s →
      Q past (m.exchange s r) ∧ Inv (past ++ [m.exchange s r]) (m.exchange s r).after)
    {rs : List ρ} {past later : List (Exchange σ ρ α)} {e : Exchange σ ρ α}
    (h : m.serve s rs = past ++ e :: later) : Q past e := by
  have hq := serve_from hstep rs [] s hinit h
  rwa [List.nil_append] at hq

/-! ### Comparing two runs -/

/-- **An unwinding relation**: related states give the same reply and stay related. -/
structure Unwinding (m : Server σ ρ α) (R : σ → σ → Prop) : Prop where
  reply : ∀ {s t}, R s t → ∀ r, (m.answer s r).2 = (m.answer t r).2
  step : ∀ {s t}, R s t → ∀ r, R (m.answer s r).1 (m.answer t r).1

/-- **Related states are answered alike.** -/
theorem Unwinding.replies_eq {R : σ → σ → Prop} (hR : m.Unwinding R) {s t : σ} (h : R s t)
    (rs : List ρ) : (m.serve s rs).map Exchange.reply = (m.serve t rs).map Exchange.reply := by
  induction rs generalizing s t with
  | nil => rfl
  | cons r rs ih =>
    rw [serve, serve, List.map_cons, List.map_cons]
    exact congrArg₂ List.cons (hR.reply h r) (ih (hR.step h r))

/-! ### A part of the state -/

/-- **A part of the state is a machine of its own**, fed with what the exchanges mean to it. -/
theorem final_eq_foldl {f : σ → β} {g : β → Exchange σ ρ α → β}
    (hstep : ∀ s r, f (m.answer s r).1 = g (f s) (m.exchange s r)) (s : σ) (rs : List ρ) :
    f (m.final s rs) = (m.serve s rs).foldl g (f s) := by
  induction rs generalizing s with
  | nil => rfl
  | cons r rs ih =>
    rw [final, serve, List.foldl_cons, ih, ← hstep s r]
    rfl

end Server

/-! ### Outcomes -/

section Outcomes

universe u v

variable {ε : Type v} {ι : Type*} {α β γ δ : Type u} {R : α → β → Prop} {S : γ → δ → Prop}

/-- **Two outcomes agree**: they are the same exception, or related results. -/
inductive Agree (R : α → β → Prop) : Except ε α → Except ε β → Prop
  | error (e : ε) : Agree R (.error e) (.error e)
  | ok {a : α} {b : β} (h : R a b) : Agree R (.ok a) (.ok b)

namespace Agree

/-- Outcomes agree that are equal. -/
theorem eq_iff {x y : Except ε α} : Agree Eq x y ↔ x = y := by
  constructor
  · intro h
    cases h with
    | error e => rfl
    | ok h => rw [h]
  · rintro rfl
    cases x with
    | error e => exact .error e
    | ok a => exact .ok rfl

/-- Outcomes agree that are made of agreeing ones in the same way. -/
theorem bind {x : Except ε α} {y : Except ε β} {f : α → Except ε γ} {g : β → Except ε δ}
    (h : Agree R x y) (hstep : ∀ a b, R a b → Agree S (f a) (g b)) :
    Agree S (x >>= f) (y >>= g) := by
  cases h with
  | error e => exact .error e
  | ok h => exact hstep _ _ h

/-- A loop keeps what each of its rounds keeps. -/
theorem foldlM {f : α → ι → Except ε α} {g : β → ι → Except ε β} {a : α} {b : β} (h : R a b)
    (hstep : ∀ a b i, R a b → Agree R (f a i) (g b i)) (items : List ι) :
    Agree R (items.foldlM f a) (items.foldlM g b) := by
  induction items generalizing a b with
  | nil => exact .ok h
  | cons i items ih =>
    rw [List.foldlM_cons, List.foldlM_cons]
    exact (hstep a b i h).bind fun _ _ hnext => ih hnext

end Agree

end Outcomes

end Effects
