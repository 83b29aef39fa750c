import RestoreEngine.Effects.Trace

/-!
# Recorded runs on a machine

A trace tells what a program issued and what it got; a machine tells which replies are possible and
where they lead. `Machine.Leads` says that a machine follows a trace, and `Machine.recording` is the
machine that keeps the trace beside its state, so that one judgement can speak about both.

`Program.Yields` is the judgement for programs whose exceptions are somebody else's business: it
speaks about the values that a program returns, and about nothing else.
-/

namespace Effects

variable {S : Signature} {ε α β σ W C : Type} {A : Machine S σ}

/-! ### Following a trace -/

/-- `A.Leads s h s'`: the machine follows the trace `h` from `s` to `s'`. -/
inductive Machine.Leads (A : Machine S σ) : σ → List (Event S) → σ → Prop
  | refl (s : σ) : A.Leads s [] s
  | step {s s₁ s' : σ} {e : Event S} {h : List (Event S)} (hmove : A.Moves s e.op e.res s₁)
      (hrest : A.Leads s₁ h s') : A.Leads s (e :: h) s'

/-- A machine, and the trace so far. -/
def Machine.recording (A : Machine S σ) : Machine S (σ × List (Event S)) where
  Permits s := A.Permits s.1
  Moves s o r s' := A.Moves s.1 o r s'.1 ∧ s'.2 = s.2 ++ [⟨o, r⟩]

/-- The recording machine follows what the machine follows. -/
theorem Machine.Leads.recording {s s' : σ} {h : List (Event S)} (hleads : A.Leads s h s')
    (h₀ : List (Event S)) : A.recording.Leads (s, h₀) h (s', h₀ ++ h) := by
  induction hleads generalizing h₀ with
  | refl s =>
    rw [List.append_nil]
    exact .refl _
  | @step s s₁ s' e h hmove _ ih =>
    have happend : h₀ ++ e :: h = (h₀ ++ [e]) ++ h := by
      rw [List.append_assoc]
      rfl
    rw [happend]
    have hkept : A.recording.Moves (s, h₀) e.op e.res (s₁, h₀ ++ [e]) := ⟨hmove, rfl⟩
    exact .step hkept (ih _)

/-- What a program satisfies on a machine holds at the end of each of its traces that the machine
follows. -/
theorem Traces.post {p : Program S ε α} {h : List (Event S)} {out : Except ε α}
    {Q : Except ε α → σ → Prop} {s s' : σ} (htrace : Traces p h (some out))
    (hleads : A.Leads s h s') (hp : p.Satisfies A Q s) : Q out s' := by
  generalize hout : some out = last at htrace
  induction htrace generalizing s with
  | cut _ => cases hout
  | ret a =>
    obtain rfl := Option.some.inj hout
    cases hleads
    exact Program.satisfies_ret.mp hp
  | raise e =>
    obtain rfl := Option.some.inj hout
    cases hleads
    exact Program.satisfies_raise.mp hp
  | call _ ih =>
    cases hleads with
    | step hmove hrest => exact ih hrest ((Program.satisfies_call.mp hp).2 _ _ hmove) hout

/-- An undisturbed run is a trace, and every machine that keeps up with the world follows it. -/
theorem Program.Ends.leads {env : Environment S W C} {R : W → σ → Prop} {p : Program S ε α}
    {w w' : W} {out : Except ε α} (hends : Ends env p w out w') {s : σ} (hR : R w s)
    (hmove : ∀ w s o c r w', R w s → env o c w = some (r, w') → ∃ s', A.Moves s o r s' ∧ R w' s') :
    ∃ h s', Traces p h (some out) ∧ A.Leads s h s' ∧ R w' s' := by
  induction hends generalizing s with
  | ret a w => exact ⟨[], s, .ret a, .refl s, hR⟩
  | raise e w => exact ⟨[], s, .raise e, .refl s, hR⟩
  | @call o k w w₁ w₂ c r out hc _ ih =>
    obtain ⟨s₁, hs₁, hR₁⟩ := hmove _ _ _ _ _ _ hR hc
    obtain ⟨h, s', htrace, hleads, hR'⟩ := ih hR₁
    exact ⟨⟨o, r⟩ :: h, s', .call htrace, .step hs₁ hleads, hR'⟩

namespace Program

variable {Q : Except ε α → σ × List (Event S) → Prop} {p : Program S ε α}
  {s : σ × List (Event S)}

/-- The recording machine keeps what the program did. -/
theorem Satisfies.traced (hp : Satisfies A.recording Q s p) :
    Satisfies A.recording
      (fun out s' => Q out s' ∧ ∃ h, s'.2 = s.2 ++ h ∧ Traces p h (some out)) s p := by
  induction p generalizing s with
  | ret a => exact satisfies_ret.mpr ⟨satisfies_ret.mp hp, [], (List.append_nil _).symm, .ret a⟩
  | raise e =>
    exact satisfies_raise.mpr ⟨satisfies_raise.mp hp, [], (List.append_nil _).symm, .raise e⟩
  | call o k ih =>
    obtain ⟨hpermits, hk⟩ := satisfies_call.mp hp
    refine satisfies_call.mpr ⟨hpermits, fun r s' hmove => (ih r (hk r s' hmove)).mono ?_⟩
    rintro out s'' ⟨hQ, h, heq, htrace⟩
    refine ⟨hQ, ⟨o, r⟩ :: h, ?_, .call htrace⟩
    rw [heq, hmove.2, List.append_assoc]
    rfl

end Program

/-! ### What a program yields -/

namespace Program

/-- On the machine, the values that the program returns satisfy `P`. -/
def Yields (A : Machine S σ) (s : σ) (p : Program S ε α) (P : α → σ → Prop) : Prop :=
  p.Satisfies A (fun out s' => ∀ a, out = .ok a → P a s') s

variable {s : σ} {p : Program S ε α} {P P' : α → σ → Prop}

theorem yields_ret {a : α} (ha : P a s) : Yields A s (ret a : Program S ε α) P := by
  refine satisfies_ret.mpr fun b hb => ?_
  obtain rfl := Except.ok.inj hb
  exact ha

theorem yields_raise {e : ε} : Yields A s (raise e : Program S ε α) P :=
  satisfies_raise.mpr fun b hb => by cases hb

theorem yields_ofExcept {x : Except ε α} (hx : ∀ a, x = .ok a → P a s) :
    Yields A s (ofExcept x : Program S ε α) P :=
  satisfies_ofExcept.mpr hx

theorem yields_perform {o : S.Op} {P : S.Res o → σ → Prop} (hpermits : A.Permits s o)
    (hP : ∀ r s', A.Moves s o r s' → P r s') :
    Yields A s (perform o : Program S ε (S.Res o)) P := by
  refine satisfies_perform.mpr ⟨hpermits, fun r s' hmove b hb => ?_⟩
  obtain rfl := Except.ok.inj hb
  exact hP r s' hmove

theorem Yields.mono (hp : Yields A s p P) (hmono : ∀ a s', P a s' → P' a s') : Yields A s p P' :=
  Satisfies.mono hp fun _ s' hout a ha => hmono a s' (hout a ha)

/-- The rule of sequencing. -/
theorem Yields.bind {f : α → Program S ε β} {R : β → σ → Prop} (hp : Yields A s p P)
    (hf : ∀ a s', P a s' → Yields A s' (f a) R) : Yields A s (p >>= f) R := by
  refine Satisfies.bind hp (fun a s' ha => hf a s' (ha a rfl)) ?_
  intro e s' _ b hb
  cases hb

/-- The rule of `try`: of an exception nothing is known. -/
theorem Yields.attempt (hp : Yields A s p P) :
    Yields A s p.attempt fun out s' => ∀ a, out = .ok a → P a s' := by
  refine satisfies_attempt.mpr (Satisfies.mono hp fun out s' hout r hr => ?_)
  obtain rfl := Except.ok.inj hr
  exact hout

theorem Yields.ite {c : Prop} [Decidable c] {p q : Program S ε α} (hp : c → Yields A s p P)
    (hq : ¬ c → Yields A s q P) : Yields A s (if c then p else q) P := by
  split_ifs with hc
  · exact hp hc
  · exact hq hc

/-- The frame rule. -/
theorem Only.yields {F : S.Op → Prop} {I : σ → Prop} (hp : p.Only F) (hs : I s)
    (hpermits : ∀ s o, F o → A.Permits s o)
    (hmove : ∀ s o r s', F o → I s → A.Moves s o r s' → I s') : Yields A s p fun _ s' => I s' :=
  (hp.satisfies hs (fun s o ho _ => hpermits s o ho) hmove).mono fun _ _ hI _ _ => hI

/-- The trace grows, and the program has added its own. -/
theorem Yields.traced {s : σ × List (Event S)} {P : α → σ × List (Event S) → Prop}
    (hp : Yields A.recording s p P) : Yields A.recording s p fun a s' =>
      P a s' ∧ ∃ h, s'.2 = s.2 ++ h ∧ Traces p h (some (.ok a)) := by
  refine (Satisfies.traced hp).mono ?_
  rintro out s' ⟨hout, h, heq, htrace⟩ a rfl
  exact ⟨hout a rfl, h, heq, htrace⟩

end Program

end Effects
