import RestoreEngine.Effects.Program

/-!
# Traces

A trace is the list of calls that a program issues, each with the reply it got. What must have
happened *before* a call is a property of the trace up to it. The `recorder` is the machine whose
state is the trace so far, so that such properties are proved with the rules of
`Program.Satisfies`; `Traces.respects` carries them over to all traces.
-/

namespace Effects

variable {S : Signature} {ε α β : Type}

/-- A call with its reply. -/
structure Event (S : Signature) where
  op : S.Op
  res : S.Res op

/-- `Traces p h out`: given the replies of `h`, the program issues the calls of `h`. It has then
come to the outcome `out`, or is cut short, for which `none` stands. -/
inductive Traces : Program S ε α → List (Event S) → Option (Except ε α) → Prop
  | cut (p : Program S ε α) : Traces p [] none
  | ret (a : α) : Traces (.ret a) [] (some (.ok a))
  | raise (e : ε) : Traces (.raise e) [] (some (.error e))
  | call {o : S.Op} {k : S.Res o → Program S ε α} {r : S.Res o} {h : List (Event S)}
      {out : Option (Except ε α)} (hk : Traces (k r) h out) : Traces (.call o k) (⟨o, r⟩ :: h) out

namespace Traces

variable {p : Program S ε α} {f : α → Program S ε β} {h h' : List (Event S)}

theorem perform {o : S.Op} (r : S.Res o) :
    Traces (.perform o : Program S ε (S.Res o)) [⟨o, r⟩] (some (.ok r)) :=
  .call (.ret r)

theorem ofExcept {a : α} : Traces (.ofExcept (.ok a) : Program S ε α) [] (some (.ok a)) := .ret a

theorem bind {a : α} {out : Option (Except ε β)} (hp : Traces p h (some (.ok a)))
    (hf : Traces (f a) h' out) : Traces (p >>= f) (h ++ h') out := by
  generalize hout : some (Except.ok a) = outp at hp
  induction hp with
  | cut _ => cases hout
  | ret b =>
    obtain rfl := Except.ok.inj (Option.some.inj hout)
    exact hf
  | raise e => cases hout
  | call _ ih => exact .call (ih hout)

/-- The second half issues no call. -/
theorem bind_nil {a : α} {out : Option (Except ε β)} (hp : Traces p h (some (.ok a)))
    (hf : Traces (f a) [] out) : Traces (p >>= f) h out := by
  simpa using hp.bind hf

/-- The first half issues no call. -/
theorem nil_bind {a : α} {out : Option (Except ε β)} (hp : Traces p [] (some (.ok a)))
    (hf : Traces (f a) h out) : Traces (p >>= f) h out :=
  hp.bind hf

/-- The first half is cut short. -/
theorem bind_cut (hp : Traces p h none) : Traces (p >>= f) h none := by
  generalize hout : none = out at hp
  induction hp with
  | cut _ => exact .cut _
  | ret _ => cases hout
  | raise _ => cases hout
  | call _ ih => exact .call (ih hout)

end Traces

/-- The trace in which every call gets the reply that `answer` has for it; it is cut short where
there is none. -/
def Program.play (answer : (o : S.Op) → Option (S.Res o)) :
    Program S ε α → List (Event S) × Option (Except ε α)
  | .ret a => ([], some (.ok a))
  | .raise e => ([], some (.error e))
  | .call o k =>
    match answer o with
    | none => ([], none)
    | some r => (⟨o, r⟩ :: ((k r).play answer).1, ((k r).play answer).2)

theorem Program.play_traces (answer : (o : S.Op) → Option (S.Res o)) (p : Program S ε α) :
    Traces p (p.play answer).1 (p.play answer).2 := by
  induction p with
  | ret a => exact .ret a
  | raise e => exact .raise e
  | call o k ih =>
    rw [play]
    cases answer o with
    | none => exact .cut _
    | some r => exact .call (ih r)

/-! ### The recorder -/

/-- The machine that records the trace. The calls that `Permits` admits may be issued; replies
are such that the trace stays `Genuine`. -/
def recorder (Genuine : List (Event S) → Prop) (Permits : List (Event S) → S.Op → Prop) :
    Machine S (List (Event S)) where
  Permits := Permits
  Moves h o r h' := h' = h ++ [⟨o, r⟩] ∧ Genuine h'

namespace Program

variable {G : List (Event S) → Prop} {P : List (Event S) → S.Op → Prop} {h : List (Event S)}

/-- The recorder keeps what the program did. -/
theorem Satisfies.recorded {Q : Except ε α → List (Event S) → Prop} {p : Program S ε α}
    (hp : Satisfies (recorder G P) Q h p) :
    Satisfies (recorder G P)
      (fun out h' => Q out h' ∧ ∃ h₁, h' = h ++ h₁ ∧ Traces p h₁ (some out)) h p := by
  induction p generalizing h with
  | ret a => exact satisfies_ret.mpr ⟨satisfies_ret.mp hp, [], (List.append_nil h).symm, .ret a⟩
  | raise e =>
    exact satisfies_raise.mpr ⟨satisfies_raise.mp hp, [], (List.append_nil h).symm, .raise e⟩
  | call o k ih =>
    obtain ⟨hpermits, hk⟩ := satisfies_call.mp hp
    refine satisfies_call.mpr ⟨hpermits, fun r h' hmove => ?_⟩
    refine (ih r (hk r h' hmove)).mono ?_
    rintro out h'' ⟨hQ, h₁, rfl, htrace⟩
    obtain ⟨rfl, -⟩ := hmove
    exact ⟨hQ, ⟨o, r⟩ :: h₁, by rw [List.append_assoc]; rfl, .call htrace⟩

end Program

/-- What the recorder establishes holds at the end of every trace. -/
theorem Traces.holds {Q : Except ε α → List (Event S) → Prop} {p : Program S ε α}
    {h₀ h : List (Event S)} {out : Except ε α} (htrace : Traces p h (some out))
    (hp : p.Satisfies (recorder (fun _ => True) fun _ _ => True) Q h₀) : Q out (h₀ ++ h) := by
  generalize hout : some out = last at htrace
  induction htrace generalizing h₀ with
  | cut _ => cases hout
  | ret a =>
    obtain rfl := Option.some.inj hout
    simpa using Program.satisfies_ret.mp hp
  | raise e =>
    obtain rfl := Option.some.inj hout
    simpa using Program.satisfies_raise.mp hp
  | @call o k r h last _ ih =>
    have hnext := (Program.satisfies_call.mp hp).2 r _ ⟨rfl, trivial⟩
    have hend := ih hnext hout
    rwa [List.append_assoc] at hend

/-! ### What a program finds out -/

namespace Program

/-- From a history `h` on, the program ends with values that satisfy `P` together with the
history at its end. -/
def Finds (h : List (Event S)) (p : Program S ε α) (P : α → List (Event S) → Prop) : Prop :=
  p.Satisfies (recorder (fun _ => True) fun _ _ => True)
    (fun out h' => h ⊆ h' ∧ ∀ a, out = .ok a → P a h') h

variable {h : List (Event S)} {P P' : α → List (Event S) → Prop}

theorem finds_ret {a : α} (ha : P a h) : Finds h (.ret a : Program S ε α) P := by
  refine satisfies_ret.mpr ⟨List.Subset.refl _, ?_⟩
  intro b hb
  obtain rfl := Except.ok.inj hb
  exact ha

theorem finds_raise {e : ε} : Finds h (.raise e : Program S ε α) P := by
  refine satisfies_raise.mpr ⟨List.Subset.refl _, ?_⟩
  intro b hb
  cases hb

theorem finds_ofExcept {x : Except ε α} (hx : ∀ a, x = .ok a → P a h) :
    Finds h (ofExcept x : Program S ε α) P := by
  cases x with
  | ok a => exact finds_ret (hx a rfl)
  | error e => exact finds_raise

theorem finds_perform {o : S.Op} {P : S.Res o → List (Event S) → Prop}
    (hP : ∀ r, P r (h ++ [⟨o, r⟩])) : Finds h (perform o : Program S ε (S.Res o)) P := by
  refine satisfies_perform.mpr ⟨trivial, ?_⟩
  rintro r h' ⟨rfl, -⟩
  refine ⟨List.subset_append_left _ _, ?_⟩
  intro b hb
  obtain rfl := Except.ok.inj hb
  exact hP r

theorem Finds.mono {p : Program S ε α} (hp : Finds h p P)
    (hmono : ∀ a h', h ⊆ h' → P a h' → P' a h') : Finds h p P' := by
  refine Satisfies.mono hp fun out h' hout => ?_
  exact ⟨hout.1, fun a ha => hmono a h' hout.1 (hout.2 a ha)⟩

/-- The rule of sequencing: what the first half found out is there for the second. -/
theorem Finds.bind {p : Program S ε α} {f : α → Program S ε β}
    {R : β → List (Event S) → Prop} (hp : Finds h p P)
    (hf : ∀ a h', h ⊆ h' → P a h' → Finds h' (f a) R) : Finds h (p >>= f) R := by
  refine Satisfies.bind hp ?_ ?_
  · intro a h' ha
    refine Satisfies.mono (hf a h' ha.1 (ha.2 a rfl)) fun out h'' hout => ?_
    exact ⟨List.Subset.trans ha.1 hout.1, hout.2⟩
  · intro e h' he
    exact ⟨he.1, fun b hb => by cases hb⟩

/-- The rule of `try`: an exception is an outcome too. -/
theorem Finds.attempt {p : Program S ε α} {R : Except ε α → List (Event S) → Prop}
    (hp : Finds h p P) (hok : ∀ a h', P a h' → R (.ok a) h')
    (herr : ∀ e h', h ⊆ h' → R (.error e) h') : Finds h p.attempt R := by
  refine satisfies_attempt.mpr (Satisfies.mono hp fun out h' hout => ⟨hout.1, ?_⟩)
  intro r hr
  obtain rfl := Except.ok.inj hr
  cases out with
  | ok a => exact hok a h' (hout.2 a rfl)
  | error e => exact herr e h' hout.1

theorem Finds.ite {c : Prop} [Decidable c] {p q : Program S ε α} (hp : c → Finds h p P)
    (hq : ¬ c → Finds h q P) : Finds h (if c then p else q) P := by
  split_ifs with hc
  · exact hp hc
  · exact hq hc

/-- What a program finds out is the case at the end of its traces. -/
theorem Finds.of_traces {p : Program S ε α} {a : α} (hp : Finds [] p P)
    (htrace : Traces p h (some (.ok a))) : P a h :=
  (htrace.holds hp).2 a rfl

end Program

/-- **What the recorder checks holds of every trace**: each call was permitted when it was
issued. -/
theorem Traces.respects {G : List (Event S) → Prop} {P : List (Event S) → S.Op → Prop}
    {Q : Except ε α → List (Event S) → Prop} {p : Program S ε α} {h₀ h : List (Event S)}
    {out : Option (Except ε α)} (htrace : Traces p h out)
    (hG : ∀ h₁ h₂, G (h₁ ++ h₂) → G h₁) (hp : p.Satisfies (recorder G P) Q h₀)
    (hgenuine : G (h₀ ++ h)) {h₁ h₂ : List (Event S)} {e : Event S} (hsplit : h = h₁ ++ e :: h₂) :
    P (h₀ ++ h₁) e.op := by
  induction htrace generalizing h₀ h₁ with
  | cut _ => exact absurd hsplit (by simp)
  | ret _ => exact absurd hsplit (by simp)
  | raise _ => exact absurd hsplit (by simp)
  | @call o k r h out _ ih =>
    obtain ⟨hpermits, hk⟩ := Program.satisfies_call.mp hp
    cases h₁ with
    | nil =>
      obtain ⟨rfl, -⟩ := List.cons.inj hsplit
      rwa [List.append_nil]
    | cons e₁ h₁ =>
      obtain ⟨rfl, hrest⟩ := List.cons.inj hsplit
      have happend : h₀ ++ ⟨o, r⟩ :: h = (h₀ ++ [⟨o, r⟩]) ++ h := by
        rw [List.append_assoc]
        rfl
      rw [happend] at hgenuine
      have hmove : (recorder G P).Moves h₀ o r (h₀ ++ [⟨o, r⟩]) := ⟨rfl, hG _ _ hgenuine⟩
      have hrec := ih (hk r _ hmove) hgenuine hrest
      rwa [List.append_assoc] at hrec

end Effects
