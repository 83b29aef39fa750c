import RestoreEngine.Effects.History

/-!
# Views

What a program has observed of a run is its view, by which a protocol judges it. Here are tools for
views.

* A program may have to keep to two protocols that say different things about it, each with views of
  its own. `Protocol.both` puts the two side by side: the views are pairs, and a call has to be
  permitted by both. What a program satisfies on each protocol it satisfies on both
  (`Satisfies.both`), so that the programs of a pool can be judged on one protocol after the other,
  and an invariant may still speak of both views (`Interleaved.invariant_both`).
* What a program knows it goes on knowing, if views only grow (`Satisfies.grows`).
* What a program has been told last is a matter of the history (`lastRead`), and a condition on
  steps may have been met throughout a history (`Throughout`).
-/

namespace Effects

variable {S : Signature} {ε α M N : Type}

/-! ### Two protocols -/

/-- **Both protocols at once.** -/
def Protocol.both (P : Protocol S M) (P' : Protocol S N) : Protocol S (M × N) where
  observe m o r := (P.observe m.1 o r, P'.observe m.2 o r)
  Permits m o := P.Permits m.1 o ∧ P'.Permits m.2 o

/-- A program that keeps to two protocols, each with genuine replies, keeps to both at once. -/
theorem Program.Satisfies.both {P : Protocol S M} {P' : Protocol S N}
    {G : M → (o : S.Op) → S.Res o → Prop} {G' : N → (o : S.Op) → S.Res o → Prop}
    {Q : Except ε α → M → Prop} {Q' : Except ε α → N → Prop} {m : M} {n : N} {p : Program S ε α}
    (h : p.Satisfies (P.guarded G) Q m) (h' : p.Satisfies (P'.guarded G') Q' n) :
    p.Satisfies ((P.both P').guarded fun v o r => G v.1 o r ∧ G' v.2 o r)
      (fun out v => Q out v.1 ∧ Q' out v.2) (m, n) := by
  induction p generalizing m n with
  | ret a =>
    rw [satisfies_ret] at h h' ⊢
    exact ⟨h, h'⟩
  | raise e =>
    rw [satisfies_raise] at h h' ⊢
    exact ⟨h, h'⟩
  | call o k ih =>
    rw [satisfies_call] at h h' ⊢
    refine ⟨⟨h.1, h'.1⟩, ?_⟩
    rintro r _ ⟨⟨hr, hr'⟩, rfl⟩
    exact ih r (h.2 r _ ⟨hr, rfl⟩) (h'.2 r _ ⟨hr', rfl⟩)

/-- **The invariant rule for two protocols.** The programs keep to `P`, and to `P'` as long as
replies are genuine. An invariant of both views that every permitted call keeps holds at the end of
every run; and a program that is done has established what it was to establish on `P'`. -/
theorem Interleaved.invariant_both {W C ι : Type} [DecidableEq ι] {env : Environment S W C}
    {cond : StepCondition S ι} {p₀ p : ι → Program S ε Unit} {w₀ w : W} {h : List (ι × Event S)}
    (hrun : Interleaved env cond p₀ w₀ h p w) (P : Protocol S M) (P' : Protocol S N)
    (Genuine : N → (o : S.Op) → S.Res o → Prop)
    (Inv : List (ι × Event S) → (ι → M) → (ι → N) → W → Prop) {Q : Except ε Unit → N → Prop}
    {m : M} {n : N} (hfst : ∀ i, (p₀ i).Satisfies P.machine (fun _ _ => True) m)
    (hsnd : ∀ i, (p₀ i).Satisfies (P'.guarded Genuine) Q n)
    (hinit : Inv [] (fun _ => m) (fun _ => n) w₀)
    (hstep : ∀ h u v w i o a r w', Inv h u v w → P.Permits (u i) o → P'.Permits (v i) o →
      env o a w = some (r, w') → cond h (i, ⟨o, r⟩) → Genuine (v i) o r ∧
        Inv (h ++ [(i, ⟨o, r⟩)]) (Function.update u i (P.observe (u i) o r))
          (Function.update v i (P'.observe (v i) o r)) w') :
    ∃ u v, Inv h u v w ∧ ∀ i, (p i).isDone = true → ∃ out, Q out (v i) := by
  have hboth : ∀ i, (p₀ i).Satisfies ((P.both P').guarded fun v o r => True ∧ Genuine v.2 o r)
      (fun out v => True ∧ Q out v.2) (m, n) := fun i =>
    Program.Satisfies.both (G := fun _ _ _ => True) (hfst i).guarded (hsnd i)
  refine Exists.elim (hrun.invariant_and_rest (fun _ => P.both P')
    (fun v o r => True ∧ Genuine v.2 o r)
    (fun h c w => Inv h (fun i => (c i).1) (fun i => (c i).2) w) hboth hinit ?_) ?_
  · intro h c w i o a r w' hinv hpermits henv hcond
    -- to update the pair of views is to update both of them
    have hu : (fun j => (Function.update c i ((P.both P').observe (c i) o r) j).1) =
        Function.update (fun j => (c j).1) i (P.observe (c i).1 o r) :=
      Function.comp_update Prod.fst c i _
    have hv : (fun j => (Function.update c i ((P.both P').observe (c i) o r) j).2) =
        Function.update (fun j => (c j).2) i (P'.observe (c i).2 o r) :=
      Function.comp_update Prod.snd c i _
    obtain ⟨hgenuine, hnext⟩ := hstep h _ _ w i o a r w' hinv hpermits.1 hpermits.2 henv hcond
    rw [hu, hv]
    exact ⟨⟨trivial, hgenuine⟩, hnext⟩
  · rintro c ⟨hinv, hrest⟩
    refine ⟨_, _, hinv, fun i hdone => ?_⟩
    obtain ⟨out, -, hout⟩ := (hrest i).of_isDone hdone
    exact ⟨out, hout⟩

/-! ### Views that grow -/

/-- States that only grow have grown when the program has come to its end. -/
theorem Program.Satisfies.grows {σ : Type} {A : Machine S σ} {R : σ → σ → Prop}
    (hrefl : ∀ s, R s s) (htrans : ∀ {s s' s''}, R s s' → R s' s'' → R s s'')
    (hmoves : ∀ {s o r s'}, A.Moves s o r s' → R s s') {Q : Except ε α → σ → Prop} {s : σ}
    {p : Program S ε α} (hp : p.Satisfies A Q s) :
    p.Satisfies A (fun out s' => Q out s' ∧ R s s') s := by
  induction p generalizing s with
  | ret a =>
    rw [satisfies_ret] at hp ⊢
    exact ⟨hp, hrefl s⟩
  | raise e =>
    rw [satisfies_raise] at hp ⊢
    exact ⟨hp, hrefl s⟩
  | call o k ih =>
    rw [satisfies_call] at hp ⊢
    refine ⟨hp.1, fun r s' hs' => ?_⟩
    exact (ih r (hp.2 r s' hs')).mono fun out s'' hs'' => ⟨hs''.1, htrans (hmoves hs') hs''.2⟩

/-! ### What has been read last -/

section LastRead

variable {ι β : Type} [DecidableEq ι] {i : ι} {read : Event S → Option β} {h : List (ι × Event S)}

/-- What program `i` was told last by the events that `read` picks out. -/
def lastRead (i : ι) (read : Event S → Option β) (h : List (ι × Event S)) : Option β :=
  (h.filterMap fun e => if e.1 = i then read e.2 else none).getLast?

@[simp] theorem lastRead_nil : lastRead i read [] = none := rfl

theorem lastRead_append (e : ι × Event S) : lastRead i read (h ++ [e]) =
    if e.1 = i then (read e.2).or (lastRead i read h) else lastRead i read h := by
  rw [lastRead, List.filterMap_append, List.getLast?_append]
  split_ifs with hi
  · cases hread : read e.2 <;> simp [hi, hread, lastRead]
  · simp [hi, lastRead]

end LastRead

/-! ### Conditions on steps -/

section Throughout

variable {ι : Type} {cond : StepCondition S ι} {h : List (ι × Event S)} {e : ι × Event S}

/-- Every event of the history meets the condition, given what came before it. -/
def Throughout (cond : StepCondition S ι) (h : List (ι × Event S)) : Prop :=
  ∀ h₁ e h₂, h = h₁ ++ e :: h₂ → cond h₁ e

theorem throughout_nil : Throughout cond [] := by
  intro h₁ e h₂ h
  simp at h

theorem throughout_append : Throughout cond (h ++ [e]) ↔ Throughout cond h ∧ cond h e := by
  refine ⟨fun hall => ⟨fun h₁ e' h₂ hsplit => ?_, hall h e [] rfl⟩, ?_⟩
  · refine hall h₁ e' (h₂ ++ [e]) ?_
    rw [hsplit, List.append_assoc, List.cons_append]
  · rintro ⟨hold, hnew⟩ h₁ e' h₂ hsplit
    -- the event is the last one, or an earlier one
    rcases List.eq_nil_or_concat h₂ with rfl | ⟨rest, last, rfl⟩
    · obtain ⟨rfl, hlast⟩ := List.append_inj' hsplit rfl
      obtain rfl := List.head_eq_of_cons_eq hlast
      exact hnew
    · have hshift : h ++ [e] = (h₁ ++ e' :: rest) ++ [last] := by
        rw [hsplit, List.concat_eq_append, List.append_assoc, List.cons_append]
      exact hold h₁ e' rest (List.append_inj' hshift rfl).1

end Throughout

end Effects
