import RestoreEngine.Effects.Pool
import RestoreEngine.Effects.Trace

/-!
# Interleaved runs with their histories

The runs of a pool, told by what happened: the history of a run lists, in order, which program
issued which call and which reply it got. Conditions on a run may look at the history of all
programs, and so may what is claimed of it. That a write is not based on a value that has changed
since, say, is about the calls of several programs.

`Interleaved.invariant` is the rule of invariants. As for pools, each program is judged alone,
against a protocol on what it has observed itself.
-/

namespace Effects

variable {S : Signature} {ε W C M ι : Type} [DecidableEq ι]

/-- A condition on the steps of a run: on the history so far, and the call with its reply. -/
abbrev StepCondition (S : Signature) (ι : Type) : Type := List (ι × Event S) → ι × Event S → Prop

/-- `Interleaved env cond p₀ w₀ h p w`: some run of the programs `p₀` from `w₀`, whose steps meet
`cond`, has the history `h` and has come to the programs `p` and the world `w`. -/
inductive Interleaved (env : Environment S W C) (cond : StepCondition S ι)
    (p₀ : ι → Program S ε Unit) (w₀ : W) :
    List (ι × Event S) → (ι → Program S ε Unit) → W → Prop
  | start : Interleaved env cond p₀ w₀ [] p₀ w₀
  | step {h : List (ι × Event S)} {p : ι → Program S ε Unit} {w w' : W} {i : ι} {o : S.Op}
      {k : S.Res o → Program S ε Unit} {a : C} {r : S.Res o}
      (hrun : Interleaved env cond p₀ w₀ h p w) (hi : p i = .call o k)
      (hw : env o a w = some (r, w')) (hcond : cond h (i, ⟨o, r⟩)) :
      Interleaved env cond p₀ w₀ (h ++ [(i, ⟨o, r⟩)]) (Function.update p i (k r)) w'

/-- What program `i` has observed in the events of a history. -/
def Protocol.viewOf (P : Protocol S M) (m : M) (i : ι) (h : List (ι × Event S)) : M :=
  h.foldl (fun m e => if e.1 = i then P.observe m e.2.op e.2.res else m) m

theorem Protocol.viewOf_append (P : Protocol S M) (m : M) (i : ι) (h : List (ι × Event S))
    (e : ι × Event S) : P.viewOf m i (h ++ [e]) =
      if e.1 = i then P.observe (P.viewOf m i h) e.2.op e.2.res else P.viewOf m i h := by
  rw [viewOf, List.foldl_append]
  rfl

variable {env : Environment S W C} {cond : StepCondition S ι} {p₀ p : ι → Program S ε Unit}
  {w₀ w : W} {h : List (ι × Event S)}

namespace Interleaved

/-- **The invariant rule, with what is left to do.** Every program keeps to its protocol, as long as
replies are genuine. If every call that is permitted and admitted has a genuine reply and keeps
`Inv`, then `Inv` holds at the end of every run, and what is left of each program still establishes
what the program was to establish. -/
theorem invariant_and_rest (P : ι → Protocol S M) (Genuine : M → (o : S.Op) → S.Res o → Prop)
    (Inv : List (ι × Event S) → (ι → M) → W → Prop) {Q : ι → Except ε Unit → M → Prop}
    {v₀ : ι → M} (hrun : Interleaved env cond p₀ w₀ h p w)
    (h₀ : ∀ i, (p₀ i).Satisfies ((P i).guarded Genuine) (Q i) (v₀ i))
    (hinit : Inv [] v₀ w₀)
    (hstep : ∀ h v w i o a r w', Inv h v w → (P i).Permits (v i) o → env o a w = some (r, w') →
      cond h (i, ⟨o, r⟩) → Genuine (v i) o r ∧
        Inv (h ++ [(i, ⟨o, r⟩)]) (Function.update v i ((P i).observe (v i) o r)) w') :
    ∃ v, Inv h v w ∧ ∀ i, (p i).Satisfies ((P i).guarded Genuine) (Q i) (v i) := by
  induction hrun with
  | start => exact ⟨v₀, hinit, h₀⟩
  | @step h p w w' i o k a r _ hi hw hcond ih =>
    obtain ⟨v, hinv, hproc⟩ := ih
    have hcall := hproc i
    rw [hi, Program.satisfies_call] at hcall
    obtain ⟨hgenuine, hnext⟩ := hstep _ _ _ _ _ _ _ _ hinv hcall.1 hw hcond
    refine ⟨_, hnext, fun j => ?_⟩
    by_cases hij : j = i
    · subst hij
      simpa using hcall.2 r _ ⟨hgenuine, rfl⟩
    · simpa [hij] using hproc j

/-- **The invariant rule.** Every program keeps to its protocol, as long as replies are genuine.
If every call that is permitted and admitted has a genuine reply and keeps `Inv`, then `Inv` holds
at the end of every run. -/
theorem invariant (P : ι → Protocol S M) (Genuine : M → (o : S.Op) → S.Res o → Prop)
    (Inv : List (ι × Event S) → (ι → M) → W → Prop) {v₀ : ι → M}
    (hrun : Interleaved env cond p₀ w₀ h p w)
    (h₀ : ∀ i, (p₀ i).Satisfies ((P i).guarded Genuine) (fun _ _ => True) (v₀ i))
    (hinit : Inv [] v₀ w₀)
    (hstep : ∀ h v w i o a r w', Inv h v w → (P i).Permits (v i) o → env o a w = some (r, w') →
      cond h (i, ⟨o, r⟩) → Genuine (v i) o r ∧
        Inv (h ++ [(i, ⟨o, r⟩)]) (Function.update v i ((P i).observe (v i) o r)) w') :
    ∃ v, Inv h v w := by
  obtain ⟨v, hinv, -⟩ := hrun.invariant_and_rest P Genuine Inv h₀ hinit hstep
  exact ⟨v, hinv⟩

end Interleaved

/-! ### Scheduled runs -/

/-- The program has come to its end. -/
def Program.isDone {α : Type} : Program S ε α → Bool
  | .call _ _ => false
  | _ => true

/-- A program that has come to its end has established what it was to establish. -/
theorem Program.Satisfies.of_isDone {α σ : Type} {A : Machine S σ} {Q : Except ε α → σ → Prop}
    {s : σ} {p : Program S ε α} (h : p.Satisfies A Q s) (hdone : p.isDone = true) :
    ∃ out, Q out s := by
  cases p with
  | ret a => exact ⟨_, satisfies_ret.mp h⟩
  | raise e => exact ⟨_, satisfies_raise.mp h⟩
  | call o k => exact absurd hdone Bool.false_ne_true

/-- The run that a schedule describes: which program moves, and how the world answers. It fails at
a step that does not pass `check`. -/
def interleave (env : Environment S W C) (check : List (ι × Event S) → ι × Event S → Bool) :
    List (ι × C) → List (ι × Event S) → (ι → Program S ε Unit) → W →
      Option (List (ι × Event S) × (ι → Program S ε Unit) × W)
  | [], h, p, w => some (h, p, w)
  | (i, a) :: rest, h, p, w =>
    match p i with
    | .call o k =>
      match env o a w with
      | some (r, w') =>
        if check h (i, ⟨o, r⟩) then
          interleave env check rest (h ++ [(i, ⟨o, r⟩)]) (Function.update p i (k r)) w'
        else none
      | none => none
    | _ => none

/-- A scheduled run is a run. -/
theorem interleaved_of_schedule {check : List (ι × Event S) → ι × Event S → Bool}
    {sched : List (ι × C)} {h' : List (ι × Event S)} {p' : ι → Program S ε Unit} {w' : W}
    (hcheck : ∀ h e, check h e = true → cond h e) (hrun : Interleaved env cond p₀ w₀ h p w)
    (hsched : interleave env check sched h p w = some (h', p', w')) :
    Interleaved env cond p₀ w₀ h' p' w' := by
  induction sched generalizing h p w with
  | nil =>
    rw [interleave, Option.some.injEq, Prod.mk.injEq, Prod.mk.injEq] at hsched
    obtain ⟨rfl, rfl, rfl⟩ := hsched
    exact hrun
  | cons ia rest ih =>
    obtain ⟨i, a⟩ := ia
    rw [interleave] at hsched
    split at hsched
    · next o k hi =>
      split at hsched
      · next r w₁ hw =>
        split_ifs at hsched with hpass
        exact ih (hrun.step hi hw (hcheck _ _ hpass)) hsched
      · cases hsched
    · cases hsched

/-- What a scheduled run shows is the case in some run. -/
theorem exists_interleaved {check : List (ι × Event S) → ι × Event S → Bool}
    {sched : List (ι × C)} {shown : List (ι × Event S) × (ι → Program S ε Unit) × W → Bool}
    (hcheck : ∀ h e, check h e = true → cond h e)
    (hsched : (interleave env check sched [] p₀ w₀).any shown = true) :
    ∃ h p w, Interleaved env cond p₀ w₀ h p w ∧ shown (h, p, w) = true := by
  cases hend : interleave env check sched [] p₀ w₀ with
  | none =>
    rw [hend] at hsched
    cases hsched
  | some last =>
    obtain ⟨h, p, w⟩ := last
    rw [hend] at hsched
    exact ⟨h, p, w, interleaved_of_schedule hcheck .start hend, hsched⟩

end Effects
