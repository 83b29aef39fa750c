import RestoreEngine.Effects.Program

/-!
# Programs put together from parts

A large program calls a few procedures that do the real work and keeps books around them.
`MadeOf F E p` says that `p` is put together in this way, by sequencing and by `try`: from calls
that satisfy `F` and from the programs of a family `E`, its parts.

The rule `MadeOf.satisfies` extends the frame rule `Only.satisfies` to such programs. What no call
of `F` can disturb survives the program, if every part keeps it; the parts are judged one by one,
and the program around them is not looked at again.
-/

namespace Effects

namespace Program

variable {S : Signature} {ε α β σ : Type}

/-- `MadeOf F E p`: the program `p` is **put together** from calls that satisfy `F` and from
programs of `E`. -/
inductive MadeOf (F : S.Op → Prop) (E : ∀ α : Type, Program S ε α → Prop) :
    ∀ {α : Type}, Program S ε α → Prop
  | only {α : Type} {p : Program S ε α} (h : p.Only F) : MadeOf F E p
  | part {α : Type} {p : Program S ε α} (h : E α p) : MadeOf F E p
  | bind {α β : Type} {p : Program S ε α} {f : α → Program S ε β} (hp : MadeOf F E p)
      (hf : ∀ a, MadeOf F E (f a)) : MadeOf F E (p >>= f)
  | attempt {α : Type} {p : Program S ε α} (hp : MadeOf F E p) : MadeOf F E p.attempt

namespace MadeOf

variable {F : S.Op → Prop} {E : ∀ α : Type, Program S ε α → Prop}

theorem ret (a : α) : MadeOf F E (Program.ret a) := .only only_ret

theorem raise (e : ε) : MadeOf F E (Program.raise e : Program S ε α) := .only only_raise

theorem ofExcept (x : Except ε α) : MadeOf F E (Program.ofExcept x) := .only only_ofExcept

/-- A single call. -/
theorem perform {o : S.Op} (ho : F o) : MadeOf F E (Program.perform o) :=
  .only (only_perform.mpr ho)

theorem ite {c : Prop} [Decidable c] {p q : Program S ε α} (hp : c → MadeOf F E p)
    (hq : ¬ c → MadeOf F E q) : MadeOf F E (if c then p else q) := by
  split_ifs with hc
  · exact hp hc
  · exact hq hc

/-- **Refinement**: the parts are put together from smaller parts. -/
theorem refine {F' : S.Op → Prop} {E' : ∀ α : Type, Program S ε α → Prop} {p : Program S ε α}
    (hp : MadeOf F E p) (hF : ∀ o, F o → F' o) (hE : ∀ α p, E α p → MadeOf F' E' p) :
    MadeOf F' E' p := by
  induction hp with
  | only h => exact .only (h.mono hF)
  | part h => exact hE _ _ h
  | bind _ _ ihp ihf => exact .bind ihp ihf
  | attempt _ ih => exact .attempt ih

/-- **The rule of parts**: what the calls of `F` and the parts keep, the program keeps. -/
theorem satisfies {A : Machine S σ} {I : σ → Prop} {p : Program S ε α} (hp : MadeOf F E p)
    (hpermit : ∀ s o, F o → I s → A.Permits s o)
    (hmove : ∀ s o r s', F o → I s → A.Moves s o r s' → I s')
    (hpart : ∀ α p s, E α p → I s → Satisfies A (fun _ s' => I s') s p) {s : σ} (hs : I s) :
    Satisfies A (fun _ s' => I s') s p := by
  induction hp generalizing s with
  | only h => exact h.satisfies hs hpermit hmove
  | part h => exact hpart _ _ _ h hs
  | bind _ _ ihp ihf => exact (ihp hs).bind (fun a s' hs' => ihf a hs') fun _ _ hs' => hs'
  | attempt _ ih => exact satisfies_attempt.mpr (ih hs)

end MadeOf

end Program

end Effects
