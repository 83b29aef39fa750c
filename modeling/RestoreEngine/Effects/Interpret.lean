import RestoreEngine.Effects.Program

/-!
# Programs over other calls

The same code may be looked at against another part of its surroundings, where other calls are
atomic. A handler has a program over `T` for every call over `S`, and interpreting a program
replaces its calls by these programs. What the handler keeps for all calls that a program can issue,
the interpreted program keeps (`Only.interpret`).
-/

namespace Effects

variable {S T : Signature} {ε α σ : Type}

/-- A program over `T` for every call over `S`. -/
abbrev Handler (S T : Signature) (ε : Type) : Type := (o : S.Op) → Program T ε (S.Res o)

namespace Program

/-- The program over the calls of the handler. -/
def interpret (f : Handler S T ε) : Program S ε α → Program T ε α
  | ret a => ret a
  | raise e => raise e
  | call o k => f o >>= fun r => (k r).interpret f

/-- **The frame rule for handlers**: what the handler keeps for every call that the program can
issue, the interpreted program keeps. -/
theorem Only.interpret {f : Handler S T ε} {P : S.Op → Prop} {M : Machine T σ} {I : σ → Prop}
    {p : Program S ε α} {s : σ} (hp : Only P p) (hs : I s)
    (hf : ∀ o, P o → ∀ s, I s → Satisfies M (fun _ s' => I s') s (f o)) :
    Satisfies M (fun _ s' => I s') s (p.interpret f) := by
  induction p generalizing s with
  | ret a => exact satisfies_ret.mpr hs
  | raise e => exact satisfies_raise.mpr hs
  | call o k ih =>
    obtain ⟨ho, hk⟩ := only_call.mp hp
    exact Satisfies.bind (hf o ho s hs) (fun r s' hs' => ih r (hk r) hs') fun _ _ hs' => hs'

end Program

end Effects
