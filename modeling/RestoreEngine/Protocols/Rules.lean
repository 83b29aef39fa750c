import RestoreEngine.Model.World

/-!
# Rules for programs on a protocol

What it takes for a single command to keep to a protocol: it must be permitted, and the rest is
judged with the view that has observed its reply, whatever the reply is.
-/

namespace RestoreEngine

open Effects Prog Program

variable {M : Type} {P : Protocol commands M} {m : M}

/-- A command on a protocol. -/
theorem onProtocol_issue (o : Op) {Q : Except Exn o.Res → M → Prop} :
    Satisfies P.machine Q m (issue o) ↔
      P.Permits m o ∧ ∀ r, Q (.ok r) (P.observe m o r) := by
  refine (@satisfies_perform commands Exn M P.machine m o Q).trans ?_
  refine and_congr_right fun _ => forall_congr' fun r => ?_
  exact ⟨fun h => h _ rfl, fun h m' hm => hm ▸ h⟩

/-- A command on a protocol with genuine replies. -/
theorem guarded_issue {Genuine : M → (o : commands.Op) → commands.Res o → Prop} (o : Op)
    {Q : Except Exn o.Res → M → Prop} :
    Satisfies (P.guarded Genuine) Q m (issue o) ↔
      P.Permits m o ∧ ∀ r, Genuine m o r → Q (.ok r) (P.observe m o r) := by
  refine (@satisfies_perform commands Exn M (P.guarded Genuine) m o Q).trans ?_
  refine and_congr_right fun _ => forall_congr' fun r => ?_
  exact ⟨fun h hr => h _ ⟨hr, rfl⟩, fun h m' hm => hm.2 ▸ h hm.1⟩

/-- A program that stays within a footprint the protocol permits and does not observe. -/
theorem onProtocol_of_only {α : Type} {p : Prog α} {F : Op → Prop} (hp : p.Only F)
    (hpermits : ∀ o, F o → P.Permits m o) (hobserve : ∀ o r, F o → P.observe m o r = m) :
    Satisfies P.machine (fun _ m' => m' = m) m p := by
  refine hp.satisfies rfl ?_ ?_
  · rintro s o ho rfl
    exact hpermits o ho
  · rintro s o r s' ho rfl hs'
    exact hs'.trans (hobserve o r ho)

end RestoreEngine
