import Mathlib.Data.List.Infix
import RestoreEngine.Model.Audit

/-!
# The audit log keeps the newest entries

Between the push of an entry and the trim of the log others may push and trim. All the same, the log
is at every moment a first part of all that has been pushed, newest first, and no shorter than what
is to be retained; whoever has pushed has still to trim if it is longer (`Kept`). So once all calls
have returned the log holds exactly the newest entries (`newest_entries`). The reports are trimmed
in several steps, and there this fails.
-/

namespace RestoreEngine.Audit

open Effects Program

variable {ι : Type} [DecidableEq ι] {retain : ℕ} {configured : Option ℤ} {i : ι} {s s' : Store}
  {v : ι → Stage} {m : Stage}

/-- How far a call has come. -/
inductive Stage
  | idle
  /-- An entry is pushed, and the log is not trimmed yet. -/
  | pushed
  deriving DecidableEq

/-- How a call proceeds. -/
def Stage.observe : Stage → (o : Op) → o.Res → Stage
  | idle, .lpush _, _ => pushed
  | pushed, .ltrim _, _ => idle
  | m, _, _ => m

/-- What a call issues. -/
def Stage.Permits (retain : ℕ) : Stage → Op → Prop
  | idle, .ltrim _ => False
  | idle, _ => True
  | pushed, o => o = .ltrim (retain - 1)

/-- The protocol of the audit log. -/
def auditing (retain : ℕ) : Protocol commands Stage where
  observe := Stage.observe
  Permits := Stage.Permits retain

/-- The processes, and an empty log. -/
def auditPool (configured : Option ℤ) (calls : ι → List Call) :
    Pool commands Unit Store Stage ι where
  world := { lines := [], appended := [] }
  proc i := performCalls configured (calls i)
  view _ := .idle

/-! ### The calls keep to the protocol -/

private theorem satisfies_issue {o : Op} {Q : Except Unit o.Res → Stage → Prop} :
    (issue o).Satisfies (auditing retain).machine Q m ↔
      m.Permits retain o ∧ ∀ r, Q (.ok r) (m.observe o r) := by
  refine satisfies_perform.trans (and_congr_right fun _ => ⟨fun h r => h r _ rfl, ?_⟩)
  rintro h r _ rfl
  exact h r

private theorem appendAudit_auditing {action actor : String} {detail : Json} :
    (appendAudit configured action actor detail).Satisfies
      (auditing (auditRetain configured)).machine
      (fun out m => (∃ entry, out = .ok entry) ∧ m = .idle) .idle := by
  rw [appendAudit, satisfies_bind, satisfies_issue]
  refine ⟨trivial, fun ts => ?_⟩
  rw [then_ok, satisfies_bind]
  refine (satisfies_issue (o := .lpush _)).mpr ⟨trivial, fun _ => ?_⟩
  rw [then_ok, satisfies_bind]
  refine (satisfies_issue (o := .ltrim _)).mpr ⟨rfl, fun _ => ?_⟩
  exact then_ok.mpr (satisfies_ret.mpr ⟨⟨_, rfl⟩, rfl⟩)

private theorem performCalls_auditing (calls : List Call) :
    (performCalls configured calls).Satisfies (auditing (auditRetain configured)).machine
      (fun _ m => m = .idle) .idle := by
  induction calls with
  | nil => exact satisfies_ret.mpr rfl
  | cons call calls ih =>
    cases call with
    | append action actor detail =>
      rw [performCalls, satisfies_bind]
      refine appendAudit_auditing.mono ?_
      rintro _ _ ⟨⟨entry, rfl⟩, rfl⟩
      exact then_ok.mpr ih
    | list limit offset =>
      rw [performCalls, satisfies_bind, listAudit]
      refine (satisfies_issue (o := .lrange _ _)).mpr ⟨trivial, fun _ => ?_⟩
      exact then_ok.mpr ih

/-! ### What the log holds -/

/-- The log is a first part of what has been pushed, and holds the newest entries. -/
structure Holds (retain : ℕ) (s : Store) : Prop where
  lines : s.lines <+: s.appended
  newest : s.appended.take retain <+: s.lines

/-- The log at work: if it holds too many entries, somebody has still to trim it. -/
structure Kept (retain : ℕ) (s : Store) (v : ι → Stage) : Prop extends Holds retain s where
  owed : s.lines.length ≤ retain ∨ ∃ i, v i = .pushed

namespace Kept

omit [DecidableEq ι] in
/-- An entry is pushed. -/
private theorem push (h : Kept retain s v) (entry : Entry) (hretain : 0 < retain)
    {v' : ι → Stage} (hi : v' i = .pushed) :
    Kept retain ⟨entry :: s.lines, entry :: s.appended⟩ v' where
  lines := List.cons_prefix_cons.mpr ⟨rfl, h.lines⟩
  newest := by
    obtain ⟨k, rfl⟩ := Nat.exists_eq_succ_of_ne_zero hretain.ne'
    -- one entry less of those before the push
    have hfewer : s.appended.take k <+: s.appended.take (k + 1) :=
      List.take_prefix_take_left (Nat.le_succ k)
    exact List.cons_prefix_cons.mpr ⟨rfl, hfewer.trans h.newest⟩
  owed := .inr ⟨i, hi⟩

omit [DecidableEq ι] in
/-- The log is trimmed. -/
private theorem trim (h : Kept retain s v) (hretain : 0 < retain) (v' : ι → Stage) :
    Kept retain { s with lines := range 0 (retain - 1) s.lines } v' := by
  have hrange : range 0 (retain - 1) s.lines = s.lines.take retain := by
    rw [range, List.drop_zero, Nat.sub_add_cancel hretain]
  rw [hrange]
  refine ⟨⟨(List.take_prefix retain s.lines).trans h.lines, ?_⟩, .inl ?_⟩
  · exact List.prefix_take_iff.mpr ⟨h.newest, List.length_take_le retain s.appended⟩
  · exact List.length_take_le retain s.lines

/-- Whatever a call does next. -/
private theorem step {o : Op} {now : Instant} {r : o.Res} (h : Kept retain s v)
    (hretain : 0 < retain) (hpermits : (v i).Permits retain o)
    (hs : environment o now s = some (r, s')) :
    Kept retain s' (Function.update v i ((v i).observe o r)) := by
  have hself : ∀ m', Function.update v i m' i = m' := fun m' => Function.update_self ..
  cases hi : v i with
  | idle =>
    rw [hi] at hpermits
    cases o with
    | lpush entry =>
      obtain rfl := (Prod.mk.inj (Option.some.inj hs)).2
      exact h.push entry hretain (hself .pushed)
    | ltrim stop => exact hpermits.elim
    | utcNow =>
      obtain rfl := (Prod.mk.inj (Option.some.inj hs)).2
      have hsame : Stage.idle.observe .utcNow r = v i := hi.symm
      rwa [hsame, Function.update_eq_self]
    | lrange start stop =>
      obtain rfl := (Prod.mk.inj (Option.some.inj hs)).2
      have hsame : Stage.idle.observe (.lrange start stop) r = v i := hi.symm
      rwa [hsame, Function.update_eq_self]
  | pushed =>
    rw [hi] at hpermits
    obtain rfl : o = .ltrim (retain - 1) := hpermits
    obtain rfl := (Prod.mk.inj (Option.some.inj hs)).2
    exact h.trim hretain _

end Kept

/-- What is retained is never nothing. -/
theorem auditRetain_pos (configured : Option ℤ) : 0 < auditRetain configured := by
  rw [auditRetain]
  omega

/-- A page that lies within what is retained is one of all that has been pushed. -/
theorem Holds.page (h : Holds retain s) {start stop : ℕ} (hstop : stop < retain) :
    range start stop s.lines = range start stop s.appended := by
  have hle : stop + 1 ≤ retain := hstop
  have hnewest : s.lines.take (stop + 1) = s.appended.take (stop + 1) := by
    refine List.IsPrefix.eq_of_length_le (List.IsPrefix.take h.lines (stop + 1)) ?_
    have hlength := h.newest.length_le
    simp only [List.length_take] at hlength ⊢
    omega
  rw [range, range, hnewest]

/-- What is claimed of the log. -/
structure KeepsNewest (configured : Option ℤ) (pool : Pool commands Unit Store Stage ι) : Prop where
  /-- At every moment the log is a first part of all that has been pushed, newest first. -/
  lines : pool.world.lines <+: pool.world.appended
  /-- A page that lies within what is retained shows what was pushed. -/
  pages : ∀ start stop, stop < auditRetain configured →
    range start stop pool.world.lines = range start stop pool.world.appended
  /-- The log is no longer than it should be, unless a call has still to trim it. -/
  bounded : pool.world.lines.length ≤ auditRetain configured ∨ ∃ i, pool.view i = .pushed
  /-- When all calls have returned it holds the newest entries. -/
  newest : (∀ i, pool.proc i = .ret ()) →
    pool.world.lines = pool.world.appended.take (auditRetain configured)

/-- **The newest entries are kept**, whatever the order in which the commands of the calls come. -/
theorem newest_entries (configured : Option ℤ) (calls : ι → List Call)
    {pool : Pool commands Unit Store Stage ι}
    (hrun : Reachable environment (auditing (auditRetain configured)) (fun _ _ _ _ _ => True)
      (auditPool configured calls) pool) :
    KeepsNewest configured pool := by
  have hcalls : ∀ i, ((auditPool configured calls).proc i).Satisfies
      (auditing (auditRetain configured)).machine (fun _ m => m = .idle) .idle :=
    fun i => performCalls_auditing (calls i)
  have hkept : Kept (auditRetain configured) pool.world pool.view := by
    refine hrun.invariant (Kept (auditRetain configured)) hcalls
      ⟨⟨List.prefix_rfl, List.take_prefix _ _⟩, .inl (Nat.zero_le _)⟩ ?_
    intro s v i o now r s' h hpermits hs _
    exact h.step (auditRetain_pos configured) hpermits hs
  refine ⟨hkept.lines, fun start stop hstop => hkept.toHolds.page hstop, hkept.owed,
    fun hreturned => ?_⟩
  -- nobody has still to trim
  have hidle : ∀ i, pool.view i = .idle := by
    intro i
    have hi := hrun.onProtocol hcalls i
    rw [hreturned i] at hi
    exact satisfies_ret.mp hi
  have hlength : pool.world.lines.length ≤ auditRetain configured := by
    rcases hkept.owed with hlength | ⟨i, hi⟩
    · exact hlength
    · rw [hidle i] at hi
      cases hi
  have hfirst : pool.world.lines <+: pool.world.appended.take (auditRetain configured) :=
    List.prefix_take_iff.mpr ⟨hkept.lines, hlength⟩
  exact hfirst.eq_of_length_le hkept.newest.length_le

/-- Two calls push before either trims. -/
theorem newest_entries_overlapping : ∃ pool : Pool commands Unit Store Stage Bool,
    pool.world.lines.length = 2 ∧ KeepsNewest (some 200) pool := by
  let calls : Bool → List Call := fun _ => [.append "restore" "" (.obj []), .list 50 0]
  let sched : List (Bool × Instant) :=
    [(true, 5), (false, 7), (true, 0), (false, 0), (true, 0), (false, 0), (true, 0), (false, 0)]
  have hexec : (((auditPool (some 200) calls).exec environment
      (auditing (auditRetain (some 200))) sched).any fun pool => pool.world.lines.length = 2) =
        true := by
    decide +kernel
  obtain ⟨pool, hpool, hlength⟩ := (Option.any_eq_true _ _).mp hexec
  exact ⟨pool, of_decide_eq_true hlength, newest_entries (some 200) calls
    (Pool.reachable_of_exec (fun _ _ _ _ _ => trivial) .refl hpool)⟩

end RestoreEngine.Audit
