import Mathlib.Data.List.DropRight
import RestoreEngine.Effects.Pool
import RestoreEngine.Model.Reports
import RestoreEngine.Model.World

/-!
# Reports that are saved at the same time

A trim counts the reports, lists the oldest of them and deletes what it has listed; other processes
may save and trim in between. What is listed stays among the reports that are too many, since the
reports that are too many only become more. What is counted does not stay: once another trim has
deleted reports, the count is too high, and the trim lists reports that are to be kept
(`concurrent_trims_lose_newest`).

As long as no trim lists by a count that has become too high, the index holds a suffix of all that
has been saved, at least the newest up to the limit, and some process has still to trim if it holds
more (`Kept`). So the newest reports are kept when all calls have returned (`newest_kept`).

Where a report is added, listed or dropped in one step, the keys and the index are one list
(`Shows`).
-/

namespace RestoreEngine.Reports

open Effects Program

variable {ι : Type} [DecidableEq ι] {cfg : Config} {limit c n : ℕ} {i : ι} {s s' : Store}
  {id : Uuid} {ids : List Uuid} {v : ι → Stage} {m : Stage}

/-- How far a call has come, with what it goes by. -/
inductive Stage
  | idle
  | named (id : Uuid)
  | saved
  | counted (total : ℕ)
  | listed (oldest : List Uuid)
  deriving DecidableEq

/-- How a call proceeds. -/
def Stage.observe (limit : ℕ) : Stage → (o : Op) → o.Res → Stage
  | idle, .uuid4, id => named id
  | named _, .execute _, _ => saved
  | saved, .zcard, total => if total ≤ limit then idle else counted total
  | counted _, .zrange _ _, oldest => if oldest = [] then idle else listed oldest
  | listed _, .execute _, _ => idle
  | m, _, _ => m

/-- What a call issues. -/
def Stage.Permits (limit : ℕ) : Stage → Op → Prop
  | idle, o => o = .uuid4
  | named id, o => o = .utcNow ∨
    ∃ rep score, o = .execute [.set id rep, .zadd id score]
  | saved, o => o = .zcard
  | counted total, o => limit < total ∧ o = .zrange 0 (total - limit - 1)
  | listed oldest, o => o = .execute (deletions oldest)

/-- The protocol of saving reports. -/
def saving (limit : ℕ) : Protocol commands Stage where
  observe := Stage.observe limit
  Permits := Stage.Permits limit

/-- A process that saves reports, one after the other. -/
def saveReports (cfg : Config) : List (Uuid × ReportMeta) → Program commands Unit Unit
  | [] => return ()
  | (planId, metadata) :: rest => do
    let _ ← saveReport cfg planId metadata
    saveReports cfg rest

/-- The processes, and no report saved yet. -/
def reportPool (cfg : Config) (calls : ι → List (Uuid × ReportMeta)) :
    Pool commands Unit Store Stage ι where
  world := { records := ∅, index := [], saved := [], nextUuid := 0 }
  proc i := saveReports cfg (calls i)
  view _ := .idle

/-! ### Conditions, and what is claimed -/

/-- A report that is added to the index has a greater score than those before it. -/
def Command.increases (s : Store) : Command → Bool
  | zadd _ score => s.saved.all fun e => e.2 < score
  | _ => true

/-- Scores increase in the order in which the reports are added. -/
def scoresIncrease (s : Store) : Op → Bool
  | .execute pipe => pipe.all fun command => command.increases s
  | _ => true

/-- The oldest reports are not listed by a count that has become too high. -/
def CountStands (s : Store) : Stage → Op → Prop
  | .counted total, .zrange _ _ => total ≤ s.index.length
  | _, _ => True

instance (s : Store) (m : Stage) (o : Op) : Decidable (CountStands s m o) :=
  match m, o with
  | .counted total, .zrange _ _ => inferInstanceAs (Decidable (total ≤ s.index.length))
  | .counted _, .uuid4 | .counted _, .utcNow | .counted _, .execute _ | .counted _, .zcard
  | .idle, _ | .named _, _ | .saved, _ | .listed _, _ => .isTrue trivial

/-- The index holds the newest reports, as many as the limit allows, and the reports are there that
it holds. -/
structure Retains (limit : ℕ) (s : Store) : Prop where
  index : s.index = s.saved.rtake limit
  records : ∀ id, (s.records.lookup id).isSome ↔ id ∈ s.index.map (·.1)

/-- **The newest reports are kept** when all calls have returned. -/
def KeepsNewest (cfg : Config) (calls : ι → List (Uuid × ReportMeta))
    (cond : Condition commands Store Stage ι) : Prop :=
  ∀ c, Reachable environment (saving (retainLimit cfg)) cond (reportPool cfg calls) c →
    (∀ i, c.proc i = .ret ()) → Retains (retainLimit cfg) c.world

/-! ### The calls keep to the protocol -/

private theorem satisfies_issue {o : Op} {Q : Except Unit o.Res → Stage → Prop} :
    (issue o).Satisfies (saving limit).machine Q m ↔
      m.Permits limit o ∧ ∀ r, Q (.ok r) (m.observe limit o r) := by
  refine satisfies_perform.trans (and_congr_right fun _ => ⟨fun h r => h r _ rfl, ?_⟩)
  rintro h r _ rfl
  exact h r

private theorem trimReports_saving :
    (trimReports cfg).Satisfies (saving (retainLimit cfg)).machine
      (fun out m => out = .ok () ∧ m = .idle) .saved := by
  rw [trimReports, satisfies_bind, satisfies_issue]
  refine ⟨rfl, fun total => ?_⟩
  rw [then_ok, Stage.observe]
  by_cases hle : total ≤ retainLimit cfg
  · rw [if_pos hle, if_pos hle]
    exact satisfies_ret.mpr ⟨rfl, rfl⟩
  · rw [if_neg hle, if_neg hle, satisfies_bind, satisfies_issue]
    refine ⟨⟨Nat.lt_of_not_le hle, rfl⟩, fun oldest => ?_⟩
    rw [then_ok, Stage.observe]
    by_cases hnil : oldest = []
    · rw [if_pos hnil, if_pos hnil]
      exact satisfies_ret.mpr ⟨rfl, rfl⟩
    · rw [if_neg hnil, if_neg hnil]
      exact (satisfies_issue (o := .execute _)).mpr ⟨rfl, fun _ => ⟨rfl, rfl⟩⟩

private theorem saveReport_saving {planId : Uuid} {metadata : ReportMeta} :
    (saveReport cfg planId metadata).Satisfies (saving (retainLimit cfg)).machine
      (fun out m => (∃ rep, out = .ok rep) ∧ m = .idle) .idle := by
  rw [saveReport, satisfies_bind, satisfies_issue]
  refine ⟨rfl, fun reportId => ?_⟩
  rw [then_ok, satisfies_bind, satisfies_issue]
  refine ⟨.inl rfl, fun score => ?_⟩
  rw [then_ok, satisfies_bind]
  refine (satisfies_issue (o := .execute _)).mpr ⟨.inr ⟨_, _, rfl⟩, fun _ => ?_⟩
  rw [then_ok, satisfies_bind]
  refine trimReports_saving.mono ?_
  rintro _ _ ⟨rfl, rfl⟩
  exact then_ok.mpr (satisfies_ret.mpr ⟨⟨_, rfl⟩, rfl⟩)

private theorem saveReports_saving (calls : List (Uuid × ReportMeta)) :
    (saveReports cfg calls).Satisfies (saving (retainLimit cfg)).machine
      (fun _ m => m = .idle) .idle := by
  induction calls with
  | nil => exact satisfies_ret.mpr rfl
  | cons call rest ih =>
    rw [saveReports, satisfies_bind]
    refine saveReport_saving.mono ?_
    rintro _ _ ⟨⟨rep, rfl⟩, rfl⟩
    exact then_ok.mpr ih

/-! ### What the commands do -/

/-- Deleting reports. -/
private theorem execute_deletions (s : Store) (ids : List Uuid) :
    (deletions ids).foldl Command.apply s =
      { s with
        records := ids.foldl (fun records id => records.erase id) s.records
        index := s.index.filter (·.1 ∉ ids) } := by
  induction ids generalizing s with
  | nil => simp [deletions]
  | cons id rest ih =>
    have hcons : deletions (id :: rest) = [.delete id, .zrem id] ++ deletions rest := rfl
    rw [hcons, List.foldl_append, ih]
    simp only [List.foldl_cons, List.foldl_nil, Command.apply, List.filter_filter, List.mem_cons,
      not_or, Bool.decide_and, ne_eq]
    congr 1
    refine List.filter_congr fun e _ => ?_
    rw [Bool.and_comm]

private theorem lookup_foldl_erase (records : AList fun _ : Uuid => Report) (ids : List Uuid) :
    (ids.foldl (fun records id => records.erase id) records).lookup id =
      if id ∈ ids then none else records.lookup id := by
  induction ids generalizing records with
  | nil => rfl
  | cons id' rest ih =>
    rw [List.foldl_cons, ih]
    by_cases hid : id = id'
    · subst hid
      simp
    · simp [hid, AList.lookup_erase_ne hid]

/-- An entry with the greatest score comes last. -/
private theorem orderedInsert_greatest {e : Entry} {l : List Entry} (h : ∀ e' ∈ l, e'.2 < e.2) :
    l.orderedInsert Entry.Upto e = l ++ [e] := by
  induction l with
  | nil => rfl
  | cons e' rest ih =>
    have hlt : e'.2 < e.2 := h e' List.mem_cons_self
    have hupto : ¬Entry.Upto e e' := by
      rintro (hlt' | ⟨heq, -⟩)
      · exact lt_asymm hlt hlt'
      · exact absurd heq hlt.ne'
    rw [List.orderedInsert_of_not_le _ _ hupto, ih fun e'' he => h e'' (List.mem_cons_of_mem _ he)]
    rfl

/-- Saving a new report with the greatest score. -/
private theorem execute_save {rep : Report} {score : Instant}
    (hnew : id ∉ s.index.map (·.1)) (hscore : ∀ e ∈ s.index, e.2 < score) :
    [Command.set id rep, .zadd id score].foldl Command.apply s =
      { s with
        records := s.records.insert id rep
        index := s.index ++ [(id, score)]
        saved := s.saved ++ [(id, score)] } := by
  have hfilter : s.index.filter (·.1 ≠ id) = s.index := by
    refine List.filter_eq_self.mpr fun e he => decide_eq_true fun heq => ?_
    exact hnew (heq ▸ List.mem_map_of_mem he)
  have hlast : s.index.orderedInsert Entry.Upto (id, score) = s.index ++ [(id, score)] :=
    orderedInsert_greatest hscore
  simp only [List.foldl_cons, List.foldl_nil, Command.apply, hfilter, hlast]

/-- Of what is left of a list, a stretch that starts no later is removed. -/
private theorem drop_filter_stretch {l : List Entry} {a b : ℕ} (hnodup : (l.map (·.1)).Nodup)
    (hac : a ≤ c) (hids : ids = ((l.drop a).take b).map (·.1)) :
    (l.drop c).filter (·.1 ∉ ids) = l.drop (max c (a + b)) := by
  have hstretch : (l.drop a).take b = (l.take (a + b)).drop a := by
    rw [List.drop_take, Nat.add_sub_cancel_left]
  have hsplit : l.drop c = (l.take (a + b)).drop c ++ l.drop (max c (a + b)) := by
    have hmax : max c (a + b) = c + (a + b - c) := by omega
    rw [List.drop_take, hmax, ← List.drop_drop, List.take_append_drop]
  -- what is left of the stretch is listed, and nothing after it is
  have hlisted : ∀ e ∈ (l.take (a + b)).drop c, ¬decide (e.1 ∉ ids) = true := by
    intro e he
    have hmem : e.1 ∈ ids := by
      rw [hids, hstretch]
      exact List.mem_map_of_mem (List.drop_subset_drop_left _ hac he)
    rwa [decide_eq_true_eq, not_not]
  have hafter : ∀ e ∈ l.drop (max c (a + b)), decide (e.1 ∉ ids) = true := by
    intro e he
    refine decide_eq_true fun hmem => ?_
    rw [hids, hstretch] at hmem
    have hfront : e.1 ∈ (l.map (·.1)).take (a + b) := by
      rw [← List.map_take]
      exact List.map_subset _ (List.drop_subset _ _) hmem
    have hback : e.1 ∈ (l.map (·.1)).drop (a + b) := by
      rw [← List.map_drop]
      exact List.mem_map_of_mem (List.drop_subset_drop_left _ (le_max_right _ _) he)
    exact List.disjoint_take_drop hnodup le_rfl hfront hback
  rw [hsplit, List.filter_append, List.filter_eq_nil_iff.mpr hlisted, List.nil_append,
    List.filter_eq_self.mpr hafter]

/-! ### The invariant -/

/-- What has been listed: a stretch of what has been saved, within the excess. -/
def Stretch (limit c : ℕ) (saved : List Entry) (a : ℕ) (ids : List Uuid) : Prop :=
  a ≤ c ∧ ids = ((saved.drop a).take ids.length).map (·.1) ∧
    a + ids.length ≤ saved.length - limit

/-- A call that is still to remove what is too much, having seen all of it. -/
def Stage.Owes (limit c : ℕ) (saved : List Entry) : Stage → Prop
  | .saved => True
  | counted total => saved.length - c ≤ total
  | listed ids => ∃ a, Stretch limit c saved a ids ∧ saved.length - limit ≤ a + ids.length
  | _ => False

/-- `c` reports have been removed, the oldest, and no more than are too many; a report that is too
much is still to be removed by somebody. -/
structure Kept (limit c : ℕ) (s : Store) (v : ι → Stage) : Prop where
  index : s.index = s.saved.drop c
  within : c ≤ s.saved.length - limit
  listed : ∀ i ids, v i = .listed ids → ∃ a, Stretch limit c s.saved a ids
  owed : c = s.saved.length - limit ∨ ∃ i, (v i).Owes limit c s.saved
  records : ∀ id, (s.records.lookup id).isSome ↔ id ∈ s.index.map (·.1)
  nodup : (s.saved.map (·.1)).Nodup
  issued : ∀ id ∈ s.saved.map (·.1), id < s.nextUuid
  named : ∀ i id, v i = .named id → id < s.nextUuid ∧ id ∉ s.saved.map (·.1)
  distinct : ∀ i j id, v i = .named id → v j = .named id → i = j

/-- A stretch stays one when more is removed. -/
private theorem Stretch.mono {c' a : ℕ} {saved : List Entry} (h : Stretch limit c saved a ids)
    (hc : c ≤ c') : Stretch limit c' saved a ids := ⟨h.1.trans hc, h.2⟩

/-- A stretch stays one when more is saved. -/
private theorem Stretch.append {a : ℕ} {saved : List Entry} (h : Stretch limit c saved a ids)
    (e : Entry) : Stretch limit c (saved ++ [e]) a ids := by
  obtain ⟨hac, hids, hlength⟩ := h
  refine ⟨hac, ?_, ?_⟩
  · rw [List.drop_append_of_le_length (by omega),
      List.take_append_of_le_length (by rw [List.length_drop]; omega)]
    exact hids
  · rw [List.length_append]
    omega

private theorem Stage.Owes.mono {c' : ℕ} {saved : List Entry} (h : m.Owes limit c saved)
    (hc : c ≤ c') : m.Owes limit c' saved := by
  cases m with
  | idle | named id => exact h
  | saved => trivial
  | counted total =>
    have hcount : saved.length - c ≤ total := h
    have hless : saved.length - c' ≤ total := by omega
    exact hless
  | listed oldest =>
    obtain ⟨a, hstretch, hlength⟩ := h
    exact ⟨a, hstretch.mono hc, hlength⟩

/-- The other calls are where they were. -/
private theorem of_update {m' : Stage} {j : ι} (hj : Function.update v i m j = m')
    (hne : m ≠ m') : j ≠ i ∧ v j = m' := by
  by_cases hij : j = i
  · subst hij
    rw [Function.update_self] at hj
    exact absurd hj hne
  · rw [Function.update_of_ne hij] at hj
    exact ⟨hij, hj⟩

namespace Kept

/-- A call goes on, and the store stays as it is. -/
private theorem advance (h : Kept limit c s v) (hname : ∀ id, m ≠ .named id)
    (hlisted : ∀ ids, m = .listed ids → ∃ a, Stretch limit c s.saved a ids)
    (howes : (v i).Owes limit c s.saved →
      c = s.saved.length - limit ∨ m.Owes limit c s.saved) :
    Kept limit c s (Function.update v i m) := by
  have hnamed : ∀ j id, Function.update v i m j = .named id → v j = .named id :=
    fun j id hj => (of_update hj (hname id)).2
  refine { h with listed := fun j ids hj => ?_, owed := ?_, named := ?_, distinct := ?_ }
  · by_cases hij : j = i
    · subst hij
      rw [Function.update_self] at hj
      exact hlisted ids hj
    · rw [Function.update_of_ne hij] at hj
      exact h.listed j ids hj
  · rcases h.owed with hall | ⟨j, hj⟩
    · exact .inl hall
    · by_cases hij : j = i
      · subst hij
        refine (howes hj).imp_right fun hm => ⟨j, ?_⟩
        rwa [Function.update_self]
      · refine .inr ⟨j, ?_⟩
        rwa [Function.update_of_ne hij]
  · exact fun j id hj => h.named j id (hnamed j id hj)
  · exact fun j j' id hj hj' => h.distinct j j' id (hnamed j id hj) (hnamed j' id hj')

/-- A call gets the id of its report. -/
private theorem uuid4 (h : Kept limit c s v) (hi : v i = .idle) :
    Kept limit c { s with nextUuid := s.nextUuid + 1 }
      (Function.update v i (.named s.nextUuid)) := by
  have hother : ∀ j id, Function.update v i (.named s.nextUuid) j = .named id →
      j = i ∧ id = s.nextUuid ∨ v j = .named id ∧ id < s.nextUuid := by
    intro j id hj
    by_cases hij : j = i
    · subst hij
      rw [Function.update_self, Stage.named.injEq] at hj
      exact .inl ⟨rfl, hj.symm⟩
    · rw [Function.update_of_ne hij] at hj
      exact .inr ⟨hj, (h.named j id hj).1⟩
  have hfresh : s.nextUuid ∉ s.saved.map (·.1) := fun hmem => lt_irrefl _ (h.issued _ hmem)
  refine { h with listed := ?_, owed := ?_, issued := ?_, named := ?_, distinct := ?_ }
  · intro j ids hj
    exact h.listed j ids (of_update hj nofun).2
  · refine h.owed.imp_right ?_
    rintro ⟨j, hj⟩
    have hij : j ≠ i := by
      rintro rfl
      rw [hi] at hj
      exact hj
    refine ⟨j, ?_⟩
    rwa [Function.update_of_ne hij]
  · exact fun id hid => Nat.lt_succ_of_lt (h.issued id hid)
  · intro j id hj
    rcases hother j id hj with ⟨-, rfl⟩ | ⟨hj, -⟩
    · exact ⟨Nat.lt_succ_self _, hfresh⟩
    · exact ⟨Nat.lt_succ_of_lt (h.named j id hj).1, (h.named j id hj).2⟩
  · intro j j' id hj hj'
    rcases hother j id hj with ⟨rfl, rfl⟩ | ⟨hj, hlt⟩
    · rcases hother j' _ hj' with ⟨rfl, -⟩ | ⟨-, hlt⟩
      · rfl
      · exact absurd hlt (lt_irrefl _)
    · rcases hother j' id hj' with ⟨-, rfl⟩ | ⟨hj', -⟩
      · exact absurd hlt (lt_irrefl _)
      · exact h.distinct j j' id hj hj'

/-- A call saves its report. -/
private theorem save {rep : Report} {score : Instant} (h : Kept limit c s v)
    (hi : v i = .named id) (hscore : ∀ e ∈ s.saved, e.2 < score) :
    Kept limit c ([Command.set id rep, .zadd id score].foldl Command.apply s)
      (Function.update v i .saved) := by
  obtain ⟨hlt, hnew⟩ := h.named i id hi
  have hc : c ≤ s.saved.length := h.within.trans (Nat.sub_le _ _)
  have hsub : ∀ e ∈ s.index, e ∈ s.saved := by
    intro e he
    rw [h.index] at he
    exact List.mem_of_mem_drop he
  rw [execute_save (fun hmem => hnew (List.map_subset _ hsub hmem))
    fun e he => hscore e (hsub e he)]
  constructor
  · -- the index is still what is left when the oldest are dropped
    rw [List.drop_append_of_le_length hc, h.index]
  · simp only [List.length_append]
    have := h.within
    omega
  · intro j ids hj
    obtain ⟨a, hstretch⟩ := h.listed j ids (of_update hj nofun).2
    exact ⟨a, hstretch.append _⟩
  · -- the call that has saved the report has still to trim
    refine .inr ⟨i, ?_⟩
    rw [Function.update_self]
    trivial
  · intro id'
    rw [List.map_append, List.mem_append, ← h.records id']
    by_cases hid : id' = id
    · subst hid
      simp
    · simp [hid, AList.lookup_insert_ne hid]
  · rw [List.map_append, List.nodup_append]
    refine ⟨h.nodup, by simp, ?_⟩
    rintro id' hid' _ hmem rfl
    obtain rfl : id' = id := by simpa using hmem
    exact hnew hid'
  · intro id' hid'
    rw [List.map_append, List.mem_append] at hid'
    rcases hid' with hid' | hid'
    · exact h.issued id' hid'
    · obtain rfl : id' = id := by simpa using hid'
      exact hlt
  · -- another call that has an id has another one
    intro j id' hj
    obtain ⟨hij, hj⟩ := of_update hj nofun
    refine ⟨(h.named j id' hj).1, ?_⟩
    rw [List.map_append, List.mem_append]
    rintro (hmem | hmem)
    · exact (h.named j id' hj).2 hmem
    · obtain rfl : id' = id := by simpa using hmem
      exact hij (h.distinct j i id' hj hi)
  · intro j j' id' hj hj'
    exact h.distinct j j' id' (of_update hj nofun).2 (of_update hj' nofun).2

/-- A stretch is deleted. -/
private theorem delete_stretch {a : ℕ} (h : Kept limit c s v)
    (hstretch : Stretch limit c s.saved a ids)
    (howed : c = s.saved.length - limit ∨ s.saved.length - limit ≤ a + ids.length ∨
      ∃ j ≠ i, (v j).Owes limit c s.saved) :
    Kept limit (max c (a + ids.length)) ((deletions ids).foldl Command.apply s)
      (Function.update v i .idle) := by
  obtain ⟨hac, hids, hlength⟩ := hstretch
  have hle : c ≤ max c (a + ids.length) := le_max_left _ _
  rw [execute_deletions]
  refine { h with index := ?_, within := ?_, listed := ?_, owed := ?_, records := ?_,
                  named := ?_, distinct := ?_ }
  · rw [h.index]
    exact drop_filter_stretch h.nodup hac hids
  · exact max_le h.within hlength
  · intro j ids' hj
    obtain ⟨a', hstretch'⟩ := h.listed j ids' (of_update hj nofun).2
    exact ⟨a', hstretch'.mono hle⟩
  · have hwithin := h.within
    rcases howed with hall | hall | ⟨j, hij, hj⟩
    · refine .inl ?_
      simp only
      omega
    · refine .inl ?_
      simp only
      omega
    · refine .inr ⟨j, ?_⟩
      rw [Function.update_of_ne hij]
      exact hj.mono hle
  · intro id
    have hmem : id ∈ (s.index.filter (·.1 ∉ ids)).map (·.1) ↔ id ∈ s.index.map (·.1) ∧ id ∉ ids := by
      simp only [List.mem_map, List.mem_filter, decide_eq_true_eq]
      constructor
      · rintro ⟨e, ⟨he, hnot⟩, rfl⟩
        exact ⟨⟨e, he, rfl⟩, hnot⟩
      · rintro ⟨⟨e, he, rfl⟩, hnot⟩
        exact ⟨e, ⟨he, hnot⟩, rfl⟩
    simp only [lookup_foldl_erase]
    rw [hmem, ← h.records id]
    by_cases hid : id ∈ ids <;> simp [hid]
  · exact fun j id hj => h.named j id (of_update hj nofun).2
  · exact fun j j' id hj hj' =>
      h.distinct j j' id (of_update hj nofun).2 (of_update hj' nofun).2

/-- A call deletes the reports that it has listed. -/
private theorem delete (h : Kept limit c s v) (hi : v i = .listed ids) :
    ∃ c', Kept limit c' ((deletions ids).foldl Command.apply s)
      (Function.update v i .idle) := by
  obtain ⟨a, hstretch⟩ := h.listed i ids hi
  rcases h.owed with hall | ⟨j, hj⟩
  · exact ⟨_, h.delete_stretch hstretch (.inl hall)⟩
  · by_cases hij : j = i
    · subst hij
      rw [hi] at hj
      obtain ⟨a', hstretch', hlength⟩ := hj
      exact ⟨_, h.delete_stretch hstretch' (.inr (.inl hlength))⟩
    · exact ⟨_, h.delete_stretch hstretch (.inr (.inr ⟨j, hij, hj⟩))⟩

/-- A call counts the reports. -/
private theorem count (h : Kept limit c s v) :
    Kept limit c s (Function.update v i
      (if s.index.length ≤ limit then .idle else .counted s.index.length)) := by
  have hwithin := h.within
  have hlength : s.index.length = s.saved.length - c := by rw [h.index, List.length_drop]
  by_cases hle : s.index.length ≤ limit
  · rw [if_pos hle]
    refine h.advance nofun nofun fun _ => .inl ?_
    omega
  · rw [if_neg hle]
    exact h.advance nofun nofun fun _ => .inr hlength.ge

/-- A call lists the oldest reports, by a count that stands. -/
private theorem list (h : Kept limit c s v) (hi : v i = .counted n) (hn : limit < n)
    (hstands : n ≤ s.index.length) :
    Kept limit c s (Function.update v i
      (if (s.index.take (n - limit)).map (·.1) = [] then .idle
        else .listed ((s.index.take (n - limit)).map (·.1)))) := by
  have hwithin := h.within
  have hlength : s.index.length = s.saved.length - c := by rw [h.index, List.length_drop]
  have hcount : ((s.index.take (n - limit)).map (·.1)).length = n - limit := by
    rw [List.length_map, List.length_take]
    omega
  have hne : (s.index.take (n - limit)).map (·.1) ≠ [] := by
    intro hnil
    rw [hnil, List.length_nil] at hcount
    omega
  have hstretch : Stretch limit c s.saved c ((s.index.take (n - limit)).map (·.1)) := by
    refine ⟨le_rfl, ?_, ?_⟩
    · rw [hcount, h.index]
    · rw [hcount]
      omega
  rw [if_neg hne]
  refine h.advance nofun (fun ids hids => ?_) fun howes => .inr ⟨c, hstretch, ?_⟩
  · rw [Stage.listed.injEq] at hids
    exact ⟨c, hids ▸ hstretch⟩
  · rw [hi] at howes
    have hall : s.saved.length - c ≤ n := howes
    rw [hcount]
    omega

/-- Whatever a call does next. -/
private theorem step {o : Op} {now : Instant} {r : o.Res} (h : Kept limit c s v)
    (hpermits : (v i).Permits limit o) (hs : environment o now s = some (r, s'))
    (hscores : scoresIncrease s o = true) (hstands : CountStands s (v i) o) :
    ∃ c', Kept limit c' s' (Function.update v i ((v i).observe limit o r)) := by
  cases hi : v i with
  | idle =>
    rw [hi] at hpermits
    obtain rfl : o = .uuid4 := hpermits
    obtain ⟨rfl, rfl⟩ : s.nextUuid = r ∧ _ = s' := by simpa [environment] using hs
    exact ⟨c, h.uuid4 hi⟩
  | named id =>
    rw [hi] at hpermits
    rcases hpermits with rfl | ⟨rep, score, rfl⟩
    · obtain ⟨-, rfl⟩ : now = r ∧ s = s' := by simpa [environment] using hs
      have hsame : (Stage.named id).observe limit .utcNow r = v i := hi.symm
      rw [hsame, Function.update_eq_self]
      exact ⟨c, h⟩
    · obtain rfl : _ = s' := (Prod.mk.inj (Option.some.inj hs)).2
      have hscore : ∀ e ∈ s.saved, e.2 < score := by
        simpa [scoresIncrease, Command.increases] using hscores
      exact ⟨c, h.save hi hscore⟩
  | saved =>
    rw [hi] at hpermits
    obtain rfl : o = .zcard := hpermits
    obtain ⟨rfl, rfl⟩ : s.index.length = r ∧ s = s' := by simpa [environment] using hs
    exact ⟨c, h.count⟩
  | counted total =>
    rw [hi] at hpermits hstands
    obtain ⟨hlt, rfl⟩ := hpermits
    have hstop : total - limit - 1 + 1 = total - limit := by omega
    obtain ⟨rfl, rfl⟩ : (s.index.take (total - limit)).map (·.1) = r ∧ s = s' := by
      simpa [environment, hstop] using hs
    exact ⟨c, h.list hi hlt hstands⟩
  | listed oldest =>
    rw [hi] at hpermits
    obtain rfl : o = .execute (deletions oldest) := hpermits
    obtain rfl : _ = s' := (Prod.mk.inj (Option.some.inj hs)).2
    exact h.delete hi

end Kept

/-! ### The newest reports -/

omit [DecidableEq ι] in
private theorem kept_reportPool (cfg : Config) (calls : ι → List (Uuid × ReportMeta)) :
    Kept limit 0 (reportPool cfg calls).world (reportPool cfg calls).view where
  index := rfl
  within := Nat.zero_le _
  listed := nofun
  owed := .inl (Nat.zero_sub _).symm
  records := fun _ => by simp [reportPool]
  nodup := List.nodup_nil
  issued := nofun
  named := nofun
  distinct := nofun

/-- **The newest reports are kept** when all calls have returned, if no trim has listed the oldest
by a count that a deletion since has made too high. -/
theorem newest_kept (cfg : Config) (calls : ι → List (Uuid × ReportMeta)) :
    KeepsNewest cfg calls fun s v i o _ => scoresIncrease s o = true ∧ CountStands s (v i) o := by
  intro pool hrun hreturned
  have hsaving : ∀ i, ((reportPool cfg calls).proc i).Satisfies (saving (retainLimit cfg)).machine
      (fun _ m => m = .idle) .idle := fun i => saveReports_saving (calls i)
  obtain ⟨c, hkept⟩ : ∃ c, Kept (retainLimit cfg) c pool.world pool.view := by
    refine hrun.invariant (fun s v => ∃ c, Kept (retainLimit cfg) c s v) hsaving
      ⟨0, kept_reportPool cfg calls⟩ ?_
    rintro s v i o now r s' ⟨c, hkept⟩ hpermits hs ⟨hscores, hstands⟩
    exact hkept.step hpermits hs hscores hstands
  -- nobody owes anything any more
  have hidle : ∀ i, pool.view i = .idle := by
    intro i
    have hi := hrun.onProtocol hsaving i
    rw [hreturned i] at hi
    exact satisfies_ret.mp hi
  have hall : c = pool.world.saved.length - retainLimit cfg := by
    rcases hkept.owed with hall | ⟨i, hi⟩
    · exact hall
    · rw [hidle i] at hi
      exact hi.elim
  refine ⟨?_, hkept.records⟩
  rw [hkept.index, hall, List.rtake]

/-- Two trims list the same report before either deletes it, and a report that is saved afterwards
stays. -/
theorem newest_kept_overlapping :
    ∃ pool, Reachable environment (saving 1)
      (fun s v i o _ => scoresIncrease s o = true ∧ CountStands s (v i) o)
      (reportPool { reportRetain := 1 } fun i : Bool =>
        List.replicate (if i then 1 else 2) (0, .check true .VERIFIED 0 0 "")) pool ∧
      pool.world.index = [(2, 3)] ∧ Retains 1 pool.world := by
  let cfg : Config := { reportRetain := 1 }
  let calls : Bool → List (Uuid × ReportMeta) := fun i =>
    List.replicate (if i then 1 else 2) (0, .check true .VERIFIED 0 0 "")
  -- both save, both count two reports and list the older one, both delete it; then one saves again
  let sched : List (Bool × Instant) :=
    [(true, 0), (true, 1), (true, 0), (false, 0), (false, 2), (false, 0), (true, 0), (false, 0),
      (true, 0), (false, 0), (true, 0), (false, 0), (false, 0), (false, 3), (false, 0), (false, 0),
      (false, 0), (false, 0)]
  have hexec : ((reportPool cfg calls).execWhen environment (saving (retainLimit cfg))
      (fun s v i o _ => scoresIncrease s o = true ∧ CountStands s (v i) o) sched).any (fun pool =>
        (pool.proc true).returned && (pool.proc false).returned &&
          decide (pool.world.index = [(2, 3)])) = true := by
    decide +kernel
  obtain ⟨pool, hrun, hend⟩ := Pool.exists_reachable_when hexec
  simp only [Bool.and_eq_true, decide_eq_true_eq] at hend
  obtain ⟨⟨htrue, hfalse⟩, hindex⟩ := hend
  have hreturned : ∀ i, pool.proc i = .ret () := by
    intro i
    cases i with
    | true => exact eq_ret_of_returned htrue
    | false => exact eq_ret_of_returned hfalse
  exact ⟨pool, hrun, hindex, newest_kept cfg calls pool hrun hreturned⟩

/-- Two trims that have counted before either deletes lose a report that was to be kept. -/
theorem concurrent_trims_lose_newest : ¬∀ (cfg : Config) (calls : Bool → List (Uuid × ReportMeta)),
    KeepsNewest cfg calls fun s _ _ o _ => scoresIncrease s o = true := by
  intro hkeeps
  let cfg : Config := { reportRetain := 1 }
  let calls : Bool → List (Uuid × ReportMeta) := fun _ => [(0, .check true .VERIFIED 0 0 "")]
  -- both save, both count two reports; one lists and deletes, and then the other does
  let sched : List (Bool × Instant) :=
    [(true, 0), (false, 0), (true, 1), (false, 2), (true, 0), (false, 0), (true, 0), (false, 0),
      (true, 0), (true, 0), (false, 0), (false, 0)]
  have hexec : ((reportPool cfg calls).execWhen environment (saving (retainLimit cfg))
      (fun s _ _ o _ => scoresIncrease s o = true) sched).any (fun pool =>
        (pool.proc true).returned && (pool.proc false).returned &&
          pool.world.index ≠ pool.world.saved.rtake 1) = true := by
    decide +kernel
  obtain ⟨pool, hrun, hlost⟩ := Pool.exists_reachable_when hexec
  simp only [Bool.and_eq_true, decide_eq_true_eq] at hlost
  obtain ⟨⟨htrue, hfalse⟩, hlost⟩ := hlost
  have hreturned : ∀ i, pool.proc i = .ret () := by
    intro i
    cases i with
    | true => exact eq_ret_of_returned htrue
    | false => exact eq_ret_of_returned hfalse
  exact hlost (hkeeps cfg calls pool hrun hreturned).index

/-! ### The reports of the world -/

/-- The index lists the reports of the world in order, and their records are there. -/
structure Shows (s : Store) (w : World) : Prop where
  index : s.index.map (·.1) = w.reports.map (·.id)
  records : ∀ rep ∈ w.reports, s.records.lookup rep.id = some rep

namespace Shows

variable {w w' : World} {a : Answer} {rep : Report} {score : Instant}

/-- Saving a new report with the greatest score adds it. -/
theorem addReport (h : Shows s w) (hnew : rep.id ∉ s.index.map (·.1))
    (hscore : ∀ e ∈ s.index, e.2 < score)
    (hw : RestoreEngine.environment (.addReport rep) a w = some ((), w')) :
    Shows ([Command.set rep.id rep, .zadd rep.id score].foldl Command.apply s) w' := by
  obtain rfl : { w with reports := w.reports ++ [rep] } = w' :=
    (Prod.mk.inj (Option.some.inj hw)).2
  rw [execute_save hnew hscore]
  constructor
  · simp only [List.map_append, List.map_cons, List.map_nil, h.index]
  · intro rep' hrep'
    rcases List.mem_append.mp hrep' with hold | hlast
    · have hne : rep'.id ≠ rep.id := by
        intro heq
        rw [h.index, ← heq] at hnew
        exact hnew (List.mem_map_of_mem hold)
      rw [AList.lookup_insert_ne hne]
      exact h.records rep' hold
    · obtain rfl : rep' = rep := List.mem_singleton.mp hlast
      exact AList.lookup_insert _

/-- Counting and listing the reports. -/
theorem reportIds (h : Shows s w) :
    s.index.length = (w.reports.map (·.id)).length ∧
      ∀ n, (s.index.take n).map (·.1) = (w.reports.map (·.id)).take n := by
  constructor
  · rw [← h.index, List.length_map]
  · intro n
    rw [← h.index, List.map_take]

/-- Deleting reports drops them. -/
theorem dropReports (h : Shows s w)
    (hw : RestoreEngine.environment (.dropReports ids) a w = some ((), w')) :
    Shows ((deletions ids).foldl Command.apply s) w' := by
  obtain rfl : { w with reports := w.reports.filter fun rep => rep.id ∉ ids } = w' :=
    (Prod.mk.inj (Option.some.inj hw)).2
  rw [execute_deletions]
  constructor
  · have hindex := congrArg (List.filter (· ∉ ids)) h.index
    rwa [List.filter_map, List.filter_map] at hindex
  · intro rep hrep
    obtain ⟨hold, hkept⟩ := List.mem_filter.mp hrep
    simp only [lookup_foldl_erase]
    rw [if_neg (of_decide_eq_true hkept)]
    exact h.records rep hold

end Shows

end RestoreEngine.Reports
