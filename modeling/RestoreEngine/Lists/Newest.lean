import Mathlib.Data.List.Induction
import Mathlib.Data.List.Nodup
import Mathlib.Order.Lattice

/-!
# The newest of every key

A loop runs over a list and keeps, for every key, the element with the greatest time that it has
come across. An element replaces another only if it is strictly newer, so what is kept for a key
is the *first* of its newest elements (`IsFirstNewest`); `mem_newest` says so.
-/

namespace RestoreEngine.Lists

variable {α κ τ : Type} [LinearOrder τ] {key : α → κ} {time : α → τ} {a b r : α}
  {l best : List α}

/-- The first of the newest elements of its key. -/
def IsFirstNewest (key : α → κ) (time : α → τ) (l : List α) (a : α) : Prop :=
  ∃ before after, l = before ++ a :: after ∧
    (∀ b ∈ before, key b = key a → time b < time a) ∧ ∀ b ∈ after, key b = key a → time b ≤ time a

namespace IsFirstNewest

theorem mem (h : IsFirstNewest key time l a) : a ∈ l := by
  obtain ⟨before, after, rfl, -, -⟩ := h
  exact List.mem_append_right before List.mem_cons_self

/-- It is a newest element. -/
theorem le (h : IsFirstNewest key time l a) (hb : b ∈ l) (hkey : key b = key a) :
    time b ≤ time a := by
  obtain ⟨before, after, rfl, hbefore, hafter⟩ := h
  rcases List.mem_append.mp hb with hb | hb
  · exact le_of_lt (hbefore b hb hkey)
  · rcases List.mem_cons.mp hb with rfl | hb
    · exact le_rfl
    · exact hafter b hb hkey

/-- There is only one for a key. -/
theorem unique (ha : IsFirstNewest key time l a) (hb : IsFirstNewest key time l b)
    (hkey : key a = key b) : a = b := by
  have hle := ha.le hb.mem hkey.symm
  have hge := hb.le ha.mem hkey
  obtain ⟨before, after, hl, hbefore, -⟩ := ha
  obtain ⟨before', after', hl', hbefore', -⟩ := hb
  have hsplit := hl.symm.trans hl'
  -- whichever comes first, the other one would have to be newer
  rcases List.append_eq_append_iff.mp hsplit with ⟨c, hc, hrest⟩ | ⟨c, hc, hrest⟩
  · cases c with
    | nil => exact (List.cons.inj hrest).1
    | cons d c =>
      have hmem : a ∈ before' := by
        rw [hc, (List.cons.inj hrest).1]
        exact List.mem_append_right before List.mem_cons_self
      exact absurd (hbefore' a hmem hkey) (not_lt.mpr hle)
  · cases c with
    | nil => exact (List.cons.inj hrest).1.symm
    | cons d c =>
      have hmem : b ∈ before := by
        rw [hc, (List.cons.inj hrest).1]
        exact List.mem_append_right before' List.mem_cons_self
      exact absurd (hbefore b hmem hkey.symm) (not_lt.mpr hge)

end IsFirstNewest

/-- What a further element changes. -/
theorem isFirstNewest_concat :
    IsFirstNewest key time (l ++ [r]) a ↔
      (a = r ∧ ∀ b ∈ l, key b = key r → time b < time r) ∨
        (IsFirstNewest key time l a ∧ (key r = key a → time r ≤ time a)) := by
  constructor
  · rintro ⟨before, after, hl, hbefore, hafter⟩
    rcases List.eq_nil_or_concat after with rfl | ⟨after, last, rfl⟩
    · obtain ⟨rfl, hr⟩ := List.append_inj' hl rfl
      obtain rfl := List.singleton_inj.mp hr
      exact .inl ⟨rfl, hbefore⟩
    · rw [List.concat_eq_append, ← List.cons_append, ← List.append_assoc] at hl
      obtain ⟨rfl, hr⟩ := List.append_inj' hl rfl
      obtain rfl := List.singleton_inj.mp hr
      refine .inr ⟨⟨before, after, rfl, hbefore, fun b hb => hafter b ?_⟩, hafter r ?_⟩
      · rw [List.concat_eq_append]
        exact List.mem_append_left _ hb
      · rw [List.concat_eq_append]
        exact List.mem_append_right _ List.mem_cons_self
  · rintro (⟨rfl, hlt⟩ | ⟨⟨before, after, rfl, hbefore, hafter⟩, hr⟩)
    · exact ⟨l, [], rfl, hlt, fun b hb => (List.not_mem_nil hb).elim⟩
    · refine ⟨before, after ++ [r], by simp, hbefore, fun b hb => ?_⟩
      rcases List.mem_append.mp hb with hb | hb
      · exact hafter b hb
      · obtain rfl := List.mem_singleton.mp hb
        exact hr

/-- Every key of the list has one. -/
theorem exists_isFirstNewest (ha : a ∈ l) : ∃ b, IsFirstNewest key time l b ∧ key b = key a := by
  induction l using List.reverseRecOn generalizing a with
  | nil => exact (List.not_mem_nil ha).elim
  | append_singleton l r ih =>
    -- the last element comes first if it is newer than what there is of its key
    by_cases hr : ∀ b ∈ l, key b = key r → time b < time r
    · rcases List.mem_append.mp ha with ha | ha
      · obtain ⟨b, hb, hkey⟩ := ih ha
        by_cases hsame : key r = key b
        · exact ⟨r, isFirstNewest_concat.mpr (.inl ⟨rfl, hr⟩), hsame.trans hkey⟩
        · exact ⟨b, isFirstNewest_concat.mpr (.inr ⟨hb, fun h => (hsame h).elim⟩), hkey⟩
      · obtain rfl := List.mem_singleton.mp ha
        exact ⟨a, isFirstNewest_concat.mpr (.inl ⟨rfl, hr⟩), rfl⟩
    · push Not at hr
      obtain ⟨c, hc, hkey, hle⟩ := hr
      have hstays : ∀ b, IsFirstNewest key time l b → IsFirstNewest key time (l ++ [r]) b := by
        intro b hb
        refine isFirstNewest_concat.mpr (.inr ⟨hb, fun hsame => ?_⟩)
        exact le_trans hle (hb.le hc (hkey.trans hsame))
      rcases List.mem_append.mp ha with ha | ha
      · obtain ⟨b, hb, hsame⟩ := ih ha
        exact ⟨b, hstays b hb, hsame⟩
      · obtain rfl := List.mem_singleton.mp ha
        obtain ⟨b, hb, hsame⟩ := ih hc
        exact ⟨b, hstays b hb, hsame.trans hkey⟩

/-- **What is kept**: one element for each key. -/
private structure Keeps (key : α → κ) (time : α → τ) (l best : List α) : Prop where
  nodup : (best.map key).Nodup
  mem : ∀ a, a ∈ best ↔ IsFirstNewest key time l a

/-- A key that is not kept is not there. -/
private theorem Keeps.fresh (hkeeps : Keeps key time l best) (hr : key r ∉ best.map key) :
    ∀ b ∈ l, key b ≠ key r := by
  intro b hb hkey
  obtain ⟨c, hc, hsame⟩ : ∃ c, IsFirstNewest key time l c ∧ key c = key b :=
    exists_isFirstNewest hb
  exact hr (List.mem_map.mpr ⟨c, (hkeeps.mem c).mpr hc, hsame.trans hkey⟩)

private theorem Keeps.concat (hkeeps : Keeps key time l best) (hr : key r ∉ best.map key) :
    Keeps key time (l ++ [r]) (best ++ [r]) := by
  constructor
  · rw [List.map_append]
    refine hkeeps.nodup.append (List.nodup_singleton _) ?_
    intro k hk hsame
    obtain rfl := List.mem_singleton.mp hsame
    exact hr hk
  · intro a
    rw [isFirstNewest_concat, List.mem_append, List.mem_singleton, ← hkeeps.mem, or_comm]
    refine or_congr ⟨fun h => ⟨h, fun b hb hkey => (hkeeps.fresh hr b hb hkey).elim⟩,
      fun h => h.1⟩ ⟨fun h => ⟨h, fun hkey => ?_⟩, fun h => h.1⟩
    exact (hr (hkey ▸ List.mem_map_of_mem h)).elim

/-- What is kept of other keys. -/
private theorem Keeps.others {before after : List α} {c : α}
    (hkeeps : Keeps key time l (before ++ c :: after)) (ha : a ∈ before ∨ a ∈ after) :
    key a ≠ key c := by
  have hnodup := hkeeps.nodup
  rw [List.map_append, List.map_cons, List.nodup_append] at hnodup
  obtain ⟨-, hafter, hdisjoint⟩ := hnodup
  rcases ha with ha | ha
  · exact hdisjoint _ (List.mem_map_of_mem ha) _ List.mem_cons_self
  · intro hsame
    exact (List.nodup_cons.mp hafter).1 (hsame ▸ List.mem_map_of_mem ha)

private theorem Keeps.replaced {before after : List α} {c : α}
    (hkeeps : Keeps key time l (before ++ c :: after)) (hkey : key c = key r) :
    Keeps key time (l ++ [r]) (before ++ (if time c < time r then r else c) :: after) := by
  have hc : IsFirstNewest key time l c := (hkeeps.mem c).mp (by simp)
  split_ifs with hlt
  · constructor
    · have hnodup := hkeeps.nodup
      rw [List.map_append, List.map_cons, hkey] at hnodup
      rw [List.map_append, List.map_cons]
      exact hnodup
    · intro a
      have hnew : ∀ b ∈ l, key b = key r → time b < time r := by
        intro b hb hsame
        exact lt_of_le_of_lt (hc.le hb (hsame.trans hkey.symm)) hlt
      rw [isFirstNewest_concat, List.mem_append, List.mem_cons]
      constructor
      · rintro (ha | rfl | ha)
        · refine .inr ⟨(hkeeps.mem a).mp (List.mem_append_left _ ha), fun hsame => ?_⟩
          exact (hkeeps.others (.inl ha) (hsame.symm.trans hkey.symm)).elim
        · exact .inl ⟨rfl, hnew⟩
        · refine .inr ⟨(hkeeps.mem a).mp (by simp [ha]), fun hsame => ?_⟩
          exact (hkeeps.others (.inr ha) (hsame.symm.trans hkey.symm)).elim
      · rintro (⟨rfl, -⟩ | ⟨ha, hle⟩)
        · exact .inr (.inl rfl)
        · rcases List.mem_append.mp ((hkeeps.mem a).mpr ha) with hbefore | hrest
          · exact .inl hbefore
          · rcases List.mem_cons.mp hrest with rfl | hafter
            · exact absurd (hle hkey.symm) (not_le.mpr hlt)
            · exact .inr (.inr hafter)
  · constructor
    · exact hkeeps.nodup
    · intro a
      rw [isFirstNewest_concat, hkeeps.mem]
      constructor
      · intro ha
        refine .inr ⟨ha, fun hsame => ?_⟩
        obtain rfl := ha.unique hc (hsame.symm.trans hkey.symm)
        exact not_lt.mp hlt
      · rintro (⟨rfl, hnew⟩ | ⟨ha, -⟩)
        · exact absurd (hnew c hc.mem hkey) hlt
        · exact ha

/-! ### The loop -/

variable [DecidableEq κ]

/-- Enter an element into those that are kept. -/
def enter (key : α → κ) (time : α → τ) (r : α) : List α → List α
  | [] => [r]
  | a :: rest =>
    if key a = key r then (if time a < time r then r else a) :: rest
    else a :: enter key time r rest

/-- **The newest elements** of a list, one for each key. -/
def newest (key : α → κ) (time : α → τ) (l : List α) : List α :=
  l.foldl (fun best r => enter key time r best) []

/-- Where an element is entered. -/
private theorem enter_cases (time : α → τ) (r : α) (hnodup : (best.map key).Nodup) :
    (key r ∉ best.map key ∧ enter key time r best = best ++ [r]) ∨
      ∃ before a after, best = before ++ a :: after ∧ key a = key r ∧
        enter key time r best = before ++ (if time a < time r then r else a) :: after := by
  induction best with
  | nil => exact .inl ⟨List.not_mem_nil, rfl⟩
  | cons a rest ih =>
    rw [enter]
    split_ifs with hkey hlt
    · exact .inr ⟨[], a, rest, rfl, hkey, by rw [if_pos hlt]; rfl⟩
    · exact .inr ⟨[], a, rest, rfl, hkey, by rw [if_neg hlt]; rfl⟩
    · rcases ih (List.nodup_cons.mp hnodup).2 with
        ⟨hnot, henter⟩ | ⟨before, c, after, rfl, hc, henter⟩
      · refine .inl ⟨?_, by rw [henter]; rfl⟩
        rw [List.map_cons, List.mem_cons, not_or]
        exact ⟨Ne.symm hkey, hnot⟩
      · exact .inr ⟨a :: before, c, after, rfl, hc, by rw [henter]; rfl⟩

private theorem keeps_newest : Keeps key time l (newest key time l) := by
  induction l using List.reverseRecOn with
  | nil =>
    refine ⟨List.nodup_nil, fun a => iff_of_false List.not_mem_nil fun h => ?_⟩
    exact List.not_mem_nil h.mem
  | append_singleton l r ih =>
    rw [newest, List.foldl_concat]
    change Keeps key time (l ++ [r]) (enter key time r (newest key time l))
    rcases enter_cases time r ih.nodup with
      ⟨hfresh, henter⟩ | ⟨before, c, after, hbest, hkey, henter⟩
    · rw [henter]
      exact ih.concat hfresh
    · rw [henter]
      rw [hbest] at ih
      exact ih.replaced hkey

/-- **The newest elements** are the first newest of their keys. -/
theorem mem_newest : a ∈ newest key time l ↔ IsFirstNewest key time l a := keeps_newest.mem a

/-- No key is kept twice. -/
theorem nodup_newest : ((newest key time l).map key).Nodup := keeps_newest.nodup

end RestoreEngine.Lists
