import RestoreEngine.Model.Credentials
import RestoreEngine.Backups.Epoch
import RestoreEngine.Texts.Ascii

/-!
# Slugs

A server is saved under a slug of its id, with a number if the slug is used already. A slug is its
own slug (`slugify_of_sluggy`), and so is a slug with a number; so the id under which a server is
saved is the id that it had only if that was a slug that is still free (`uniqueId_eq_effectiveId`).
-/

namespace RestoreEngine

variable {abc : Letters} {s base fallback : String} {used : List String} {n index : ℕ}
  {server : ServerEntry} {sent : PBSServerModel} {place : ℕ}

/-! ### Texts that are slugs -/

/-- The text is a slug. -/
structure Sluggy (abc : Letters) (s : String) : Prop where
  ne_empty : s ≠ ""
  keeps : ∀ c ∈ s.toList, abc.keeps c = true
  lower : ∀ c ∈ s.toList, abc.lower [c] = [c]
  head : s.toList.head? ≠ some '-'
  last : s.toList.getLast? ≠ some '-'

private theorem isSpace_of_keeps {c : Char} (h : abc.keeps c = true) : Text.isSpace c = false := by
  rw [Letters.keeps, Bool.or_eq_true, Bool.or_eq_true] at h
  rcases h with (halnum | hdash) | hline
  · exact abc.isSpace_of_isAlnum c halnum
  · rw [beq_iff_eq.mp hdash]
    decide
  · rw [beq_iff_eq.mp hline]
    decide

/-- Nothing is stripped from a slug. -/
theorem Sluggy.strip (h : Sluggy abc s) : Text.strip s = s :=
  Text.strip_eq_self (fun c hc => isSpace_of_keeps (h.keeps c (List.mem_of_mem_head? hc)))
    fun c hc => isSpace_of_keeps (h.keeps c (List.mem_of_getLast? hc))

/-- `s.strip("-")` of a text that has no hyphen at its ends. -/
private theorem stripDashes_eq_self (hhead : s.toList.head? ≠ some '-')
    (hlast : s.toList.getLast? ≠ some '-') : stripDashes s = s := by
  have hdrop : ∀ l : List Char, l.head? ≠ some '-' → l.dropWhile (· == '-') = l := by
    intro l hl
    match l with
    | [] => rfl
    | c :: cs =>
      rw [List.head?_cons, ne_eq, Option.some.injEq] at hl
      rw [List.dropWhile_cons_of_neg (by simpa using hl)]
  rw [stripDashes, Text.rstripChar, Text.lstripChar, hdrop _ hhead, String.ofList_toList,
    hdrop _ (by rwa [List.head?_reverse]), List.reverse_reverse, String.ofList_toList]

/-- **A slug is its own slug.** -/
theorem slugify_of_sluggy (h : Sluggy abc s) (fallback : String) :
    slugifyServerId abc s fallback = s := by
  have hmap : s.toList.map (fun c => if abc.keeps c then c else '-') = s.toList := by
    have hself : ∀ c ∈ s.toList, (if abc.keeps c then c else '-') = c :=
      fun c hc => if_pos (h.keeps c hc)
    rw [List.map_congr_left hself, List.map_id'']
    exact fun _ => rfl
  rw [slugifyServerId]
  simp only [h.strip, abc.lower_eq_self s.toList h.lower, hmap, String.ofList_toList,
    stripDashes_eq_self h.head h.last, if_neg h.ne_empty]

/-- What is left has no hyphen at its ends. -/
private theorem stripDashes_ends (s : String) : (stripDashes s).toList.head? ≠ some '-' ∧
    (stripDashes s).toList.getLast? ≠ some '-' ∧ ∀ c ∈ (stripDashes s).toList, c ∈ s.toList := by
  have hdrop : ∀ l : List Char, (l.dropWhile (· == '-')).head? ≠ some '-' := by
    intro l hdash
    match hlist : l.dropWhile (· == '-') with
    | [] => rw [hlist] at hdash; cases hdash
    | c :: cs =>
      have hne : l.dropWhile (· == '-') ≠ [] := by
        rw [hlist]
        exact List.cons_ne_nil c cs
      have hnot := List.head_dropWhile_not (· == '-') hne
      simp only [hlist, List.head_cons, beq_eq_false_iff_ne] at hnot
      rw [hlist, List.head?_cons, Option.some.injEq] at hdash
      exact hnot hdash
  have htext : (stripDashes s).toList = (s.toList.dropWhile (· == '-')).rdropWhile (· == '-') := by
    rw [stripDashes, Text.rstripChar, Text.lstripChar, String.toList_ofList, String.toList_ofList]
    rfl
  obtain ⟨rest, hrest⟩ := List.rdropWhile_prefix (· == '-') (s.toList.dropWhile (· == '-'))
  rw [htext]
  refine ⟨fun hdash => ?_, fun hdash => ?_, fun c hc => ?_⟩
  · refine hdrop s.toList ?_
    rw [← hrest, List.head?_append, hdash]
    rfl
  · rw [List.rdropWhile, List.getLast?_reverse] at hdash
    exact hdrop _ hdash
  · have hmem : c ∈ s.toList.dropWhile (· == '-') := by
      rw [← hrest]
      exact List.mem_append_left _ hc
    exact (List.dropWhile_sublist _).subset hmem

/-- **What is made into a slug is one.** -/
theorem sluggy_slugify (value : String) (h : Sluggy abc fallback) :
    Sluggy abc (slugifyServerId abc value fallback) := by
  rw [slugifyServerId]
  generalize hclean : (abc.lower (Text.strip value).toList).map
    (fun c => if abc.keeps c then c else '-') = clean
  obtain ⟨hhead, hlast, hsub⟩ := stripDashes_ends (String.ofList clean)
  have hchars : ∀ c ∈ clean, abc.keeps c = true ∧ abc.lower [c] = [c] := by
    intro c hc
    rw [← hclean] at hc
    obtain ⟨d, hd, rfl⟩ := List.mem_map.mp hc
    by_cases hkeep : abc.keeps d = true
    · rw [if_pos hkeep]
      exact ⟨hkeep, abc.lower_lower _ d hd⟩
    · rw [if_neg hkeep]
      exact ⟨by simp [Letters.keeps], abc.lower_ascii '-' (by decide)⟩
  split_ifs with hempty
  · exact h
  · refine ⟨hempty, fun c hc => ?_, fun c hc => ?_, hhead, hlast⟩
    · exact (hchars c (by simpa using hsub c hc)).1
    · exact (hchars c (by simpa using hsub c hc)).2

/-! ### Ids of servers -/

private theorem toList_numberedId (base : String) (n : ℕ) :
    (numberedId base n).toList = base.toList ++ '-' :: Nat.toDigits 10 n := by
  have hstring : ∀ s : String, toString s = s := fun _ => rfl
  rw [← Nat.toList_repr, ← Nat.toString_eq_repr]
  simp [numberedId, hstring]

private theorem toList_automaticId (index : ℕ) :
    (automaticId index).toList = 'p' :: 'b' :: 's' :: Nat.toDigits 10 (index + 1) := by
  have hstring : ∀ s : String, toString s = s := fun _ => rfl
  rw [← Nat.toList_repr, ← Nat.toString_eq_repr]
  simp [automaticId, hstring]

/-- A character of ASCII that stays in a slug. -/
private def IsPlainChar (c : Char) : Prop :=
  c.toNat < 128 ∧ c.isAlphanum = true ∧ c.toLower = c

private theorem isPlainChar_of_isDigit {c : Char} (h : c.isDigit = true) : IsPlainChar c := by
  have hrange := Text.isDigit_iff.mp h
  exact ⟨by omega, Text.isAlphanum_iff.mpr (.inr (.inr hrange)),
    Text.toLower_of_not_upper (by omega)⟩

private theorem IsPlainChar.keeps {c : Char} (h : IsPlainChar c) : abc.keeps c = true := by
  rw [Letters.keeps, abc.isAlnum_ascii c h.1, h.2.1]
  rfl

private theorem IsPlainChar.lower {c : Char} (h : IsPlainChar c) : abc.lower [c] = [c] := by
  rw [abc.lower_ascii c h.1, h.2.2]

private theorem IsPlainChar.ne {c : Char} (h : IsPlainChar c) : c ≠ '-' := by
  rintro rfl
  exact absurd h.2.1 (by decide)

/-- Small letters and digits of ASCII are a slug. -/
theorem sluggy_of_ascii (abc : Letters) (hne : s ≠ "")
    (h : ∀ c ∈ s.toList, c.toNat < 128 ∧ c.isAlphanum = true ∧ c.toLower = c) : Sluggy abc s := by
  have hplain : ∀ c ∈ s.toList, IsPlainChar c := h
  refine ⟨hne, fun c hc => (hplain c hc).keeps, fun c hc => (hplain c hc).lower, ?_, ?_⟩
  · exact fun hdash => (hplain '-' (List.mem_of_mem_head? hdash)).ne rfl
  · exact fun hdash => (hplain '-' (List.mem_of_getLast? hdash)).ne rfl

private theorem isDigit_of_mem {c : Char} (h : c ∈ Nat.toDigits 10 n) : c.isDigit = true :=
  Nat.isDigit_of_mem_toDigits (by omega) (by omega) h

/-- A text that ends with a number does not end with a hyphen. -/
private theorem getLast_number (l : List Char) (n : ℕ) :
    (l ++ Nat.toDigits 10 n).getLast? ≠ some '-' := by
  rw [List.getLast?_append_of_ne_nil l Nat.toDigits_ne_nil]
  intro hdash
  exact absurd (isDigit_of_mem (List.mem_of_getLast? hdash)) (by decide)

theorem sluggy_automaticId (abc : Letters) (index : ℕ) : Sluggy abc (automaticId index) := by
  refine sluggy_of_ascii abc (fun hempty => ?_) fun c hc => ?_
  · have hlist := toList_automaticId index
    rw [hempty] at hlist
    cases hlist
  · have hletters : ∀ c ∈ ['p', 'b', 's'], c.toNat < 128 ∧ c.isAlphanum = true ∧ c.toLower = c := by
      decide
    have hcases : c ∈ ['p', 'b', 's'] ∨ c ∈ Nat.toDigits 10 (index + 1) := by
      rw [toList_automaticId] at hc
      exact List.mem_append.mp hc
    rcases hcases with hletter | hdigit
    · exact hletters c hletter
    · exact isPlainChar_of_isDigit (isDigit_of_mem hdigit)

theorem Sluggy.numbered (h : Sluggy abc base) (n : ℕ) : Sluggy abc (numberedId base n) := by
  have hchars : ∀ c ∈ (numberedId base n).toList, abc.keeps c = true ∧ abc.lower [c] = [c] := by
    intro c hc
    rw [toList_numberedId, List.mem_append, List.mem_cons] at hc
    rcases hc with hbase | rfl | hdigit
    · exact ⟨h.keeps c hbase, h.lower c hbase⟩
    · exact ⟨by simp [Letters.keeps], abc.lower_ascii '-' (by decide)⟩
    · have hplain := isPlainChar_of_isDigit (isDigit_of_mem hdigit)
      exact ⟨hplain.keeps, hplain.lower⟩
  refine ⟨?_, fun c hc => (hchars c hc).1, fun c hc => (hchars c hc).2, ?_, ?_⟩
  · intro hempty
    have hlist := toList_numberedId base n
    rw [hempty] at hlist
    exact absurd hlist.symm (List.append_ne_nil_of_right_ne_nil _ (List.cons_ne_nil _ _))
  · match hlist : base.toList with
    | [] => exact absurd (String.toList_inj.mp (hlist.trans rfl : base.toList = "".toList)) h.ne_empty
    | c :: cs =>
      have hhead := h.head
      rw [hlist] at hhead
      rw [toList_numberedId, hlist]
      exact hhead
  · rw [toList_numberedId, List.append_cons]
    exact getLast_number _ n

/-- An id with a number is longer. -/
private theorem numberedId_ne (base : String) (n : ℕ) : numberedId base n ≠ base := by
  intro hsame
  have hlength := congrArg List.length (congrArg String.toList hsame)
  rw [toList_numberedId, List.length_append, List.length_cons] at hlength
  omega

/-- There is no hyphen in the id of a server that has none. -/
private theorem numberedId_ne_automaticId (base : String) (n index : ℕ) :
    numberedId base n ≠ automaticId index := by
  intro hsame
  have hmem : '-' ∈ (automaticId index).toList := by
    rw [← hsame, toList_numberedId]
    exact List.mem_append_right _ List.mem_cons_self
  have hcases : '-' ∈ ['p', 'b', 's'] ∨ '-' ∈ Nat.toDigits 10 (index + 1) := by
    rw [toList_automaticId] at hmem
    exact List.mem_append.mp hmem
  rcases hcases with hletter | hdigit
  · exact absurd hletter (by decide)
  · exact absurd (isDigit_of_mem hdigit) (by decide)

theorem sluggy_serverSlug (abc : Letters) (sent : PBSServerModel) (index : ℕ) :
    Sluggy abc (serverSlug abc sent index) :=
  sluggy_slugify _ (sluggy_automaticId abc index)

/-- **A slug with a number is never the id that the server had**: that id would have been its own
slug. -/
private theorem numberedId_ne_effectiveId (abc : Letters) (hsent : sent.id = server.id.asText)
    (place index n : ℕ) :
    numberedId (serverSlug abc sent place) n ≠ server.effectiveId index := by
  intro hsame
  rw [ServerEntry.effectiveId] at hsame
  by_cases hid : server.id.orBlank = ""
  · rw [if_pos hid] at hsame
    simp only [(sluggy_automaticId abc index).strip, ite_self] at hsame
    exact numberedId_ne_automaticId _ _ _ hsame
  · rw [if_neg hid] at hsame
    by_cases hblank : Text.strip server.id.orBlank = ""
    · simp only [hblank, if_pos] at hsame
      exact numberedId_ne_automaticId _ _ _ hsame
    · simp only [if_neg hblank] at hsame
      rw [ConfigValue.asText_of_orBlank_ne hid] at hsent
      have hslug : serverSlug abc sent place =
          slugifyServerId abc (Text.strip server.id.orBlank) (automaticId place) := by
        rw [serverSlug, hsent, if_neg hid, slugifyServerId, slugifyServerId, Text.strip_strip]
      have hself := slugify_of_sluggy ((sluggy_serverSlug abc sent place).numbered n)
        (automaticId place)
      rw [hsame, ← hslug, ← hsame] at hself
      exact numberedId_ne _ _ hself.symm

private theorem nextId_numbered (base : String) (used : List String) (rounds n : ℕ) :
    ∃ m, nextId base used rounds n = numberedId base m := by
  induction rounds generalizing n with
  | zero => exact ⟨n, rfl⟩
  | succ rounds ih =>
    rw [nextId]
    split_ifs
    · exact ih (n + 1)
    · exact ⟨n, rfl⟩

private theorem numberedId_inj (base : String) {m n : ℕ} (h : numberedId base m = numberedId base n) :
    m = n := by
  have hlists := congrArg String.toList h
  rw [toList_numberedId, toList_numberedId, List.append_cancel_left_eq, List.cons.injEq] at hlists
  rw [← Nat.ofDigitChars_ten_toDigits (n := m), hlists.2, Nat.ofDigitChars_ten_toDigits]

/-- If the loop ends at an id that is used, it has come across used ones only. -/
private theorem mem_of_nextId_mem {rounds n : ℕ} (h : nextId base used rounds n ∈ used) {m : ℕ}
    (hle : n ≤ m) (hlt : m ≤ n + rounds) : numberedId base m ∈ used := by
  induction rounds generalizing n with
  | zero =>
    obtain rfl : n = m := by omega
    exact h
  | succ rounds ih =>
    rw [nextId] at h
    split_ifs at h with hused
    · by_cases hfirst : n = m
      · exact hfirst ▸ hused
      · exact ih h (by omega) (by omega)
    · exact absurd h hused

/-- **The id that a server is saved under is not used**: there are not as many used ids as rounds
of the loop. -/
theorem uniqueId_not_mem (base : String) (used : List String) : uniqueId base used ∉ used := by
  rw [uniqueId]
  split_ifs with hused
  · intro hmem
    have hsub : (List.range (used.length + 1)).map (fun k => numberedId base (2 + k)) ⊆ used := by
      intro id hid
      obtain ⟨k, hk, rfl⟩ := List.mem_map.mp hid
      have hlt := List.mem_range.mp hk
      exact mem_of_nextId_mem hmem (by omega) (by omega)
    have hnodup : ((List.range (used.length + 1)).map fun k => numberedId base (2 + k)).Nodup := by
      refine List.Nodup.map_on (fun j _ k _ hsame => ?_) List.nodup_range
      have heq := numberedId_inj base hsame
      omega
    have hlength := (List.subperm_of_subset hnodup hsub).length_le
    rw [List.length_map, List.length_range] at hlength
    omega
  · exact hused

theorem Sluggy.unique (h : Sluggy abc base) (used : List String) :
    Sluggy abc (uniqueId base used) := by
  rw [uniqueId]
  split_ifs
  · obtain ⟨m, hm⟩ := nextId_numbered base used used.length 2
    rw [hm]
    exact h.numbered m
  · exact h

/-- An id without a hyphen is used only if it is the slug, and free. -/
theorem uniqueId_eq_iff {id : String} (hplain : '-' ∉ id.toList) :
    uniqueId base used = id ↔ base = id ∧ id ∉ used := by
  constructor
  · intro hsame
    by_cases hused : base ∈ used
    · obtain ⟨m, hm⟩ := nextId_numbered base used used.length 2
      rw [uniqueId, if_pos hused, hm] at hsame
      refine absurd ?_ hplain
      rw [← hsame, toList_numberedId]
      exact List.mem_append_right _ List.mem_cons_self
    · rw [uniqueId, if_neg hused] at hsame
      exact ⟨hsame, hsame ▸ hused⟩
  · rintro ⟨rfl, hfree⟩
    rw [uniqueId, if_neg hfree]

/-- **A server keeps its id** if that is its slug, and the slug is free. -/
theorem uniqueId_eq_effectiveId (hsent : sent.id = server.id.asText) :
    uniqueId (serverSlug abc sent place) used = server.effectiveId index ↔
      serverSlug abc sent place = server.effectiveId index ∧
        server.effectiveId index ∉ used := by
  constructor
  · intro hsame
    by_cases hused : serverSlug abc sent place ∈ used
    · obtain ⟨m, hm⟩ := nextId_numbered (serverSlug abc sent place) used used.length 2
      rw [uniqueId, if_pos hused, hm] at hsame
      exact absurd hsame (numberedId_ne_effectiveId abc hsent place index m)
    · rw [uniqueId, if_neg hused] at hsame
      exact ⟨hsame, hsame ▸ hused⟩
  · rintro ⟨hslug, hfree⟩
    rw [uniqueId, hslug, if_neg hfree]

end RestoreEngine
