import Mathlib.Algebra.BigOperators.Group.List.Basic
import Mathlib.Algebra.GroupWithZero.Nat
import RestoreEngine.Texts.Split

/-!
# Lines without a word

The lines of a text that do not hold a word (`clearLines`), and how many characters they have
together (`weight`). Taking spaces off the ends of the text does not add to the weight, and takes
from it what it takes from such a line.
-/

namespace RestoreEngine.Text

variable {word l : List Char} {c : Char}

/-- The lines that do not hold the word. -/
def clearLines (word l : List Char) : List (List Char) :=
  (l.splitOn '\n').filter fun p => !occurs word p

/-- The number of characters in the lines that do not hold the word. -/
def weight (word l : List Char) : ℕ := ((clearLines word l).map List.length).sum

/-! ### Characters at the ends of a line -/

private theorem occurs_nil_of (h : occurs word [] = true) (p : List Char) :
    occurs word p = true := by
  rw [occurs_iff, List.infix_nil] at h
  rw [h, occurs_iff]
  exact List.nil_infix

/-- A character that is not in the word makes no difference in front of a line. -/
theorem occurs_cons (hc : c ∉ word) (p : List Char) : occurs word (c :: p) = occurs word p := by
  rw [Bool.eq_iff_iff, occurs_iff, ← List.nil_append (c :: p), infix_separated hc, ← occurs_iff,
    ← occurs_iff]
  exact ⟨fun h => h.elim (fun hnil => occurs_nil_of hnil p) id, .inr⟩

/-- Nor behind it. -/
theorem occurs_concat (hc : c ∉ word) (p : List Char) :
    occurs word (p ++ [c]) = occurs word p := by
  rw [Bool.eq_iff_iff, occurs_iff, infix_separated hc, ← occurs_iff, ← occurs_iff]
  exact ⟨fun h => h.elim id fun hnil => occurs_nil_of hnil p, .inl⟩

theorem clearLines_newline (word l : List Char) :
    clearLines word ('\n' :: l) = clearLines word [] ++ clearLines word l := by
  rw [clearLines, clearLines, clearLines, ← List.filter_append, List.splitOn_nil]
  exact congrArg _ (List.splitOn_append_cons_self [] l)

theorem clearLines_concat_newline (word l : List Char) :
    clearLines word (l ++ ['\n']) = clearLines word l ++ clearLines word [] := by
  rw [clearLines, clearLines, clearLines, ← List.filter_append, List.splitOn_append_cons_self]

/-- The first line and the others. -/
private theorem splitOn_eq_cons (l : List Char) :
    ∃ first others, l.splitOn '\n' = first :: others :=
  List.exists_cons_of_ne_nil (List.splitOn_ne_nil '\n' l)

private theorem splitOn_cons (hc : c ≠ '\n') {first : List Char} {others : List (List Char)}
    (h : l.splitOn '\n' = first :: others) :
    (c :: l).splitOn '\n' = (c :: first) :: others := by
  rw [List.splitOn_cons_eq_if_modifyHead, if_neg (by simpa using hc), h, List.modifyHead_cons]

/-- The last line and the others. -/
theorem splitOn_eq_concat (l : List Char) : ∃ others last, l.splitOn '\n' = others ++ [last] :=
  ⟨_, _, (List.dropLast_append_getLast (List.splitOn_ne_nil '\n' l)).symm⟩

/-- A character goes to the last line. -/
theorem splitOn_concat (hc : c ≠ '\n') {others : List (List Char)} {last : List Char}
    (h : l.splitOn '\n' = others ++ [last]) :
    (l ++ [c]).splitOn '\n' = others ++ [last ++ [c]] := by
  induction l generalizing others last with
  | nil =>
    rw [List.splitOn_nil] at h
    obtain ⟨rfl, hlast⟩ := List.append_inj' ((List.nil_append [[]]).trans h) rfl
    obtain rfl := List.singleton_inj.mp hlast
    exact List.splitOn_eq_singleton (by simpa using Ne.symm hc)
  | cons d l ih =>
    obtain ⟨others', last', h'⟩ := splitOn_eq_concat l
    by_cases hd : d = '\n'
    · subst hd
      have hsplit : ∀ m : List Char, ('\n' :: m).splitOn '\n' = [] :: m.splitOn '\n' :=
        fun m => List.splitOn_append_cons_self [] m
      rw [hsplit, h', ← List.cons_append] at h
      obtain ⟨rfl, hlast⟩ := List.append_inj' h rfl
      obtain rfl := List.singleton_inj.mp hlast
      rw [List.cons_append, hsplit, ih h', List.cons_append]
    · cases others' with
      | nil =>
        rw [splitOn_cons hd h', ← List.nil_append [d :: last']] at h
        obtain ⟨rfl, hlast⟩ := List.append_inj' h rfl
        obtain rfl := List.singleton_inj.mp hlast
        have hrest := ih h'
        rw [List.nil_append] at hrest
        exact splitOn_cons hd hrest
      | cons first others' =>
        have hrest := ih h'
        rw [List.cons_append] at h' hrest
        rw [splitOn_cons hd h', ← List.cons_append] at h
        obtain ⟨rfl, hlast⟩ := List.append_inj' h rfl
        obtain rfl := List.singleton_inj.mp hlast
        exact splitOn_cons hd hrest

/-! ### The weight -/

private theorem weight_nil (word : List Char) : weight word [] = 0 := by
  rw [weight, clearLines, List.splitOn_nil, List.filter_cons]
  split_ifs <;> rfl

theorem weight_concat_newline (word l : List Char) :
    weight word (l ++ ['\n']) = weight word l := by
  have hnil := weight_nil word
  rw [weight] at hnil ⊢
  rw [clearLines_concat_newline, List.map_append, List.sum_append, hnil, Nat.add_zero, weight]

/-- A character in front does not take from the weight. -/
theorem le_weight_cons (hc : c ∉ word) (l : List Char) : weight word l ≤ weight word (c :: l) := by
  by_cases hnewline : c = '\n'
  · subst hnewline
    rw [weight, weight, clearLines_newline, List.map_append, List.sum_append]
    exact Nat.le_add_left _ _
  · obtain ⟨first, others, h⟩ := splitOn_eq_cons l
    rw [weight, weight, clearLines, clearLines, splitOn_cons hnewline h, h, List.filter_cons,
      List.filter_cons, occurs_cons hc]
    split_ifs
    · simp only [List.map_cons, List.sum_cons, List.length_cons]
      omega
    · exact le_rfl

/-- **A character behind** adds to the weight if the last line does not hold the word. -/
theorem weight_concat (hc : c ∉ word) (hnewline : c ≠ '\n') {others : List (List Char)}
    {last : List Char} (h : l.splitOn '\n' = others ++ [last]) :
    weight word (l ++ [c]) = weight word l + if occurs word last then 0 else 1 := by
  rw [weight, weight, clearLines, clearLines, splitOn_concat hnewline h, h, List.filter_append,
    List.filter_append, List.filter_singleton, List.filter_singleton, occurs_concat hc]
  cases occurs word last with
  | true => rfl
  | false =>
    simp only [Bool.not_false, List.map_append, List.sum_append, List.map_cons, List.map_nil,
      List.sum_singleton, List.length_append, List.length_singleton, cond_true, Bool.false_eq_true,
      if_false]
    omega

theorem le_weight_concat (hc : c ∉ word) (l : List Char) :
    weight word l ≤ weight word (l ++ [c]) := by
  by_cases hnewline : c = '\n'
  · subst hnewline
    rw [weight_concat_newline]
  · obtain ⟨others, last, h⟩ := splitOn_eq_concat l
    rw [weight_concat hc hnewline h]
    exact Nat.le_add_right _ _

/-- What is taken off the front. -/
private theorem weight_dropWhile_le {p : Char → Bool} (hp : ∀ c, p c = true → c ∉ word)
    (l : List Char) : weight word (l.dropWhile p) ≤ weight word l := by
  induction l with
  | nil => exact le_rfl
  | cons c l ih =>
    rw [List.dropWhile_cons]
    split_ifs with hc
    · exact ih.trans (le_weight_cons (hp c hc) l)
    · exact le_rfl

/-- What is taken off the end. -/
private theorem weight_rdropWhile_le {p : Char → Bool} (hp : ∀ c, p c = true → c ∉ word)
    (l : List Char) : weight word (l.rdropWhile p) ≤ weight word l := by
  induction l using List.reverseRecOn with
  | nil => exact le_rfl
  | append_singleton l c ih =>
    by_cases hc : p c = true
    · rw [List.rdropWhile_concat_pos p l c hc]
      exact ih.trans (le_weight_concat (hp c hc) l)
    · rw [List.rdropWhile_concat_neg p l c hc]

/-! ### Stripped texts -/

/-- The text without the spaces at its ends. -/
def trimmed (l : List Char) : List Char := (l.dropWhile isSpace).rdropWhile isSpace

theorem toList_strip (s : String) : (strip s).toList = trimmed s.toList := by
  rw [strip, String.toList_ofList]
  rfl

theorem mem_of_mem_strip {d : Char} (h : d ∈ (strip s).toList) : d ∈ s.toList := by
  rw [toList_strip, trimmed] at h
  exact (List.dropWhile_suffix _).subset ((List.rdropWhile_prefix _ _).subset h)

theorem trimmed_concat (l : List Char) (hc : isSpace c = true) :
    trimmed (l ++ [c]) = trimmed l := by
  rw [trimmed, trimmed, List.dropWhile_append]
  split_ifs with hall
  · rw [List.isEmpty_iff.mp hall, List.dropWhile_cons_of_pos hc, List.dropWhile_nil]
  · exact List.rdropWhile_concat_pos _ _ _ hc

/-- **Stripping** does not add to the weight. -/
theorem weight_trimmed_le (hword : ∀ c, isSpace c = true → c ∉ word) (l : List Char) :
    weight word (trimmed l) ≤ weight word l :=
  (weight_rdropWhile_le hword _).trans (weight_dropWhile_le hword _)

/-- It takes from the weight if the last line ends in a space and does not hold the word. -/
theorem weight_trimmed_lt (hword : ∀ c, isSpace c = true → c ∉ word) (hc : isSpace c = true)
    {others : List (List Char)} {last : List Char}
    (h : l.splitOn '\n' = others ++ [last ++ [c]]) (hlast : occurs word (last ++ [c]) = false) :
    weight word (trimmed l) < weight word l := by
  induction l using List.reverseRecOn with
  | nil =>
    rw [List.splitOn_nil] at h
    have hlen := congrArg List.getLast? h
    rw [List.getLast?_singleton, List.getLast?_concat] at hlen
    exact absurd (Option.some.inj hlen).symm (by simp)
  | append_singleton l d =>
    obtain ⟨others', last', h'⟩ := splitOn_eq_concat l
    have hd : d ≠ '\n' := by
      rintro rfl
      rw [List.splitOn_append_cons_self, List.splitOn_nil] at h
      exact absurd (List.singleton_inj.mp (List.append_inj' h rfl).2).symm (by simp)
    rw [splitOn_concat hd h'] at h
    obtain ⟨rfl, hpair⟩ := List.append_inj' (List.singleton_inj.mp (List.append_inj' h rfl).2) rfl
    obtain rfl := List.singleton_inj.mp hpair
    rw [occurs_concat (hword d hc)] at hlast
    rw [trimmed_concat l hc, weight_concat (hword d hc) hd h', hlast]
    have hle := weight_trimmed_le hword l
    simp only [Bool.false_eq_true, if_false]
    omega

private theorem toList_join (sep : String) (parts : List String) :
    (join sep parts).toList = sep.toList.intercalate (parts.map String.toList) := by
  induction parts with
  | nil => rfl
  | cons s rest ih =>
    cases rest with
    | nil => rw [List.map_singleton, List.intercalate_singleton, join]
    | cons t rest =>
      rw [join_cons sep s (List.cons_ne_nil t rest), String.toList_append, String.toList_append, ih,
        List.map_cons, List.map_cons, List.map_cons, List.intercalate_cons_cons]

/-! ### Lines with a line behind them -/

/-- What `trimmed` leaves of lines that have another line behind them. -/
private structure TrimmedLines (lines rest : List (List Char)) : Prop where
  suffix : ∀ q ∈ rest, ∃ p ∈ lines, q <:+ p
  filled : (∀ p ∈ lines, p ≠ []) → ∀ q ∈ rest, q ≠ []
  start : ∀ q, rest.head? = some q → ∀ c, q.head? = some c → isSpace c = false

private theorem splitOn_dropWhile {mark : List Char} (hmark : '\n' ∉ mark)
    (hstart : mark.dropWhile isSpace = mark) (lines : List (List Char))
    (hlines : ∀ p ∈ lines, '\n' ∉ p) :
    ∃ rest, ((['\n'].intercalate (lines ++ [mark])).dropWhile isSpace).splitOn '\n' =
      rest ++ [mark] ∧ TrimmedLines lines rest := by
  induction lines with
  | nil =>
    refine ⟨[], ?_, List.forall_mem_nil _, fun _ => List.forall_mem_nil _, fun q hq => by cases hq⟩
    rw [List.nil_append, List.intercalate_singleton, hstart]
    exact List.splitOn_eq_singleton hmark
  | cons p lines ih =>
    obtain ⟨hp, hlines⟩ := List.forall_mem_cons.mp hlines
    have hne : lines ++ [mark] ≠ [] := List.append_ne_nil_of_right_ne_nil _ (List.cons_ne_nil _ _)
    have hjoin : ['\n'].intercalate (p :: lines ++ [mark]) =
        p ++ '\n' :: ['\n'].intercalate (lines ++ [mark]) := by
      rw [List.cons_append, List.intercalate_cons_of_ne_nil hne, List.append_assoc,
        List.singleton_append]
    rw [hjoin, List.dropWhile_append]
    split_ifs with hall
    · -- the line is dropped
      obtain ⟨rest, hrest, htrimmed⟩ := ih hlines
      rw [List.dropWhile_cons_of_pos rfl]
      refine ⟨rest, hrest, fun q hq => ?_, fun hfilled => htrimmed.filled fun p hp =>
        hfilled p (List.mem_cons_of_mem _ hp), htrimmed.start⟩
      obtain ⟨p', hp', hsuffix⟩ := htrimmed.suffix q hq
      exact ⟨p', List.mem_cons_of_mem _ hp', hsuffix⟩
    · -- it is the first that stays
      rw [List.isEmpty_iff] at hall
      have hsub := List.dropWhile_suffix isSpace (l := p)
      have hpieces : ∀ q ∈ lines ++ [mark], '\n' ∉ q :=
        List.forall_mem_append.mpr ⟨hlines, List.forall_mem_singleton.mpr hmark⟩
      rw [List.splitOn_append_cons_self_of_not_mem fun h => hp (hsub.subset h),
        List.splitOn_intercalate '\n' hpieces hne]
      refine ⟨p.dropWhile isSpace :: lines, rfl, fun q hq => ?_, fun hfilled q hq => ?_, ?_⟩
      · rcases List.mem_cons.mp hq with rfl | hq
        · exact ⟨p, List.mem_cons_self, hsub⟩
        · exact ⟨q, List.mem_cons_of_mem _ hq, List.suffix_rfl⟩
      · rcases List.mem_cons.mp hq with rfl | hq
        · exact hall
        · exact hfilled q (List.mem_cons_of_mem _ hq)
      · rintro q hq c hc
        obtain rfl := Option.some.inj hq
        have hnot := List.head?_dropWhile_not isSpace p
        rw [hc] at hnot
        exact hnot

private theorem suffix_intercalate (mark : List Char) (lines : List (List Char)) :
    mark <:+ ['\n'].intercalate (lines ++ [mark]) := by
  induction lines with
  | nil => rw [List.nil_append, List.intercalate_singleton]
  | cons p lines ih =>
    rw [List.cons_append, List.intercalate_cons_of_ne_nil
      (List.append_ne_nil_of_right_ne_nil _ (List.cons_ne_nil _ _))]
    exact ih.trans (List.suffix_append _ _)

private theorem splitOn_trimmed {mark : List Char} (hmark : '\n' ∉ mark)
    (hstart : mark.dropWhile isSpace = mark) (hfinish : mark.rdropWhile isSpace = mark)
    (hne : mark ≠ []) (lines : List (List Char)) (hlines : ∀ p ∈ lines, '\n' ∉ p) :
    ∃ rest, (trimmed (['\n'].intercalate (lines ++ [mark]))).splitOn '\n' = rest ++ [mark] ∧
      TrimmedLines lines rest := by
  obtain ⟨rest, hrest, htrimmed⟩ := splitOn_dropWhile hmark hstart lines hlines
  refine ⟨rest, ?_, htrimmed⟩
  -- the text ends as the line behind does
  have hsuffix : mark <:+ (['\n'].intercalate (lines ++ [mark])).dropWhile isSpace := by
    have hjoin : ∀ l : List Char, ['\n'].intercalate (l.splitOn '\n') = l :=
      fun _ => List.intercalate_splitOn '\n'
    rw [← hjoin (List.dropWhile _ _), hrest]
    exact suffix_intercalate mark rest
  obtain ⟨x, hx⟩ := hsuffix
  rw [← hrest, trimmed, ← hx]
  congr 1
  rw [List.rdropWhile_eq_self_iff] at hfinish ⊢
  intro h
  rw [List.getLast_append_of_ne_nil _ hne]
  exact hfinish hne

/-- **Lines with a line behind them**: stripping drops blank lines in front, and the spaces in
front of the next line. -/
theorem split_strip_join {mark : String} (hmark : '\n' ∉ mark.toList) (hself : strip mark = mark)
    (hne : mark ≠ "") {parts : List String} (hparts : ∀ p ∈ parts, '\n' ∉ p.toList) :
    ∃ rest, split (strip (join "\n" (parts ++ [mark]))) '\n' = rest ++ [mark] ∧
      (∀ q ∈ rest, ∃ p ∈ parts, q.toList <:+ p.toList) ∧
      ((∀ p ∈ parts, p ≠ "") → ∀ q ∈ rest, q ≠ "") ∧
      ∀ q, rest.head? = some q → ∀ c, q.toList.head? = some c → isSpace c = false := by
  have htrimmed : trimmed mark.toList = mark.toList := by rw [← toList_strip, hself]
  have hfinish : mark.toList.rdropWhile isSpace = mark.toList := by
    rw [← htrimmed, trimmed, List.rdropWhile_idempotent]
  have hstart : mark.toList.dropWhile isSpace = mark.toList := by
    rw [List.dropWhile_eq_self_iff]
    intro hlen
    rw [Bool.not_eq_true]
    exact isSpace_head hself (List.head?_eq_getElem?.trans (List.getElem?_eq_getElem hlen))
  obtain ⟨rest, hrest, hlines⟩ := splitOn_trimmed hmark hstart hfinish
    (fun h => hne (String.toList_inj.mp h)) (parts.map String.toList)
    (List.forall_mem_map.mpr hparts)
  have hjoin : ['\n'].intercalate (parts.map String.toList ++ [mark.toList]) =
      (join "\n" (parts ++ [mark])).toList := by
    rw [toList_join, List.map_append, List.map_singleton]
    rfl
  refine ⟨rest.map String.ofList, ?_, ?_, ?_, ?_⟩
  · rw [split, toList_strip, ← hjoin, hrest, List.map_append, List.map_singleton,
      String.ofList_toList]
  · intro q hq
    obtain ⟨l, hl, rfl⟩ := List.mem_map.mp hq
    obtain ⟨p, hp, hsuffix⟩ := hlines.suffix l hl
    obtain ⟨s, hs, rfl⟩ := List.mem_map.mp hp
    exact ⟨s, hs, by rwa [String.toList_ofList]⟩
  · intro hfilled q hq hblank
    obtain ⟨l, hl, rfl⟩ := List.mem_map.mp hq
    refine hlines.filled (List.forall_mem_map.mpr fun s hs h => hfilled s hs ?_) l hl ?_
    · exact String.toList_inj.mp h
    · rw [← String.toList_ofList (l := l), hblank]
      rfl
  · intro q hq c hc
    rw [List.head?_map] at hq
    obtain ⟨l, hl, rfl⟩ := Option.map_eq_some_iff.mp hq
    rw [String.toList_ofList] at hc
    exact hlines.start l hl c hc

/-- The last line without the spaces behind it. -/
private theorem splitOn_rdropWhile {others : List (List Char)} {last : List Char}
    (h : l.splitOn '\n' = others ++ [last]) (hne : last.rdropWhile isSpace ≠ []) :
    (l.rdropWhile isSpace).splitOn '\n' = others ++ [last.rdropWhile isSpace] := by
  induction l using List.reverseRecOn generalizing others last with
  | nil =>
    rw [List.splitOn_nil] at h
    have hlast := congrArg List.getLast? h
    rw [List.getLast?_singleton, List.getLast?_concat] at hlast
    rw [← Option.some.inj hlast] at hne
    exact absurd rfl hne
  | append_singleton l d ih =>
    obtain ⟨others', last', h'⟩ := splitOn_eq_concat l
    by_cases hd : d = '\n'
    · subst hd
      rw [List.splitOn_append_cons_self, List.splitOn_nil] at h
      rw [← List.singleton_inj.mp (List.append_inj' h rfl).2] at hne
      exact absurd rfl hne
    · rw [splitOn_concat hd h'] at h
      obtain ⟨rfl, hlast⟩ := List.append_inj' h rfl
      obtain rfl := List.singleton_inj.mp hlast
      by_cases hspace : isSpace d = true
      · rw [List.rdropWhile_concat_pos _ _ _ hspace] at hne ⊢
        rw [List.rdropWhile_concat_pos _ _ _ hspace]
        exact ih h' hne
      · rw [List.rdropWhile_concat_neg _ _ _ hspace, List.rdropWhile_concat_neg _ _ _ hspace]
        exact splitOn_concat hd h'

private theorem occurs_rdropWhile (hword : ∀ c, isSpace c = true → c ∉ word) (l : List Char) :
    occurs word (l.rdropWhile isSpace) = occurs word l := by
  induction l using List.reverseRecOn with
  | nil => rfl
  | append_singleton l c ih =>
    by_cases hc : isSpace c = true
    · rw [List.rdropWhile_concat_pos _ _ _ hc, ih, occurs_concat (hword c hc)]
    · rw [List.rdropWhile_concat_neg _ _ _ hc]

private theorem splitOn_toList {s : String} {parts : List String} (h : split s '\n' = parts) :
    s.toList.splitOn '\n' = parts.map String.toList := by
  rw [← h, split, List.map_map]
  exact ((List.map_congr_left fun l _ => String.toList_ofList).trans (List.map_id _)).symm

/-- A text whose last line is blank ends in a newline. -/
private theorem splitOn_concat_nil {parts : List (List Char)} (h : l.splitOn '\n' = parts ++ [[]])
    (hne : parts ≠ []) : ∃ m, l = m ++ ['\n'] ∧ m.splitOn '\n' = parts := by
  induction l using List.reverseRecOn with
  | nil =>
    rw [List.splitOn_nil] at h
    exact absurd (List.append_inj' ((List.nil_append [[]]).trans h) rfl).1.symm hne
  | append_singleton m d =>
    obtain ⟨others, last, hm⟩ := splitOn_eq_concat m
    by_cases hd : d = '\n'
    · subst hd
      rw [List.splitOn_append_cons_self, List.splitOn_nil] at h
      exact ⟨m, rfl, (List.append_inj' h rfl).1⟩
    · rw [splitOn_concat hd hm] at h
      exact absurd (List.singleton_inj.mp (List.append_inj' h rfl).2) (by simp)

/-- **Stripping a text** that does not begin with a space takes the spaces off the end of its last
line, if that is not blank. -/
theorem split_strip {s : String} {others : List String} {last : String}
    (h : split s '\n' = others ++ [last] ∨ split s '\n' = others ++ [last] ++ [""])
    (hlast : ∃ c ∈ last.toList, isSpace c = false)
    (hstart : ∀ c, s.toList.head? = some c → isSpace c = false) :
    ∃ last', split (strip s) '\n' = others ++ [last'] ∧
      (∀ needle : String, (∀ c, isSpace c = true → c ∉ needle.toList) →
        contains last' needle = contains last needle) ∧
      ((∀ c, last.toList.getLast? = some c → isSpace c = false) → last' = last) := by
  have hdrop : s.toList.dropWhile isSpace = s.toList := by
    rw [List.dropWhile_eq_self_iff]
    intro hlen
    rw [Bool.not_eq_true]
    exact hstart _ (List.head?_eq_getElem?.trans (List.getElem?_eq_getElem hlen))
  have hne : last.toList.rdropWhile isSpace ≠ [] := by
    obtain ⟨c, hc, hspace⟩ := hlast
    rw [ne_eq, List.rdropWhile_eq_nil_iff]
    intro hall
    exact absurd (hall c hc) ((Bool.not_eq_true _).mpr hspace)
  have hsplit : (s.toList.rdropWhile isSpace).splitOn '\n' =
      others.map String.toList ++ [last.toList.rdropWhile isSpace] := by
    rcases h with h | h
    · have hsplit := splitOn_toList h
      rw [List.map_append, List.map_singleton] at hsplit
      exact splitOn_rdropWhile hsplit hne
    · -- the newline at the end goes first
      have hsplit := splitOn_toList h
      rw [List.map_append, List.map_append, List.map_singleton, List.map_singleton] at hsplit
      obtain ⟨m, hm, hsplit⟩ := splitOn_concat_nil hsplit
        (List.append_ne_nil_of_right_ne_nil _ (List.cons_ne_nil _ _))
      rw [hm, List.rdropWhile_concat_pos _ _ _ rfl]
      exact splitOn_rdropWhile hsplit hne
  refine ⟨String.ofList (last.toList.rdropWhile isSpace), ?_, fun needle hneedle => ?_,
    fun hend => ?_⟩
  · rw [split, toList_strip, trimmed, hdrop, hsplit, List.map_append, List.map_map,
      List.map_singleton]
    congr 1
    exact (List.map_congr_left fun l _ => String.ofList_toList).trans (List.map_id _)
  · rw [contains, contains, String.toList_ofList, occurs_rdropWhile hneedle]
  · have hself : last.toList.rdropWhile isSpace = last.toList := by
      rw [List.rdropWhile_eq_self_iff]
      intro hnil
      rw [Bool.not_eq_true]
      exact hend _ (List.getLast?_eq_some_getLast hnil)
    rw [hself, String.ofList_toList]

/-- The number of characters in the lines that do not hold the word. -/
theorem weight_eq (s : String) : weight word s.toList =
    (((split s '\n').filter fun p => !contains p (String.ofList word)).map String.length).sum := by
  rw [weight, clearLines, split, List.filter_map, List.map_map]
  congr 1
  rw [List.map_congr_left (f := String.length ∘ String.ofList) (g := List.length)
    fun l _ => String.length_ofList]
  congr 2
  funext l
  rw [Function.comp_apply, contains, String.toList_ofList, String.toList_ofList]

/-- **A space that is stripped off** a line without the word. -/
theorem weight_strip_lt (hword : ∀ c, isSpace c = true → c ∉ word) {s : String}
    {others : List String} {last : String}
    (h : split s '\n' = others ++ [last] ∨ split s '\n' = others ++ [last] ++ [""])
    (hend : last.toList.getLast? = some c) (hc : isSpace c = true)
    (hclear : contains last (String.ofList word) = false) :
    weight word (strip s).toList < weight word s.toList := by
  obtain ⟨l, hl⟩ := List.getLast?_eq_some_iff.mp hend
  rw [contains, String.toList_ofList, hl] at hclear
  rw [toList_strip]
  rcases h with h | h
  · have hsplit := splitOn_toList h
    rw [List.map_append, List.map_singleton, hl] at hsplit
    exact weight_trimmed_lt hword hc hsplit hclear
  · -- the newline at the end counts nothing
    have hsplit := splitOn_toList h
    rw [List.map_append, List.map_append, List.map_singleton, List.map_singleton, hl] at hsplit
    obtain ⟨m, hm, hsplit⟩ := splitOn_concat_nil hsplit
      (List.append_ne_nil_of_right_ne_nil _ (List.cons_ne_nil _ _))
    rw [hm, trimmed_concat m rfl, weight_concat_newline]
    exact weight_trimmed_lt hword hc hsplit hclear

end RestoreEngine.Text
