import Mathlib.Data.List.Infix
import RestoreEngine.Model.Text

/-!
# Split and joined texts

How `split` at a character, `join` and the substring test `contains` go together: the pieces of a
text do not hold the separator, joining them gives the text back, and pieces without separators
are what their joint text splits into. A substring without separators lies in one of the pieces.
-/

namespace RestoreEngine.Text

variable {s t sep needle p : String} {c : Char} {parts : List String}

theorem isSpace_of_isDigit (h : c.isDigit = true) : isSpace c = false := by
  have hrange : 48 ≤ c.toNat ∧ c.toNat ≤ 57 := by
    simpa [Char.isDigit, UInt32.le_iff_toNat_le] using h
  simp [isSpace]
  omega

/-! ### Substrings -/

theorem occurs_iff {needle l : List Char} : occurs needle l = true ↔ needle <:+: l := by
  induction l with
  | nil => rw [occurs, List.isEmpty_iff, List.infix_nil]
  | cons d l ih => rw [occurs, Bool.or_eq_true, List.isPrefixOf_iff_prefix, ih, List.infix_cons_iff]

/-- The substring test. -/
theorem contains_iff : contains s needle = true ↔ needle.toList <:+: s.toList := occurs_iff

theorem startsWith_iff : startsWith s t = true ↔ t.toList <+: s.toList :=
  List.isPrefixOf_iff_prefix

theorem contains_append_right (s : String) (h : contains t needle = true) :
    contains (s ++ t) needle = true := by
  rw [contains_iff, String.toList_append]
  exact (contains_iff.mp h).trans (List.suffix_append _ _).isInfix

/-- A list without separators that lies in a separated pair lies in one of the two. -/
theorem infix_separated {needle a b : List Char} (hc : c ∉ needle) :
    needle <:+: a ++ c :: b ↔ needle <:+: a ∨ needle <:+: b := by
  constructor
  · rintro ⟨x, y, hxy⟩
    rw [List.append_assoc] at hxy
    rcases List.append_eq_append_iff.mp hxy with ⟨z, hz, hrest⟩ | ⟨z, hz, hrest⟩
    · -- it begins in `a`, and ends there
      rcases List.append_eq_append_iff.mp hrest with ⟨u, hu, -⟩ | ⟨u, hu, hsep⟩
      · exact .inl ⟨x, u, by rw [hz, hu, List.append_assoc]⟩
      · cases u with
        | nil =>
          rw [List.append_nil] at hu
          exact .inl ⟨x, [], by rw [hz, hu, List.append_nil]⟩
        | cons d u =>
          obtain rfl := (List.cons.inj hsep).1
          rw [hu] at hc
          exact absurd (List.mem_append_right z List.mem_cons_self) hc
    · -- it begins behind `a`
      cases z with
      | nil =>
        rw [List.nil_append] at hrest
        cases needle with
        | nil => exact .inl (List.nil_infix)
        | cons d needle =>
          obtain rfl := (List.cons.inj hrest).1
          exact absurd List.mem_cons_self hc
      | cons d z =>
        rw [List.cons_append] at hrest
        exact .inr ⟨z, y, by rw [(List.cons.inj hrest).2, List.append_assoc]⟩
  · rintro (h | h)
    · exact h.trans (List.prefix_append _ _).isInfix
    · exact h.trans ((List.suffix_cons c b).trans (List.suffix_append _ _)).isInfix

/-! ### Splitting -/

theorem split_ne_nil (s : String) (c : Char) : split s c ≠ [] := by
  rw [split, ne_eq, List.map_eq_nil_iff]
  exact List.splitOn_ne_nil c s.toList

theorem split_of_not_mem (h : c ∉ s.toList) : split s c = [s] := by
  rw [split, List.splitOn_eq_singleton h, List.map_singleton, String.ofList_toList]

/-- Two texts with a separator between them. -/
theorem split_append (hsep : sep.toList = [c]) (s t : String) :
    split (s ++ sep ++ t) c = split s c ++ split t c := by
  rw [split, split, split, String.toList_append, String.toList_append, hsep, List.append_assoc,
    List.singleton_append, List.splitOn_append_cons_self, List.map_append]

private theorem not_mem_of_mem_splitOn {l piece : List Char} (h : piece ∈ l.splitOn c) :
    c ∉ piece := by
  induction l generalizing piece with
  | nil =>
    rw [List.splitOn_nil, List.mem_singleton] at h
    rw [h]
    exact List.not_mem_nil
  | cons d l ih =>
    rw [List.splitOn_cons_eq_if_modifyHead] at h
    split_ifs at h with hd
    · rcases List.mem_cons.mp h with rfl | h
      · exact List.not_mem_nil
      · exact ih h
    · cases hpieces : l.splitOn c with
      | nil => exact absurd hpieces (List.splitOn_ne_nil c l)
      | cons first others =>
        rw [hpieces, List.modifyHead_cons] at h
        rcases List.mem_cons.mp h with rfl | h
        · have hfirst : c ∉ first := ih (hpieces ▸ List.mem_cons_self)
          intro hmem
          rcases List.mem_cons.mp hmem with rfl | hmem
          · exact hd (beq_self_eq_true c)
          · exact hfirst hmem
        · exact ih (hpieces ▸ List.mem_cons_of_mem _ h)

/-- The pieces do not hold the separator. -/
theorem not_mem_of_mem_split (h : p ∈ split s c) : c ∉ p.toList := by
  obtain ⟨piece, hpiece, rfl⟩ := List.mem_map.mp h
  rw [String.toList_ofList]
  exact not_mem_of_mem_splitOn hpiece

/-- A substring without separators lies in one of the pieces. -/
theorem contains_iff_split (hc : c ∉ needle.toList) :
    contains s needle = true ↔ ∃ p ∈ split s c, contains p needle = true := by
  have hlist : ∀ l : List Char, needle.toList <:+: l ↔
      ∃ piece ∈ l.splitOn c, needle.toList <:+: piece := by
    intro l
    generalize hn : l.length = n
    induction n using Nat.strong_induction_on generalizing l with
    | _ n ih =>
      by_cases hmem : c ∈ l
      · obtain ⟨a, b, rfl⟩ := List.append_of_mem hmem
        rw [infix_separated hc, List.splitOn_append_cons_self]
        rw [List.length_append, List.length_cons] at hn
        rw [ih a.length (by omega) a rfl, ih b.length (by omega) b rfl]
        simp only [List.mem_append, or_and_right, exists_or]
      · rw [List.splitOn_eq_singleton hmem]
        simp only [List.mem_singleton, exists_eq_left]
  rw [contains_iff, hlist, split]
  constructor
  · rintro ⟨piece, hpiece, hin⟩
    refine ⟨String.ofList piece, List.mem_map.mpr ⟨piece, hpiece, rfl⟩, contains_iff.mpr ?_⟩
    rwa [String.toList_ofList]
  · rintro ⟨p, hp, hin⟩
    obtain ⟨piece, hpiece, rfl⟩ := List.mem_map.mp hp
    rw [contains_iff, String.toList_ofList] at hin
    exact ⟨piece, hpiece, hin⟩

/-! ### Joining -/

theorem join_cons (sep : String) (s : String) (h : parts ≠ []) :
    join sep (s :: parts) = s ++ sep ++ join sep parts := by
  cases parts with
  | nil => exact absurd rfl h
  | cons t rest => rfl

theorem join_append_singleton (sep : String) (h : parts ≠ []) (last : String) :
    join sep (parts ++ [last]) = join sep parts ++ sep ++ last := by
  induction parts with
  | nil => exact absurd rfl h
  | cons s rest ih =>
    cases rest with
    | nil => rfl
    | cons t rest =>
      rw [List.cons_append, join_cons sep s (List.append_ne_nil_of_left_ne_nil (by simp) _),
        ih (List.cons_ne_nil t rest), join_cons sep s (List.cons_ne_nil t rest)]
      simp only [String.append_assoc]

/-- **Pieces without separators** are what their joint text splits into. -/
theorem split_join (hsep : sep.toList = [c]) (hne : parts ≠ [])
    (hparts : ∀ p ∈ parts, c ∉ p.toList) : split (join sep parts) c = parts := by
  induction parts with
  | nil => exact absurd rfl hne
  | cons s rest ih =>
    have hs := split_of_not_mem (hparts s List.mem_cons_self)
    cases rest with
    | nil => exact hs
    | cons t rest =>
      rw [join_cons sep s (List.cons_ne_nil t rest), split_append hsep, hs,
        ih (List.cons_ne_nil t rest) fun p hp => hparts p (List.mem_cons_of_mem _ hp)]
      rfl

/-- **The pieces of a text** join to the text. -/
theorem join_split (hsep : sep.toList = [c]) (s : String) : join sep (split s c) = s := by
  have hlist : ∀ l : List Char, join sep ((l.splitOn c).map String.ofList) = String.ofList l := by
    intro l
    generalize hn : l.length = n
    induction n using Nat.strong_induction_on generalizing l with
    | _ n ih =>
      by_cases hmem : c ∈ l
      · obtain ⟨a, b, rfl, hfirst⟩ := List.eq_append_cons_of_mem hmem
        rw [List.length_append, List.length_cons] at hn
        have hrest := ih b.length (by omega) b rfl
        have hne : (b.splitOn c).map String.ofList ≠ [] := by
          rw [ne_eq, List.map_eq_nil_iff]
          exact List.splitOn_ne_nil c b
        rw [List.splitOn_append_cons_self_of_not_mem hfirst, List.map_cons, join_cons sep _ hne,
          hrest, ← String.toList_inj]
        simp only [String.toList_append, String.toList_ofList, hsep, List.append_assoc,
          List.singleton_append]
      · rw [List.splitOn_eq_singleton hmem]
        rfl
  rw [split, hlist, String.ofList_toList]

/-- A joint text begins as its first piece. -/
theorem head?_join (sep : String) (h : p ≠ "") (rest : List String) :
    (join sep (p :: rest)).toList.head? = p.toList.head? := by
  have hne : p.toList ≠ [] := fun hnil => h (String.toList_inj.mp hnil)
  cases rest with
  | nil => rfl
  | cons t rest =>
    rw [join_cons sep p (List.cons_ne_nil t rest), String.toList_append, String.toList_append,
      List.append_assoc, List.head?_append_of_ne_nil _ hne]

/-- It ends as its last piece. -/
theorem getLast?_join (sep : String) (parts : List String) (h : p ≠ "") :
    (join sep (parts ++ [p])).toList.getLast? = p.toList.getLast? := by
  have hne : p.toList ≠ [] := fun hnil => h (String.toList_inj.mp hnil)
  by_cases hparts : parts = []
  · rw [hparts]
    rfl
  · rw [join_append_singleton sep hparts, String.toList_append,
      List.getLast?_append_of_ne_nil _ hne]

/-- The characters of a joint text. -/
theorem mem_join {d : Char} (h : d ∈ (join sep parts).toList) :
    d ∈ sep.toList ∨ ∃ p ∈ parts, d ∈ p.toList := by
  induction parts with
  | nil => exact absurd h List.not_mem_nil
  | cons s rest ih =>
    cases rest with
    | nil => exact .inr ⟨s, List.mem_cons_self, h⟩
    | cons t rest =>
      rw [join_cons sep s (List.cons_ne_nil t rest), String.toList_append, String.toList_append,
        List.append_assoc, List.mem_append, List.mem_append] at h
      rcases h with h | h | h
      · exact .inr ⟨s, List.mem_cons_self, h⟩
      · exact .inl h
      · exact (ih h).imp_right fun ⟨p, hp, hd⟩ => ⟨p, List.mem_cons_of_mem _ hp, hd⟩

private theorem mem_join_of_mem {d : Char} (h : p ∈ parts) (hd : d ∈ p.toList) :
    d ∈ (join sep parts).toList := by
  induction parts with
  | nil => exact absurd h List.not_mem_nil
  | cons s rest ih =>
    cases rest with
    | nil =>
      obtain rfl := List.mem_singleton.mp h
      exact hd
    | cons t rest =>
      rw [join_cons sep s (List.cons_ne_nil t rest), String.toList_append, List.mem_append]
      rcases List.mem_cons.mp h with rfl | h
      · exact .inl (by rw [String.toList_append]; exact List.mem_append_left _ hd)
      · exact .inr (ih h)

/-- The characters of a piece are from the text. -/
theorem mem_of_mem_split {d : Char} (h : p ∈ split s c) (hd : d ∈ p.toList) : d ∈ s.toList := by
  have hjoin : join (String.singleton c) (split s c) = s := join_split (String.toList_singleton c) s
  rw [← hjoin]
  exact mem_join_of_mem h hd

end RestoreEngine.Text
