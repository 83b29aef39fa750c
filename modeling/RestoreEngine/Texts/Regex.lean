import Mathlib.Data.List.Infix
import RestoreEngine.Texts.Split

/-!
# Regular expressions with backtracking

Regular expressions as a backtracking engine matches them: alternatives are tried from the left,
repetitions are greedy, and the first way in which the rest matches counts. `Regex.run` lists all
ways in the order in which they are tried, so that the match is the first one. A repetition is one of
a class of characters. The classes of `\w` and `\b` are the ASCII ones, and so is the comparison
without regard to case.

Two kinds of facts settle what `finditer` finds in a text. That an expression matches at a cursor,
and how far, is `Reads`, which follows the expression. That it does not match is a fact about the
texts that it matches (`Lang`), for each of them is infix of the text: it is enough to know a word
that they begin with (`Starts`) or hold somewhere (`Needs`), with the characters as a map shows them.
-/

namespace RestoreEngine

/-- A cursor in a text: what is behind it, backwards, what is ahead, and the groups so far. -/
structure Cursor where
  past : List Char
  ahead : List Char
  groups : List (ℕ × List Char)

/-- Regular expressions. -/
inductive Regex where
  | empty
  | char (p : Char → Bool)
  | many (p : Char → Bool)
  | boundary
  | seq (r s : Regex)
  | alt (r s : Regex)
  | group (i : ℕ) (r : Regex)

namespace Regex

/-- `\w`. -/
def isWord (c : Char) : Bool := c.isAlphanum || c == '_'

/-- The ways to go over characters of a class, the longest first. -/
def runMany (p : Char → Bool) (groups : List (ℕ × List Char)) :
    List Char → List Char → List Cursor
  | past, [] => [⟨past, [], groups⟩]
  | past, x :: ahead =>
    if p x then runMany p groups (x :: past) ahead ++ [⟨past, x :: ahead, groups⟩]
    else [⟨past, x :: ahead, groups⟩]

/-- **The ways to match** at a cursor, in the order in which they are tried. -/
def run : Regex → Cursor → List Cursor
  | empty, c => [c]
  | char p, c =>
    match c.ahead with
    | [] => []
    | x :: ahead => if p x then [⟨x :: c.past, ahead, c.groups⟩] else []
  | many p, c => runMany p c.groups c.past c.ahead
  | boundary, c => if c.past.head?.any isWord ≠ c.ahead.head?.any isWord then [c] else []
  | seq r s, c => (run r c).flatMap (run s)
  | alt r s, c => run r c ++ run s c
  | group i r, c => (run r c).map fun c' =>
    { c' with groups := (i, c.ahead.take (c.ahead.length - c'.ahead.length)) :: c'.groups }

/-- The matches in a text, of an expression that does not match the empty one: where there is none,
the search goes on at the next character, and behind a match that is as long as `skip` says. -/
def finditerFrom (r : Regex) : List Char → ℕ → List Char → List (List (ℕ × List Char))
  | _, _, [] => []
  | past, skip + 1, x :: ahead => finditerFrom r (x :: past) skip ahead
  | past, 0, x :: ahead =>
    match (r.run ⟨past, x :: ahead, []⟩).head? with
    | none => finditerFrom r (x :: past) 0 ahead
    | some c => c.groups :: finditerFrom r (x :: past) (ahead.length - c.ahead.length) ahead

/-- `re.finditer`: the groups of the matches. -/
def finditer (r : Regex) (text : List Char) : List (List (ℕ × List Char)) :=
  r.finditerFrom [] 0 text

section equations

variable {r s : Regex} {c : Cursor} {p : Char → Bool} {past ahead : List Char} {x : Char}
  {g : List (ℕ × List Char)}

theorem runMany_cons : runMany p g past (x :: ahead) =
    if p x then runMany p g (x :: past) ahead ++ [⟨past, x :: ahead, g⟩]
    else [⟨past, x :: ahead, g⟩] := rfl

theorem run_char : (char p).run ⟨past, x :: ahead, g⟩ =
    if p x then [⟨x :: past, ahead, g⟩] else [] := rfl

theorem run_boundary : boundary.run c =
    if c.past.head?.any isWord ≠ c.ahead.head?.any isWord then [c] else [] := rfl

theorem run_seq : (r.seq s).run c = (r.run c).flatMap s.run := rfl

theorem run_alt : (r.alt s).run c = r.run c ++ s.run c := rfl

theorem run_group {i : ℕ} : (r.group i).run c = (r.run c).map fun c' =>
    { c' with groups := (i, c.ahead.take (c.ahead.length - c'.ahead.length)) :: c'.groups } := rfl

theorem finditerFrom_skip_cons {skip : ℕ} : r.finditerFrom past (skip + 1) (x :: ahead) =
    r.finditerFrom (x :: past) skip ahead := rfl

theorem finditerFrom_cons : r.finditerFrom past 0 (x :: ahead) =
    match (r.run ⟨past, x :: ahead, []⟩).head? with
    | none => r.finditerFrom (x :: past) 0 ahead
    | some c => c.groups :: r.finditerFrom (x :: past) (ahead.length - c.ahead.length) ahead := rfl

end equations

/-! ### Expressions -/

/-- One expression after the other. -/
def all : List Regex → Regex
  | [] => empty
  | [r] => r
  | r :: rs => seq r (all rs)

/-- One of the expressions. -/
def oneOf : List Regex → Regex
  | [] => char fun _ => false
  | [r] => r
  | r :: rs => alt r (oneOf rs)

/-- The expression, or nothing. -/
def opt (r : Regex) : Regex := alt r empty

/-- A character of the class, and any number more. -/
def plus (p : Char → Bool) : Regex := seq (char p) (many p)

/-- The characters, in upper or lower case. -/
def letters : List Char → Regex
  | [] => empty
  | x :: xs => seq (char fun c => c.toLower == x.toLower) (letters xs)

/-- A word, in upper or lower case. -/
def word (s : String) : Regex := letters s.toList

/-! ### Reading -/

/-- **The match** of the expression, with `past` behind and `ahead` ahead, leaves `ahead'` and has
the groups `g'`. -/
def Reads (r : Regex) (past ahead : List Char) (g : List (ℕ × List Char)) (ahead' : List Char)
    (g' : List (ℕ × List Char)) : Prop :=
  ∃ past', (r.run ⟨past, ahead, g⟩).head? = some ⟨past', ahead', g'⟩

section reads

variable {r s : Regex} {c : Cursor} {p : Char → Bool} {past u v v' v'' : List Char} {x : Char}
  {g g' g'' : List (ℕ × List Char)}

theorem reads_empty : empty.Reads past v g v g := ⟨past, rfl⟩

theorem reads_char (hx : p x = true) : (char p).Reads past (x :: v) g v g :=
  ⟨x :: past, by rw [run_char, if_pos hx]; rfl⟩

/-- A word begins or ends. -/
theorem reads_boundary (h : past.head?.any isWord ≠ v.head?.any isWord) :
    boundary.Reads past v g v g :=
  ⟨past, by rw [run_boundary, if_pos h]; rfl⟩

theorem reads_many (hu : ∀ x ∈ u, p x = true) (hv : ∀ x ∈ v.head?, p x = false) :
    (many p).Reads past (u ++ v) g v g := by
  refine ⟨u.reverse ++ past, ?_⟩
  change (runMany p g past (u ++ v)).head? = _
  induction u generalizing past with
  | nil =>
    cases v with
    | nil => rfl
    | cons x v =>
      have hx : p x = false := hv x rfl
      rw [List.nil_append, runMany_cons, hx]
      rfl
  | cons x u ih =>
    obtain ⟨hx, hu⟩ := List.forall_mem_cons.mp hu
    have hrest := @ih (x :: past) hu
    rw [List.cons_append, runMany_cons, if_pos hx, List.head?_append, hrest]
    simp

/-- Nothing is read of a class that the next character is not in. -/
theorem reads_many_nil (hv : ∀ x ∈ v.head?, p x = false) : (many p).Reads past v g v g :=
  reads_many (u := []) nofun hv

theorem Reads.seq (h : r.Reads past v g v' g') (h' : ∀ past, s.Reads past v' g' v'' g'') :
    (r.seq s).Reads past v g v'' g'' := by
  obtain ⟨past₁, h⟩ := h
  obtain ⟨past₂, h'⟩ := h' past₁
  obtain ⟨more, hmore⟩ := List.head?_eq_some_iff.mp h
  obtain ⟨more', hmore'⟩ := List.head?_eq_some_iff.mp h'
  refine ⟨past₂, ?_⟩
  rw [run_seq, hmore, List.flatMap_cons, hmore']
  rfl

theorem Reads.alt_left (h : r.Reads past v g v' g') : (r.alt s).Reads past v g v' g' := by
  obtain ⟨past₁, h⟩ := h
  refine ⟨past₁, ?_⟩
  rw [run_alt, List.head?_append, h]
  rfl

theorem Reads.alt_right (h : r.run ⟨past, v, g⟩ = []) (h' : s.Reads past v g v' g') :
    (r.alt s).Reads past v g v' g' := by
  obtain ⟨past₁, h'⟩ := h'
  refine ⟨past₁, ?_⟩
  rw [run_alt, h]
  exact h'

theorem Reads.opt (h : r.Reads past v g v' g') : r.opt.Reads past v g v' g' := h.alt_left

theorem reads_opt_nil (h : r.run ⟨past, v, g⟩ = []) : r.opt.Reads past v g v g :=
  .alt_right h reads_empty

theorem Reads.group (i : ℕ) (h : r.Reads past (u ++ v) g v g') :
    (r.group i).Reads past (u ++ v) g v ((i, u) :: g') := by
  obtain ⟨past₁, h⟩ := h
  have htake : (u ++ v).take ((u ++ v).length - v.length) = u := by
    rw [List.length_append, Nat.add_sub_cancel, List.take_left]
  refine ⟨past₁, ?_⟩
  rw [run_group, List.head?_map, h, Option.map_some]
  exact congrArg (fun u => some (⟨_, v, (i, u) :: g'⟩ : Cursor)) htake

theorem run_seq_nil (h : r.run c = []) : (r.seq s).run c = [] := by
  rw [run_seq, h, List.flatMap_nil]

theorem run_char_nil (hv : ∀ x ∈ v.head?, p x = false) : (char p).run ⟨past, v, g⟩ = [] := by
  cases v with
  | nil => rfl
  | cons x v => rw [run_char, hv x rfl, if_neg Bool.false_ne_true]

theorem reads_plus (hne : u ≠ []) (hu : ∀ x ∈ u, p x = true) (hv : ∀ x ∈ v.head?, p x = false) :
    (plus p).Reads past (u ++ v) g v g := by
  cases u with
  | nil => exact absurd rfl hne
  | cons x u =>
    obtain ⟨hx, hu⟩ := List.forall_mem_cons.mp hu
    exact (reads_char hx).seq fun _ => reads_many hu hv

theorem reads_letters {w : List Char} (hw : u.map Char.toLower = w.map Char.toLower) :
    (letters w).Reads past (u ++ v) g v g := by
  induction w generalizing u past with
  | nil =>
    obtain rfl := List.map_eq_nil_iff.mp hw
    exact reads_empty
  | cons x w ih =>
    cases u with
    | nil => cases hw
    | cons y u =>
      obtain ⟨hy, hu⟩ := List.cons.inj hw
      have hx : (y.toLower == x.toLower) = true := beq_iff_eq.mpr hy
      exact (reads_char (p := fun c => c.toLower == x.toLower) (x := y) hx).seq fun _ => ih hu

/-- A word is read as it is written. -/
theorem reads_word (w : String) : (word w).Reads past (w.toList ++ v) g v g := reads_letters rfl

/-- No word is read that begins with another character. -/
theorem run_letters_nil {y : Char} {w : List Char}
    (hv : ∀ x ∈ v.head?, x.toLower ≠ y.toLower) : (letters (y :: w)).run ⟨past, v, g⟩ = [] :=
  run_seq_nil (run_char_nil fun x hx => beq_eq_false_iff_ne.mpr (hv x hx))

end reads

/-! ### The texts that are matched -/

/-- The texts that an expression matches, word boundaries and groups apart. -/
def Lang : Regex → List Char → Prop
  | empty, u => u = []
  | char p, u => ∃ x, p x = true ∧ u = [x]
  | many p, u => ∀ x ∈ u, p x = true
  | boundary, u => u = []
  | seq r s, u => ∃ v w, r.Lang v ∧ s.Lang w ∧ u = v ++ w
  | alt r s, u => r.Lang u ∨ s.Lang u
  | group _ r, u => r.Lang u

private theorem runMany_lang {p : Char → Bool} {g : List (ℕ × List Char)} {c : Cursor}
    {past ahead : List Char} (h : c ∈ runMany p g past ahead) :
    ∃ u, (∀ x ∈ u, p x = true) ∧ ahead = u ++ c.ahead := by
  induction ahead generalizing past with
  | nil =>
    obtain rfl := List.mem_singleton.mp h
    exact ⟨[], nofun, rfl⟩
  | cons x ahead ih =>
    rw [runMany_cons] at h
    split_ifs at h with hx
    · rcases List.mem_append.mp h with h | h
      · obtain ⟨u, hu, rfl⟩ := ih h
        exact ⟨x :: u, List.forall_mem_cons.mpr ⟨hx, hu⟩, rfl⟩
      · obtain rfl := List.mem_singleton.mp h
        exact ⟨[], nofun, rfl⟩
    · obtain rfl := List.mem_singleton.mp h
      exact ⟨[], nofun, rfl⟩

/-- **What is matched** is a text of the expression, and lies ahead. -/
theorem run_lang {r : Regex} {c c' : Cursor} (h : c' ∈ r.run c) :
    ∃ u, r.Lang u ∧ c.ahead = u ++ c'.ahead := by
  induction r generalizing c c' with
  | empty =>
    obtain rfl := List.mem_singleton.mp h
    exact ⟨[], rfl, rfl⟩
  | char p =>
    obtain ⟨past, ahead, g⟩ := c
    cases ahead with
    | nil => cases h
    | cons x ahead =>
      rw [run_char] at h
      split_ifs at h with hx
      · obtain rfl := List.mem_singleton.mp h
        exact ⟨[x], ⟨x, hx, rfl⟩, rfl⟩
      · cases h
  | many p => exact runMany_lang h
  | boundary =>
    rw [run_boundary] at h
    split_ifs at h
    · obtain rfl := List.mem_singleton.mp h
      exact ⟨[], rfl, rfl⟩
    · cases h
  | seq r s ihr ihs =>
    obtain ⟨c₁, hr, hs⟩ := List.mem_flatMap.mp h
    obtain ⟨u, hu, hahead⟩ := ihr hr
    obtain ⟨v, hv, hahead'⟩ := ihs hs
    exact ⟨u ++ v, ⟨u, v, hu, hv, rfl⟩, by rw [hahead, hahead', List.append_assoc]⟩
  | alt r s ihr ihs =>
    rcases List.mem_append.mp h with h | h
    · obtain ⟨u, hu, hahead⟩ := ihr h
      exact ⟨u, .inl hu, hahead⟩
    · obtain ⟨u, hu, hahead⟩ := ihs h
      exact ⟨u, .inr hu, hahead⟩
  | group i r ih =>
    obtain ⟨c₁, hrun, rfl⟩ := List.mem_map.mp h
    obtain ⟨u, hu, hahead⟩ := ih hrun
    exact ⟨u, hu, hahead⟩

/-- No match, where no text of the expression lies ahead. -/
theorem run_eq_nil {r : Regex} {c : Cursor} (h : ∀ u, r.Lang u → ¬ u <+: c.ahead) :
    r.run c = [] := by
  refine List.eq_nil_iff_forall_not_mem.mpr fun c' hc' => ?_
  obtain ⟨u, hu, hahead⟩ := run_lang hc'
  exact h u hu ⟨c'.ahead, hahead.symm⟩

theorem lang_letters {w u : List Char} (h : (letters w).Lang u) :
    u.map Char.toLower = w.map Char.toLower := by
  induction w generalizing u with
  | nil => rw [show u = [] from h]
  | cons x w ih =>
    obtain ⟨_, v, ⟨y, hy, rfl⟩, hv, rfl⟩ := h
    rw [List.singleton_append, List.map_cons, List.map_cons, ih hv, beq_iff_eq.mp hy]

theorem lang_plus {p : Char → Bool} {u : List Char} (h : (plus p).Lang u) :
    u ≠ [] ∧ ∀ x ∈ u, p x = true := by
  obtain ⟨_, v, ⟨x, hx, rfl⟩, hv, rfl⟩ := h
  exact ⟨nofun, List.forall_mem_cons.mpr ⟨hx, hv⟩⟩

/-! ### What the texts hold -/

section holds

variable {f : Char → Char} {w : List Char} {ws ws' : List (List Char)} {r s : Regex}

/-- Every text of the expression holds one of the words, as `f` shows them. -/
def Needs (f : Char → Char) (ws : List (List Char)) (r : Regex) : Prop :=
  ∀ u, r.Lang u → ∃ w ∈ ws, w <:+: u.map f

/-- Every text of the expression begins with one of the words, as `f` shows them. -/
def Starts (f : Char → Char) (ws : List (List Char)) (r : Regex) : Prop :=
  ∀ u, r.Lang u → ∃ w ∈ ws, w <+: u.map f

theorem Starts.needs (h : r.Starts f ws) : r.Needs f ws := fun u hu => by
  obtain ⟨w, hw, hpre⟩ := h u hu
  exact ⟨w, hw, hpre.isInfix⟩

theorem Needs.seq_left (h : r.Needs f ws) : (r.seq s).Needs f ws := by
  rintro _ ⟨u, v, hu, -, rfl⟩
  obtain ⟨w, hw, hin⟩ := h u hu
  rw [List.map_append]
  exact ⟨w, hw, hin.trans (List.prefix_append _ _).isInfix⟩

theorem Needs.seq_right (h : s.Needs f ws) : (r.seq s).Needs f ws := by
  rintro _ ⟨u, v, -, hv, rfl⟩
  obtain ⟨w, hw, hin⟩ := h v hv
  rw [List.map_append]
  exact ⟨w, hw, hin.trans (List.suffix_append _ _).isInfix⟩

theorem Needs.mono (h : r.Needs f ws) (hws : ∀ w ∈ ws, ∃ w' ∈ ws', w' <:+: w) :
    r.Needs f ws' := by
  intro u hu
  obtain ⟨w, hw, hin⟩ := h u hu
  obtain ⟨w', hw', hin'⟩ := hws w hw
  exact ⟨w', hw', hin'.trans hin⟩

theorem Starts.mono (h : r.Starts f ws) (hws : ws ⊆ ws') : r.Starts f ws' := by
  intro u hu
  obtain ⟨w, hw, hpre⟩ := h u hu
  exact ⟨w, hws hw, hpre⟩

theorem Starts.seq_left (h : r.Starts f ws) : (r.seq s).Starts f ws := by
  rintro _ ⟨u, v, hu, -, rfl⟩
  obtain ⟨w, hw, hpre⟩ := h u hu
  rw [List.map_append]
  exact ⟨w, hw, hpre.trans (List.prefix_append _ _)⟩

theorem Starts.boundary_seq (h : s.Starts f ws) : (boundary.seq s).Starts f ws := by
  rintro _ ⟨_, _, rfl, hv, rfl⟩
  exact h _ hv

/-- Every character of a text of the expression is as `q` asks. -/
def Within (q : Char → Prop) (r : Regex) : Prop := ∀ u, r.Lang u → ∀ x ∈ u, q x

section within

variable {q : Char → Prop} {p : Char → Bool}

theorem within_char (h : ∀ x, p x = true → q x) : (char p).Within q := by
  rintro _ ⟨x, hx, rfl⟩ y hy
  obtain rfl := List.mem_singleton.mp hy
  exact h y hx

theorem within_many (h : ∀ x, p x = true → q x) : (many p).Within q :=
  fun _ hu x hx => h x (hu x hx)

theorem within_boundary : boundary.Within q := by
  rintro _ rfl
  exact nofun

theorem Within.seq (h : r.Within q) (h' : s.Within q) : (r.seq s).Within q := by
  rintro _ ⟨u, v, hu, hv, rfl⟩
  exact List.forall_mem_append.mpr ⟨h u hu, h' v hv⟩

theorem Within.opt (h : r.Within q) : r.opt.Within q := by
  rintro u (hu | rfl)
  · exact h u hu
  · exact nofun

theorem within_plus (h : ∀ x, p x = true → q x) : (plus p).Within q :=
  (within_char h).seq (within_many h)

theorem within_word (t : String) (h : ∀ y ∈ t.toList, ∀ x : Char, x.toLower = y.toLower → q x) :
    (word t).Within q := by
  intro u hu x hx
  have hmem : x.toLower ∈ t.toList.map Char.toLower :=
    lang_letters hu ▸ List.mem_map_of_mem hx
  obtain ⟨y, hy, heq⟩ := List.mem_map.mp hmem
  exact h y hy x heq.symm

end within

/-- Every text of the expression is one of the words, as `f` shows them. -/
def Shows (f : Char → Char) (ws : List (List Char)) (r : Regex) : Prop :=
  ∀ u, r.Lang u → u.map f ∈ ws

theorem Shows.starts (h : r.Shows f ws) : r.Starts f ws := fun u hu =>
  ⟨_, h u hu, List.prefix_rfl⟩

/-- A word shows itself, if `f` does not tell upper from lower case. -/
theorem shows_word (hf : ∀ x, f x.toLower = f x) (t : String) :
    (word t).Shows f [t.toList.map f] := by
  intro u hu
  have hlower : f ∘ Char.toLower = f := funext hf
  have hmap := congrArg (List.map f) (lang_letters hu)
  rw [List.map_map, List.map_map, hlower] at hmap
  exact List.mem_singleton.mpr hmap

theorem Shows.alt (h : r.Shows f ws) (h' : s.Shows f ws') : (r.alt s).Shows f (ws ++ ws') := by
  rintro u (hu | hu)
  · exact List.mem_append_left _ (h u hu)
  · exact List.mem_append_right _ (h' u hu)

theorem Shows.opt (h : r.Shows f ws) : r.opt.Shows f (ws ++ [[]]) := by
  refine h.alt ?_
  rintro _ rfl
  exact List.mem_singleton_self _

theorem Shows.seq (h : r.Shows f ws) (h' : s.Shows f ws') :
    (r.seq s).Shows f (ws.flatMap fun w => ws'.map (w ++ ·)) := by
  rintro _ ⟨u, v, hu, hv, rfl⟩
  rw [List.map_append]
  exact List.mem_flatMap.mpr ⟨_, h u hu, List.mem_map.mpr ⟨_, h' v hv, rfl⟩⟩

/-- One of the words, and then a character of a class that `f` shows as `x`. -/
theorem Shows.starts_plus (h : r.Shows f ws) {p : Char → Bool} {x : Char}
    (hp : ∀ c, p c = true → f c = x) :
    (r.seq ((plus p).seq s)).Starts f (ws.map (· ++ [x])) := by
  rintro _ ⟨u, _, hu, ⟨_, v, ⟨_, _, ⟨c, hc, rfl⟩, hmany, rfl⟩, hv, rfl⟩, rfl⟩
  refine ⟨_, List.mem_map.mpr ⟨_, h u hu, rfl⟩, ?_⟩
  simp [hp c hc]

end holds

/-! ### Searching -/

section search

variable {f : Char → Char} {ws : List (List Char)} {r : Regex} {past pre u post text : List Char}
  {g : List (ℕ × List Char)}

private theorem finditerFrom_skip (v : List Char) :
    r.finditerFrom past u.length (u ++ v) = r.finditerFrom (u.reverse ++ past) 0 v := by
  induction u generalizing past with
  | nil => rfl
  | cons x u ih =>
    rw [List.cons_append, List.length_cons, finditerFrom_skip_cons, ih, List.reverse_cons,
      List.append_assoc]
    rfl

private theorem finditerFrom_eq_nil (h : ∀ u, r.Lang u → ¬ u <:+: text) :
    r.finditerFrom past 0 text = [] := by
  induction text generalizing past with
  | nil => rfl
  | cons x text ih =>
    have hnone : r.run ⟨past, x :: text, []⟩ = [] :=
      run_eq_nil fun u hu hpre => h u hu hpre.isInfix
    rw [finditerFrom_cons, hnone]
    exact ih fun u hu hin => h u hu (hin.trans (List.suffix_cons _ _).isInfix)

/-- **No match**: no text of the expression lies in the text. -/
theorem finditer_eq_nil (h : ∀ u, r.Lang u → ¬ u <:+: text) : r.finditer text = [] :=
  finditerFrom_eq_nil h

/-- Texts of the expression do not lie in a text without the words that it needs. -/
theorem Needs.not_infix (hneeds : r.Needs f ws) (h : ∀ w ∈ ws, ¬ w <:+: text.map f) :
    ∀ u, r.Lang u → ¬ u <:+: text := by
  intro u hu hin
  obtain ⟨w, hw, hin'⟩ := hneeds u hu
  exact h w hw (hin'.trans (hin.map f))

/-- A match at the beginning is found. -/
theorem finditer_ne_nil (hne : text ≠ []) (h : r.Reads [] text [] post g) :
    r.finditer text ≠ [] := by
  obtain ⟨past, h⟩ := h
  cases text with
  | nil => exact absurd rfl hne
  | cons x text =>
    rw [finditer, finditerFrom_cons, h]
    exact List.cons_ne_nil _ _

/-- The words that the expression begins with do not begin in `pre`. -/
private theorem finditerFrom_append (hstarts : r.Starts f ws)
    (hpre : ∀ w ∈ ws, ¬ w <:+: (pre ++ text.take (w.length - 1)).map f) :
    r.finditerFrom past 0 (pre ++ text) = r.finditerFrom (pre.reverse ++ past) 0 text := by
  induction pre generalizing past with
  | nil => rfl
  | cons x pre ih =>
    have hnone : r.run ⟨past, x :: (pre ++ text), []⟩ = [] := run_eq_nil fun v hv hv' => by
      obtain ⟨w, hw, hin⟩ := hstarts v hv
      refine hpre w hw ?_
      have hahead : w <+: (x :: (pre ++ text)).map f := hin.trans (hv'.map f)
      have htake := hahead.take w.length
      rw [List.take_length, ← List.map_take] at htake
      refine (htake.trans (List.IsPrefix.map f ?_)).isInfix
      cases hlen : w.length with
      | zero => exact List.nil_prefix
      | succ n =>
        rw [List.take_succ_cons, List.take_append, Nat.add_sub_cancel, List.cons_append]
        refine List.prefix_cons_inj x |>.mpr ?_
        by_cases hn : n ≤ pre.length
        · rw [Nat.sub_eq_zero_of_le hn, List.take_zero, List.append_nil]
          exact (List.take_prefix _ _).trans (List.prefix_append _ _)
        · rw [List.take_of_length_le (by omega)]
          exact (List.prefix_append_right_inj pre).mpr
            (List.take_isPrefix_take.mpr (.inl (Nat.sub_le _ _)))
    rw [List.cons_append, finditerFrom_cons, hnone, List.reverse_cons, List.append_assoc]
    refine ih fun w hw hin => hpre w hw (hin.trans ?_)
    rw [List.cons_append]
    exact (List.suffix_cons _ _).isInfix

/-- **One match**: the words that the expression begins with do not begin before `u`, and what
follows holds none of them. -/
theorem finditer_once (hstarts : r.Starts f ws) (hne : u ≠ [])
    (hpre : ∀ w ∈ ws, ¬ w <:+: (pre ++ (u ++ post).take (w.length - 1)).map f)
    (hreads : r.Reads pre.reverse (u ++ post) [] post g)
    (hpost : ∀ w ∈ ws, ¬ w <:+: post.map f) : r.finditer (pre ++ (u ++ post)) = [g] := by
  rw [finditer, finditerFrom_append hstarts hpre, List.append_nil]
  cases u with
  | nil => exact absurd rfl hne
  | cons x u =>
    have hlen : (u ++ post).length - post.length = u.length := by
      rw [List.length_append, Nat.add_sub_cancel]
    obtain ⟨past', hreads⟩ := hreads
    rw [List.cons_append] at hreads
    rw [List.cons_append, finditerFrom_cons, hreads]
    refine congrArg (g :: ·) ?_
    rw [hlen, finditerFrom_skip]
    exact finditerFrom_eq_nil (hstarts.needs.not_infix hpost)

end search

end Regex

end RestoreEngine
