import Mathlib.Data.List.Basic

/-!
# Markup

How the text of a page is read. A page is made of **fragments**: tags, texts that are escaped, and
plain texts that need not be. A reader goes through its characters and finds tags and characters to
show; between `&` and `;` stands the name of a character. The page that is written of fragments is
read as these fragments (`contents_html`): whatever a text says, it is shown as it is, and it makes
no tags.

What is asked of a page are the **contents** of its elements of a name: the texts that are shown
between the opening and the closing tag. Elements of that name do not nest.
-/

namespace Markup

/-! ### Escaping -/

/-- The text that stands for a character. -/
def escapeChar : Char → List Char
  | '&' => ['&', 'a', 'm', 'p', ';']
  | '<' => ['&', 'l', 't', ';']
  | '>' => ['&', 'g', 't', ';']
  | '"' => ['&', 'q', 'u', 'o', 't', ';']
  | '\'' => ['&', '#', 'x', '2', '7', ';']
  | c => [c]

/-- A text, escaped. -/
def escape (s : String) : String := String.ofList (s.toList.flatMap escapeChar)

/-! ### Reading -/

/-- What a reader finds. -/
inductive Piece
  | tag (inside : List Char)
  | char (c : Char)
  deriving DecidableEq

/-- Where a reader is: in a text, in a tag, or in the name of a character. -/
inductive Mode
  | text
  | tag (inside : List Char)
  | name (letters : List Char)

/-- The characters that a name stands for. -/
def named : List Char → List Char
  | ['a', 'm', 'p'] => ['&']
  | ['l', 't'] => ['<']
  | ['g', 't'] => ['>']
  | ['q', 'u', 'o', 't'] => ['"']
  | ['#', 'x', '2', '7'] => ['\'']
  | letters => '&' :: letters ++ [';']

/-- What a reader finds in a page. -/
def read : Mode → List Char → List Piece
  | _, [] => []
  | .text, c :: rest =>
    if c = '<' then read (.tag []) rest
    else if c = '&' then read (.name []) rest
    else .char c :: read .text rest
  | .tag inside, c :: rest =>
    if c = '>' then .tag inside :: read .text rest else read (.tag (inside ++ [c])) rest
  | .name letters, c :: rest =>
    if c = ';' then (named letters).map .char ++ read .text rest
    else read (.name (letters ++ [c])) rest

/-- The name of a tag. -/
def tagName (inside : List Char) : List Char := inside.takeWhile (· ≠ ' ')

/-- The contents of the elements of a name; inside such an element, with what has been shown of
it. -/
def collect (name : List Char) : Option (List Char) → List Piece → List String
  | _, [] => []
  | none, .tag inside :: rest =>
    if tagName inside = name then collect name (some []) rest else collect name none rest
  | none, .char _ :: rest => collect name none rest
  | some shown, .tag inside :: rest =>
    if inside = '/' :: name then String.ofList shown :: collect name none rest
    else collect name (some shown) rest
  | some shown, .char c :: rest => collect name (some (shown ++ [c])) rest

/-- **The contents of the elements of a name.** -/
def contents (name : String) (page : String) : List String :=
  collect name.toList none (read .text page.toList)

/-! ### Parts -/

/-- A fragment of a page. -/
inductive Fragment
  | tag (inside : String)
  | text (s : String)
  | plain (s : String)

namespace Fragment

/-- A fragment as it is written. -/
def html : Fragment → String
  | tag inside => "<" ++ inside ++ ">"
  | text s => escape s
  | plain s => s

/-- A fragment as it is read. -/
def pieces : Fragment → List Piece
  | tag inside => [.tag inside.toList]
  | text s | plain s => s.toList.map .char

/-- A tag ends where it ends, and plain text has nothing to escape. -/
def Sound : Fragment → Prop
  | tag inside => '>' ∉ inside.toList
  | text _ => True
  | plain s => '<' ∉ s.toList ∧ '&' ∉ s.toList

instance : DecidablePred Sound
  | tag inside => inferInstanceAs (Decidable ('>' ∉ inside.toList))
  | text _ => inferInstanceAs (Decidable True)
  | plain s => inferInstanceAs (Decidable ('<' ∉ s.toList ∧ '&' ∉ s.toList))

end Fragment

/-- A page. -/
def html (ps : List Fragment) : String := String.join (ps.map Fragment.html)

theorem html_nil : html [] = "" := rfl

theorem html_cons (p : Fragment) (ps : List Fragment) : html (p :: ps) = p.html ++ html ps := by
  simp [html]

theorem html_singleton (p : Fragment) : html [p] = p.html := by
  simp [html]

theorem html_append (ps qs : List Fragment) : html (ps ++ qs) = html ps ++ html qs := by
  simp [html]

/-- Chunks of a page, joined. -/
theorem join_html (chunks : List (List Fragment)) :
    String.join (chunks.map html) = html chunks.flatten := by
  induction chunks with
  | nil => rfl
  | cons ps chunks ih =>
    rw [List.map_cons, String.join_cons, ih, List.flatten_cons, html_append]

/-! ### Reading what was written -/

private theorem read_escapeChar (c : Char) (rest : List Char) :
    read .text (escapeChar c ++ rest) = .char c :: read .text rest := by
  rw [escapeChar.eq_def]
  split
  case h_6 hamp hlt hgt hquot hapos =>
    rw [List.singleton_append, read, if_neg hlt, if_neg hamp]
  all_goals rfl

/-- An escaped text is read as what it says. -/
private theorem read_escape (s rest : List Char) :
    read .text (s.flatMap escapeChar ++ rest) = s.map .char ++ read .text rest := by
  induction s with
  | nil => rfl
  | cons c s ih =>
    rw [List.flatMap_cons, List.append_assoc, read_escapeChar, ih, List.map_cons, List.cons_append]

/-- A plain text is read as it is. -/
private theorem read_plain {s : List Char} (hlt : '<' ∉ s) (hamp : '&' ∉ s) (rest : List Char) :
    read .text (s ++ rest) = s.map .char ++ read .text rest := by
  induction s with
  | nil => rfl
  | cons c s ih =>
    rw [List.mem_cons, not_or] at hlt hamp
    rw [List.cons_append, read, if_neg (Ne.symm hlt.1), if_neg (Ne.symm hamp.1), ih hlt.2 hamp.2,
      List.map_cons, List.cons_append]

/-- Inside a tag, up to its end. -/
private theorem read_inside {inside : List Char} (h : '>' ∉ inside) (before rest : List Char) :
    read (.tag before) (inside ++ '>' :: rest) = .tag (before ++ inside) :: read .text rest := by
  induction inside generalizing before with
  | nil => simp [read]
  | cons c inside ih =>
    rw [List.mem_cons, not_or] at h
    rw [List.cons_append, read, if_neg (Ne.symm h.1), ih h.2, List.append_assoc,
      List.singleton_append]

/-- **A fragment is read as what it is.** -/
private theorem read_fragment {p : Fragment} (h : p.Sound) (rest : List Char) :
    read .text (p.html.toList ++ rest) = p.pieces ++ read .text rest := by
  cases p with
  | tag inside =>
    have hpage : (Fragment.tag inside).html.toList ++ rest =
        '<' :: (inside.toList ++ '>' :: rest) := by
      simp [Fragment.html]
    rw [hpage, read, if_pos rfl, read_inside h]
    rfl
  | text s =>
    rw [Fragment.html, escape, String.toList_ofList, read_escape]
    rfl
  | plain s =>
    rw [Fragment.html, read_plain h.1 h.2]
    rfl

/-- **What is written is read.** -/
theorem read_html {ps : List Fragment} (h : ∀ p ∈ ps, p.Sound) :
    read .text (html ps).toList = ps.flatMap Fragment.pieces := by
  induction ps with
  | nil => rfl
  | cons p ps ih =>
    rw [html_cons, String.toList_append, read_fragment (h p List.mem_cons_self),
      ih fun q hq => h q (List.mem_cons_of_mem p hq),
      List.flatMap_cons]

/-! ### Contents of fragments -/

/-- The contents of the elements of a name, of fragments. -/
def gather (name : String) : Option String → List Fragment → List String
  | _, [] => []
  | none, .tag inside :: rest =>
    if tagName inside.toList = name.toList then gather name (some "") rest
    else gather name none rest
  | none, .text _ :: rest | none, .plain _ :: rest => gather name none rest
  | some shown, .tag inside :: rest =>
    if inside = "/" ++ name then shown :: gather name none rest
    else gather name (some shown) rest
  | some shown, .text s :: rest | some shown, .plain s :: rest =>
    gather name (some (shown ++ s)) rest

private theorem collect_none_chars (name : List Char) (s : List Char) (rest : List Piece) :
    collect name none (s.map .char ++ rest) = collect name none rest := by
  induction s with
  | nil => rfl
  | cons c s ih => rw [List.map_cons, List.cons_append, collect, ih]

private theorem collect_some_chars (name shown : List Char) (s : List Char) (rest : List Piece) :
    collect name (some shown) (s.map .char ++ rest) = collect name (some (shown ++ s)) rest := by
  induction s generalizing shown with
  | nil => simp
  | cons c s ih =>
    rw [List.map_cons, List.cons_append, collect, ih, List.append_assoc, List.singleton_append]

/-- The contents are those of the fragments. -/
private theorem collect_pieces (name : String) (shown : Option String) (ps : List Fragment) :
    collect name.toList (shown.map String.toList) (ps.flatMap Fragment.pieces) =
      gather name shown ps := by
  induction ps generalizing shown with
  | nil => cases shown <;> rfl
  | cons p ps ih =>
    rw [List.flatMap_cons]
    cases shown with
    | none =>
      cases p with
      | tag inside =>
        rw [Option.map_none, Fragment.pieces, List.singleton_append, collect, gather, ← ih none,
          ← ih (some "")]
        rfl
      | _ =>
        rw [Option.map_none, Fragment.pieces, collect_none_chars, gather, ← ih none]
        rfl
    | some shown =>
      cases p with
      | tag inside =>
        have hclose : inside.toList = '/' :: name.toList ↔ inside = "/" ++ name := by
          rw [← String.toList_inj, String.toList_append]
          rfl
        rw [Option.map_some, Fragment.pieces, List.singleton_append, collect, gather, ← ih none,
          ← ih (some shown), String.ofList_toList]
        exact if_congr hclose rfl rfl
      | _ =>
        rw [Option.map_some, Fragment.pieces, collect_some_chars, gather, ← ih, Option.map_some,
          String.toList_append]

/-- **The contents of a page** are those of the fragments that it is written of. -/
theorem contents_html {ps : List Fragment} (h : ∀ p ∈ ps, p.Sound) (name : String) :
    contents name (html ps) = gather name none ps := by
  rw [contents, read_html h]
  exact collect_pieces name none ps

/-- A list of fragments has these contents, whatever follows. -/
def Gives (name : String) (ps : List Fragment) (out : List String) : Prop :=
  ∀ rest, gather name none (ps ++ rest) = out ++ gather name none rest

variable {name : String} {ps qs : List Fragment} {out out' : List String}

theorem Gives.append (h : Gives name ps out) (h' : Gives name qs out') :
    Gives name (ps ++ qs) (out ++ out') := by
  intro rest
  rw [List.append_assoc, h, h', List.append_assoc]

/-- One list of fragments after the other. -/
theorem gives_flatMap {α : Type*} {f : α → List Fragment} {g : α → List String} {l : List α}
    (h : ∀ a ∈ l, Gives name (f a) (g a)) : Gives name (l.flatMap f) (l.flatMap g) := by
  induction l with
  | nil => exact fun _ => rfl
  | cons a l ih =>
    rw [List.forall_mem_cons] at h
    exact h.1.append (ih h.2)

/-- The contents of the page that the fragments make. -/
theorem Gives.contents (h : Gives name ps out) (hsound : ∀ p ∈ ps, p.Sound) :
    contents name (html ps) = out := by
  have hparts := h []
  rw [List.append_nil, gather, List.append_nil] at hparts
  rw [contents_html hsound, hparts]

end Markup
