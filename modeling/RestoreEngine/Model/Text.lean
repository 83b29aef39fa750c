import Mathlib.Data.Int.Notation
import Mathlib.Data.List.DropRight

/-!
# Text operations

The string methods that the source relies on, as functions on strings that unfold to
structural recursions on characters: `str.strip`, `str.lower`, the substring test `in`,
`str.startswith`, `str.split` at one character, and `str.join`; and `int` of a text.
-/

namespace RestoreEngine

namespace Text

/-- `str.isspace` on one character. -/
def isSpace (c : Char) : Bool :=
  let n := c.toNat
  (9 ≤ n && n ≤ 13) || (28 ≤ n && n ≤ 32) || n == 0x85 || n == 0xa0 || n == 0x1680 ||
    (0x2000 ≤ n && n ≤ 0x200a) || n == 0x2028 || n == 0x2029 || n == 0x202f || n == 0x205f ||
    n == 0x3000

/-- Statements about the characters of a text are decided along the text. -/
instance decidableForallMem {p : Char → Prop} [DecidablePred p] (l : List Char) :
    Decidable (∀ c ∈ l, p c) := List.decidableBAll p l

instance decidableExistsMem {p : Char → Prop} [DecidablePred p] (l : List Char) :
    Decidable (∃ c ∈ l, p c) := List.decidableBEx p l

/-- `str.strip()`. -/
def strip (s : String) : String :=
  String.ofList ((s.toList.dropWhile isSpace).reverse.dropWhile isSpace).reverse

private theorem dropWhile_rdropWhile (p : Char → Bool) (l : List Char) :
    ((l.dropWhile p).rdropWhile p).dropWhile p = (l.dropWhile p).rdropWhile p := by
  refine List.dropWhile_eq_self_iff.mpr fun hlen => ?_
  have hpre := List.rdropWhile_prefix p (l.dropWhile p)
  rw [hpre.getElem hlen]
  exact List.dropWhile_get_zero_not p l (hlen.trans_le hpre.length_le)

/-- A stripped text has nothing to strip. -/
@[simp] theorem strip_strip (s : String) : strip (strip s) = strip s := by
  have htrim : ∀ l : List Char, ((l.dropWhile isSpace).reverse.dropWhile isSpace).reverse =
      (l.dropWhile isSpace).rdropWhile isSpace := fun _ => rfl
  rw [strip, strip, String.toList_ofList, htrim, htrim, dropWhile_rdropWhile,
    List.rdropWhile_idempotent]

/-- A text that has no space at its ends has nothing to strip. -/
theorem strip_eq_self {s : String} (hhead : ∀ c, s.toList.head? = some c → isSpace c = false)
    (hlast : ∀ c, s.toList.getLast? = some c → isSpace c = false) : strip s = s := by
  have hdrop : ∀ l : List Char, (∀ c, l.head? = some c → isSpace c = false) →
      l.dropWhile isSpace = l := by
    intro l hl
    match l with
    | [] => rfl
    | c :: cs => rw [List.dropWhile_cons_of_neg (by rw [hl c rfl]; decide)]
  rw [strip, hdrop s.toList hhead, hdrop s.toList.reverse fun c hc => hlast c ?_,
    List.reverse_reverse, String.ofList_toList]
  rwa [List.head?_reverse] at hc

/-- A text that has nothing to strip does not begin with a space. -/
theorem isSpace_head {s : String} (h : strip s = s) {c : Char} (hc : s.toList.head? = some c) :
    isSpace c = false := by
  by_contra hspace
  rw [Bool.not_eq_false] at hspace
  have hlist : ((s.toList.dropWhile isSpace).reverse.dropWhile isSpace).reverse = s.toList := by
    rw [← String.toList_ofList (l := ((s.toList.dropWhile isSpace).reverse.dropWhile isSpace).reverse)]
    exact congrArg String.toList h
  match hs : s.toList with
  | [] => rw [hs] at hc; cases hc
  | d :: ds =>
    rw [hs] at hc hlist
    obtain rfl : d = c := Option.some.inj hc
    have hlength := congrArg List.length hlist
    rw [List.length_reverse, List.dropWhile_cons_of_pos hspace] at hlength
    have hle := (List.dropWhile_sublist (p := isSpace) (l := (ds.dropWhile isSpace).reverse)).length_le
    have hle' := (List.dropWhile_sublist (p := isSpace) (l := ds)).length_le
    rw [List.length_reverse] at hle
    rw [List.length_cons] at hlength
    omega

/-- Lower case of one character. Outside ASCII only the two characters whose lower case starts with
a letter of ASCII are mapped, for that is all that a comparison with a text in ASCII can tell. Texts
that are compared with each other take `str.lower` as an argument, unless they are names and tags
that Proxmox keeps in ASCII. -/
def lowerChar (c : Char) : List Char :=
  if c = Char.ofNat 0x212a then ['k']
  else if c = Char.ofNat 0x130 then ['i', Char.ofNat 0x307]
  else [c.toLower]

/-- `str.lower()`. -/
def lower (s : String) : String := String.ofList (s.toList.flatMap lowerChar)

/-- Whether `needle` occurs in a list of characters. -/
def occurs (needle : List Char) : List Char → Bool
  | [] => needle.isEmpty
  | c :: cs => needle.isPrefixOf (c :: cs) || occurs needle cs

/-- The substring test `needle in s`. -/
def contains (s needle : String) : Bool := occurs needle.toList s.toList

/-- `s.startswith(t)`. -/
def startsWith (s t : String) : Bool := t.toList.isPrefixOf s.toList

/-- `s.split(c)`. -/
def split (s : String) (c : Char) : List String := (s.toList.splitOn c).map String.ofList

/-- `sep.join(parts)`. -/
def join (sep : String) : List String → String
  | [] => ""
  | [s] => s
  | s :: rest => s ++ sep ++ join sep rest

/-- `int(s)`, for decimal digits in ASCII. -/
def parseInt (s : String) : Option ℤ :=
  let body := (strip s).toList
  let groups := (if body.head? = some '-' ∨ body.head? = some '+' then body.tail else body).splitOn '_'
  if groups.all fun g => g ≠ [] ∧ g.all Char.isDigit then
    let n : ℤ := Nat.ofDigitChars 10 groups.flatten 0
    some (if body.head? = some '-' then -n else n)
  else none

/-- `s.rstrip(c)`. -/
def rstripChar (s : String) (c : Char) : String :=
  String.ofList (s.toList.reverse.dropWhile (· == c)).reverse

/-- `s.lstrip(c)`. -/
def lstripChar (s : String) (c : Char) : String :=
  String.ofList (s.toList.dropWhile (· == c))

end Text

end RestoreEngine
