import Mathlib.Data.List.Infix

/-!
# Delivery of a stream

A stream arrives in **chunks**, wherever it is cut; an empty chunk tells that it has ended. A reader
that waits for a mark reads chunk after chunk until the mark occurs in what has been read, unless
the stream ends or a limit is exceeded first (`readUntil`). What it finds before the mark, and what
follows the mark when the leftover of the last chunk is put before the rest, is what it would find
in the whole stream (`readUntil_mark`): the chunks make no difference, but for a stream whose mark
ends just below the limit.
-/

namespace Delivery

variable {α : Type*} [DecidableEq α]

/-! ### Marks -/

/-- What stands before the first occurrence of a mark, and what stands after it. -/
def cut (mark : List α) : List α → Option (List α × List α)
  | [] => if mark = [] then some ([], []) else none
  | a :: l =>
    if mark.isPrefixOf (a :: l) then some ([], (a :: l).drop mark.length)
    else (cut mark l).map (Prod.map (List.cons a) id)

variable {mark l m a b : List α}

/-- The mark stands between the two. -/
theorem eq_of_cut (h : cut mark l = some (a, b)) : l = a ++ (mark ++ b) := by
  induction l generalizing a with
  | nil =>
    rw [cut] at h
    split_ifs at h with hmark
    obtain ⟨rfl, rfl⟩ := Prod.mk.inj (Option.some.inj h)
    simp [hmark]
  | cons x l ih =>
    rw [cut] at h
    split_ifs at h with hmark
    · obtain ⟨rfl, rfl⟩ := Prod.mk.inj (Option.some.inj h)
      obtain ⟨rest, hrest⟩ := List.isPrefixOf_iff_prefix.mp hmark
      rw [← hrest, List.drop_left, List.nil_append]
    · obtain ⟨⟨a', b'⟩, hcut, hab⟩ := Option.map_eq_some_iff.mp h
      obtain ⟨rfl, rfl⟩ := Prod.mk.inj hab
      rw [ih hcut, List.cons_append]

/-- Where a mark occurs, there is a first occurrence. -/
theorem cut_isSome (h : mark <:+: l) : (cut mark l).isSome := by
  induction l with
  | nil =>
    rw [cut, if_pos (List.infix_nil.mp h)]
    rfl
  | cons x l ih =>
    rw [cut]
    split_ifs with hmark
    · rfl
    · rcases List.infix_cons_iff.mp h with hhere | hlater
      · exact absurd (List.isPrefixOf_iff_prefix.mpr hhere) hmark
      · rw [Option.isSome_map]
        exact ih hlater

/-- The first occurrence stays the first when more follows. -/
theorem cut_append (h : cut mark l = some (a, b)) (m : List α) :
    cut mark (l ++ m) = some (a, b ++ m) := by
  induction l generalizing a with
  | nil =>
    rw [cut] at h
    split_ifs at h with hmark
    obtain ⟨rfl, rfl⟩ := Prod.mk.inj (Option.some.inj h)
    subst hmark
    cases m <;> rfl
  | cons x l ih =>
    rw [cut] at h
    rw [List.cons_append, cut]
    split_ifs at h with hmark
    · obtain ⟨rfl, rfl⟩ := Prod.mk.inj (Option.some.inj h)
      have hpre := List.isPrefixOf_iff_prefix.mp hmark
      have hlong : mark.isPrefixOf (x :: (l ++ m)) = true :=
        List.isPrefixOf_iff_prefix.mpr (hpre.trans ⟨m, rfl⟩)
      rw [if_pos hlong, ← List.cons_append, List.drop_append_of_le_length hpre.length_le]
    · obtain ⟨⟨a', b'⟩, hcut, hab⟩ := Option.map_eq_some_iff.mp h
      obtain ⟨rfl, rfl⟩ := Prod.mk.inj hab
      have hshort : ¬mark.isPrefixOf (x :: (l ++ m)) = true := by
        intro hlong
        -- a mark that reached beyond `l` would be longer than what `l` holds of it
        have hlen : mark.length ≤ (x :: l).length := by
          have := congrArg List.length (eq_of_cut hcut)
          simp only [List.length_append, List.length_cons] at this ⊢
          omega
        exact hmark (List.isPrefixOf_iff_prefix.mpr
          (List.prefix_of_prefix_length_le (List.isPrefixOf_iff_prefix.mp hlong)
            ⟨m, List.cons_append⟩ hlen))
      rw [if_neg hshort, ih hcut]
      rfl

theorem cut_eq_none_of_append (h : cut mark (l ++ m) = none) : cut mark l = none := by
  cases hcut : cut mark l with
  | none => rfl
  | some ab =>
    rw [cut_append hcut m] at h
    exact absurd h (Option.some_ne_none _)

/-- An occurrence that ends within the first part is found there. -/
theorem cut_of_append (h : cut mark (l ++ m) = some (a, b))
    (hle : a.length + mark.length ≤ l.length) : (cut mark l).isSome := by
  refine cut_isSome ?_
  -- both the occurrence and `l` are first parts of the whole
  have hall := eq_of_cut h
  rw [← List.append_assoc] at hall
  have hpre : a ++ mark <+: l :=
    List.prefix_of_prefix_length_le ⟨b, hall.symm⟩ ⟨m, rfl⟩ (by simpa using hle)
  exact (List.suffix_append a mark).isInfix.trans hpre.isInfix

/-! ### Reading until a mark -/

/-- A stream in chunks of a bounded size. None of them is empty: that would be the end. -/
structure Chunked (size : ℕ) (stream : List α) where
  chunks : List (List α)
  ne_nil : ∀ c ∈ chunks, c ≠ []
  length_le : ∀ c ∈ chunks, c.length ≤ size
  flatten_eq : chunks.flatten = stream

/-- Why a reader gives up. -/
inductive GiveUp
  /-- The stream has ended. -/
  | ended
  /-- The limit is exceeded. -/
  | exceeded
  deriving DecidableEq

/-- A reader takes chunk after chunk until the mark occurs in what it has read. -/
def readUntil (mark : List α) (limit : ℕ) (buf : List α) :
    List (List α) → Except GiveUp (List α × List (List α))
  | [] => if (cut mark buf).isSome then .ok (buf, []) else .error .ended
  | chunk :: chunks =>
    if (cut mark buf).isSome then .ok (buf, chunk :: chunks)
    else if chunk = [] then .error .ended
    else if limit < (buf ++ chunk).length then .error .exceeded
    else readUntil mark limit (buf ++ chunk) chunks

/-- The reader has stopped where the stream has its mark: what follows the mark is the leftover of
what was read with the chunks to come. -/
def Found (mark : List α) (a b : List α) (got : List α × List (List α)) : Prop :=
  ∃ leftover, cut mark got.1 = some (a, leftover) ∧ leftover ++ got.2.flatten = b

section Reading

variable {limit size : ℕ} {buf : List α} {chunks : List (List α)}

private theorem found_of_isSome (h : (cut mark buf).isSome)
    (hall : cut mark (buf ++ chunks.flatten) = some (a, b)) : Found mark a b (buf, chunks) := by
  obtain ⟨⟨a', leftover⟩, hcut⟩ := Option.isSome_iff_exists.mp h
  have hsame := (cut_append hcut chunks.flatten).symm.trans hall
  obtain ⟨rfl, rfl⟩ := Prod.mk.inj (Option.some.inj hsame)
  exact ⟨leftover, hcut, rfl⟩

/-- Whatever the chunks are: a reader of a stream with a mark finds it, or gives up because the
limit is exceeded. -/
theorem readUntil_or (hall : cut mark (buf ++ chunks.flatten) = some (a, b))
    (hne : ∀ c ∈ chunks, c ≠ []) :
    (∃ got, readUntil mark limit buf chunks = .ok got ∧ Found mark a b got) ∨
      readUntil mark limit buf chunks = .error .exceeded := by
  induction chunks generalizing buf with
  | nil =>
    have hbuf : (cut mark buf).isSome := by
      rw [List.flatten_nil, List.append_nil] at hall
      simp [hall]
    rw [readUntil, if_pos hbuf]
    exact .inl ⟨_, rfl, found_of_isSome hbuf hall⟩
  | cons chunk chunks ih =>
    rw [readUntil]
    split_ifs with hbuf hend hlimit
    · exact .inl ⟨_, rfl, found_of_isSome hbuf hall⟩
    · exact absurd hend (hne chunk List.mem_cons_self)
    · exact .inr rfl
    · rw [List.flatten_cons, ← List.append_assoc] at hall
      exact ih hall fun c hc => hne c (List.mem_cons_of_mem chunk hc)

/-- The limit is never exceeded if the mark ends early enough, or if the stream is short. -/
theorem readUntil_mark (hall : cut mark (buf ++ chunks.flatten) = some (a, b))
    (hne : ∀ c ∈ chunks, c ≠ []) (hsize : ∀ c ∈ chunks, c.length ≤ size)
    (hroom : a.length + mark.length + size ≤ limit + 1 ∨
      (buf ++ chunks.flatten).length ≤ limit) :
    ∃ got, readUntil mark limit buf chunks = .ok got ∧ Found mark a b got := by
  refine (readUntil_or hall hne).resolve_right fun hexceeded => ?_
  clear hne
  induction chunks generalizing buf with
  | nil =>
    rw [readUntil] at hexceeded
    split_ifs at hexceeded
    cases hexceeded
  | cons chunk chunks ih =>
    rw [readUntil] at hexceeded
    rw [List.flatten_cons, ← List.append_assoc] at hall hroom
    split_ifs at hexceeded with hbuf hend hlimit
    · cases hexceeded
    · -- the mark was not there yet, so it ends in the chunk or after it
      have hearly : buf.length < a.length + mark.length := by
        by_contra hle
        rw [List.append_assoc] at hall
        exact hbuf (cut_of_append hall (by omega))
      have hchunk := hsize chunk List.mem_cons_self
      simp only [List.length_append] at hlimit hroom
      omega
    · exact ih hall (fun c hc => hsize c (List.mem_cons_of_mem chunk hc)) hroom hexceeded

/-- Without a mark the reader gives up. -/
theorem readUntil_of_none (hall : cut mark (buf ++ chunks.flatten) = none) :
    ∃ why, readUntil mark limit buf chunks = .error why := by
  induction chunks generalizing buf with
  | nil => exact ⟨.ended, by simp [readUntil, cut_eq_none_of_append hall]⟩
  | cons chunk chunks ih =>
    have hbuf := cut_eq_none_of_append hall
    rw [List.flatten_cons, ← List.append_assoc] at hall
    rw [readUntil, if_neg (by simp [hbuf])]
    split_ifs
    · exact ⟨.ended, rfl⟩
    · exact ⟨.exceeded, rfl⟩
    · exact ih hall

/-- Without a mark the reader comes to the end of a short stream. -/
theorem readUntil_ended (hall : cut mark (buf ++ chunks.flatten) = none)
    (hshort : (buf ++ chunks.flatten).length ≤ limit) :
    readUntil mark limit buf chunks = .error .ended := by
  induction chunks generalizing buf with
  | nil => simp [readUntil, cut_eq_none_of_append hall]
  | cons chunk chunks ih =>
    have hbuf := cut_eq_none_of_append hall
    rw [List.flatten_cons, ← List.append_assoc] at hall hshort
    have hlimit : ¬limit < (buf ++ chunk).length := by
      simp only [List.length_append] at hshort ⊢
      omega
    rw [readUntil, if_neg (by simp [hbuf]), if_neg hlimit]
    split_ifs
    · rfl
    · exact ih hall hshort

/-- Without a mark below the limit the reader of a long stream exceeds it. -/
theorem readUntil_exceeded (hall : cut mark ((buf ++ chunks.flatten).take limit) = none)
    (hne : ∀ c ∈ chunks, c ≠ []) (hlong : limit < (buf ++ chunks.flatten).length)
    (hle : buf.length ≤ limit) :
    readUntil mark limit buf chunks = .error .exceeded := by
  induction chunks generalizing buf with
  | nil =>
    rw [List.flatten_nil, List.append_nil] at hlong
    omega
  | cons chunk chunks ih =>
    -- what has been read lies below the limit, where there is no mark
    have hbuf : cut mark buf = none := by
      rw [List.take_append, List.take_of_length_le hle] at hall
      exact cut_eq_none_of_append hall
    rw [List.flatten_cons, ← List.append_assoc] at hall hlong
    rw [readUntil, if_neg (by simp [hbuf])]
    split_ifs with hend hlimit
    · exact absurd hend (hne chunk List.mem_cons_self)
    · rfl
    · exact ih hall (fun c hc => hne c (List.mem_cons_of_mem chunk hc)) hlong (by omega)

end Reading

end Delivery
