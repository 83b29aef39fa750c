import RestoreEngine.Backups.Epoch
import RestoreEngine.Members.Select

/-!
# Cutoffs

The engine compares the times of backups as texts. That picks the newest backups by time
(`newest_by_time`): the text of a second is its stamp, stamps compare as the seconds do, and a
cutoff is filled up to the last second that it means.
-/

namespace RestoreEngine

open Time RestoreEngine.Lists

/-! ### Texts of seconds -/

theorem ofList_text_le_iff {a b : Stamp} (ha : a.Valid) (hb : b.Valid) :
    String.ofList a.text ≤ String.ofList b.text ↔ a.seconds ≤ b.seconds := by
  rw [← not_lt, ← not_lt, String.lt_iff_toList_lt, String.toList_ofList, String.toList_ofList]
  exact not_congr (Stamp.text_lt_iff hb ha)

/-- **Texts of seconds compare as the seconds do.** -/
theorem secondText_le_iff {s t : ℤ} (hs : InRange s) (ht : InRange t) :
    secondText s ≤ secondText t ↔ s ≤ t := by
  rw [secondText_eq hs, secondText_eq ht, ofList_text_le_iff (stampOf_valid hs) (stampOf_valid ht),
    seconds_stampOf hs, seconds_stampOf ht]

/-- A second in the range has a text. -/
theorem epochToIsoZ_number {t : ℤ} (ht : InRange t) :
    epochToIsoZ (.number t) = .ok (secondText t) := by
  have hfirst : firstSecond ≤ t := le_trans (by decide) ht.nonneg
  rw [epochToIsoZ, Value.toInt?]
  exact if_pos ⟨hfirst, ht.le_last⟩

/-! ### Cutoffs -/

/-- A cutoff, as a request gives it. -/
inductive Cutoff
  | none
  | day (date : Date)
  | minute (date : Date) (hour min : ℕ)
  | second (stamp : Stamp) (zulu : Bool)

namespace Cutoff

/-- The last second that a cutoff lets in. -/
def last : Cutoff → Stamp
  | none => ⟨⟨9999, 12, 31⟩, 23, 59, 59⟩
  | day date => ⟨date, 23, 59, 59⟩
  | minute date hour min => ⟨date, hour, min, 59⟩
  | second stamp _ => stamp

/-- The cutoff is one of the calendar. -/
def Valid (c : Cutoff) : Prop := c.last.Valid

instance (c : Cutoff) : Decidable c.Valid := inferInstanceAs (Decidable c.last.Valid)

/-- The cutoff as text. -/
def text : Cutoff → String
  | none => ""
  | day date => String.ofList (last (day date)).dateText
  | minute date hour min =>
    String.ofList ((last (minute date hour min)).dateText ++
      'T' :: (last (minute date hour min)).minuteText)
  | second stamp zulu => String.ofList (if zulu then stamp.text else stamp.body)

/-- The cutoff lets a second in. -/
def Admits : Cutoff → ℤ → Prop
  | none, _ => True
  | c, t => t ≤ c.last.seconds

instance (c : Cutoff) (t : ℤ) : Decidable (c.Admits t) := by
  cases c <;> simp only [Admits] <;> infer_instance

/-- Without a cutoff, the last second of the calendar is the bound. -/
private theorem admits_iff (c : Cutoff) {t : ℤ} (ht : InRange t) :
    c.Admits t ↔ t ≤ c.last.seconds := by
  cases c with
  | none =>
    have hend : (last none).seconds = lastSecond := by decide +kernel
    rw [hend]
    exact ⟨fun _ => ht.le_last, fun _ => trivial⟩
  | day | minute | second => exact Iff.rfl

/-! ### What the engine makes of a cutoff -/

/-- Nothing is stripped from a part of a stamp. -/
private theorem strip_eq {a : Stamp} {l : List Char} (h : ∀ ch ∈ l, ch ∈ a.text) :
    Text.strip (String.ofList l) = String.ofList l := by
  have hspace : ∀ ch ∈ l, Text.isSpace ch = false :=
    fun ch hch => isSpace_of_mem_text (h ch hch)
  refine Text.strip_eq_self (fun ch hch => hspace ch ?_) fun ch hch => hspace ch ?_
  · rw [String.toList_ofList] at hch
    exact List.mem_of_mem_head? hch
  · rw [String.toList_ofList] at hch
    exact List.mem_of_getLast? hch

private theorem ne_empty_of_length {s : String} {n : ℕ} (h : s.length = n) (hn : 0 < n) :
    s ≠ "" := by
  rintro rfl
  rw [← h] at hn
  exact absurd hn (by decide)

/-- **A cutoff is filled up** to the last second that it means. -/
theorem normalizeCutoff_text (c : Cutoff) :
    normalizeCutoff c.text = String.ofList c.last.text := by
  have hlength : ∀ l : List Char, (String.ofList l).length = l.length := fun l => by
    rw [← String.length_toList, String.toList_ofList]
  cases c with
  | none => decide +kernel
  | day date =>
    have hstrip : Text.strip (text (day date)) = text (day date) := by
      refine strip_eq (a := last (day date)) fun ch hch => ?_
      simp only [Stamp.text, Stamp.body, List.mem_append]
      exact Or.inl (Or.inl hch)
    have hlen : (text (day date)).length = 10 := by rw [text, hlength, Stamp.length_dateText]
    have h23 : digits 2 23 = ['2', '3'] := by decide
    have h59 : digits 2 59 = ['5', '9'] := by decide
    rw [normalizeCutoff]
    simp only [hstrip]
    rw [if_neg (ne_empty_of_length hlen (by decide)), if_pos hlen, text, ← String.toList_inj,
      String.toList_append, String.toList_ofList, String.toList_ofList, String.toList_ofList]
    simp [Stamp.text, Stamp.body, Stamp.minuteText, last, h23, h59]
  | minute date hour min =>
    have hstrip : Text.strip (text (minute date hour min)) = text (minute date hour min) := by
      refine strip_eq (a := last (minute date hour min)) fun ch hch => ?_
      simp only [Stamp.text, Stamp.body, List.mem_append, List.mem_cons] at hch ⊢
      tauto
    have hlen : (text (minute date hour min)).length = 16 := by
      rw [text, hlength]
      simp [Stamp.minuteText]
    have h59 : digits 2 59 = ['5', '9'] := by decide
    rw [normalizeCutoff]
    simp only [hstrip]
    rw [if_neg (ne_empty_of_length hlen (by decide)), if_neg (by rw [hlen]; decide), if_pos hlen,
      text, ← String.toList_inj, String.toList_append, String.toList_ofList, String.toList_ofList,
      String.toList_ofList]
    simp [Stamp.text, Stamp.body, last, h59]
  | second stamp zulu =>
    have hstrip : Text.strip (text (second stamp zulu)) = text (second stamp zulu) := by
      refine strip_eq (a := stamp) fun ch hch => ?_
      cases zulu with
      | false => exact List.mem_append_left _ hch
      | true => exact hch
    rw [normalizeCutoff]
    simp only [hstrip]
    cases zulu with
    | false =>
      have hlen : (text (second stamp false)).length = 19 := by
        rw [text, hlength]
        exact Stamp.length_body stamp
      have hlast : (text (second stamp false)).toList.getLast? ≠ some 'Z' := by
        have hsplit : stamp.body = (stamp.dateText ++ 'T' :: (stamp.minuteText ++
            ':' :: digits 1 (stamp.second / 10))) ++ [Nat.digitChar (stamp.second % 10)] := by
          simp only [Stamp.body, digits, List.append_assoc, List.cons_append]
        have hdigit : ∀ d < 10, Nat.digitChar d ≠ 'Z' := by decide
        rw [text, String.toList_ofList, if_neg (by decide), hsplit, List.getLast?_concat]
        exact fun hz => hdigit _ (Nat.mod_lt _ (by omega)) (Option.some.inj hz)
      rw [if_neg (ne_empty_of_length hlen (by decide)), if_neg (by rw [hlen]; decide),
        if_neg (by rw [hlen]; decide), if_pos hlast, text, ← String.toList_inj,
        String.toList_append, String.toList_ofList, String.toList_ofList, String.toList_ofList]
      rfl
    | true =>
      have hlen : (text (second stamp true)).length = 20 := by
        rw [text, hlength]
        simp [Stamp.text]
      have hlast : (text (second stamp true)).toList.getLast? = some 'Z' := by
        rw [text, String.toList_ofList]
        simp [Stamp.text]
      rw [if_neg (ne_empty_of_length hlen (by decide)), if_neg (by rw [hlen]; decide),
        if_neg (by rw [hlen]; decide), if_neg (not_not.mpr hlast)]
      rfl

end Cutoff

/-! ### Selecting by time -/

variable {backups candidates : List Row} {time : Row → ℤ} {c : Cutoff}

/-- The backups have the times, each rendered as its text. -/
def Stamped (backups : List Row) (time : Row → ℤ) : Prop :=
  ∀ row ∈ backups, InRange (time row) ∧ epochToIsoZ (.number (time row)) = .ok row.timestamp

instance : Decidable (Stamped backups time) := inferInstanceAs (Decidable (∀ row ∈ backups, _ ∧ _))

/-- **The newest by time**: of every VMID a candidate with the greatest time that the cutoff lets
in, and none where it lets no candidate in. -/
structure NewestByTime (selected candidates : List Row) (time : Row → ℤ) (c : Cutoff) : Prop where
  newest : ∀ row ∈ selected, row ∈ candidates ∧ c.Admits (time row) ∧
    ∀ other ∈ candidates, other.vmid = row.vmid → c.Admits (time other) → time other ≤ time row
  once : (selected.map (·.vmid)).Nodup
  selected_iff : ∀ vmid, (∃ row ∈ selected, row.vmid = vmid) ↔
    ∃ row ∈ candidates, row.vmid = vmid ∧ c.Admits (time row)

private theorem Stamped.timestamp_eq (h : Stamped backups time) {row : Row} (hrow : row ∈ backups) :
    row.timestamp = secondText (time row) := by
  obtain ⟨hrange, htext⟩ := h row hrow
  rw [epochToIsoZ_number hrange] at htext
  exact (Except.ok.inj htext).symm

/-- The comparison with the cutoff, as texts and by time. -/
private theorem Stamped.timestamp_le_iff (h : Stamped backups time) (hc : c.Valid) {row : Row}
    (hrow : row ∈ backups) : row.timestamp ≤ normalizeCutoff c.text ↔ c.Admits (time row) := by
  have hrange := (h row hrow).1
  rw [h.timestamp_eq hrow, Cutoff.normalizeCutoff_text, secondText_eq hrange,
    ofList_text_le_iff (stampOf_valid hrange) hc, seconds_stampOf hrange, c.admits_iff hrange]

/-- The comparison of two backups, as texts and by time. -/
private theorem Stamped.le_iff (h : Stamped backups time) {a b : Row} (ha : a ∈ backups)
    (hb : b ∈ backups) : a.timestamp ≤ b.timestamp ↔ time a ≤ time b := by
  rw [h.timestamp_eq ha, h.timestamp_eq hb, secondText_le_iff (h a ha).1 (h b hb).1]

private theorem latestPerVmid_newestByTime (hc : c.Valid) (h : Stamped candidates time) :
    NewestByTime (latestPerVmid candidates (normalizeCutoff c.text)) candidates time c := by
  have hadmits : ∀ row, row ∈ candidates.filter (fun row => row.timestamp ≤ normalizeCutoff c.text) ↔
      row ∈ candidates ∧ c.Admits (time row) := by
    intro row
    rw [List.mem_filter, decide_eq_true_iff]
    exact and_congr_right fun hrow => h.timestamp_le_iff hc hrow
  constructor
  · intro row hrow
    have hfirst := mem_latestPerVmid_iff.mp hrow
    obtain ⟨hmem, hin⟩ := (hadmits row).mp hfirst.mem
    refine ⟨hmem, hin, fun other hother hvmid hotherin => ?_⟩
    have hle := hfirst.le ((hadmits other).mpr ⟨hother, hotherin⟩) hvmid
    exact (h.le_iff hother hmem).mp hle
  · rw [latestPerVmid_eq]
    exact nodup_newest
  · intro vmid
    constructor
    · rintro ⟨row, hrow, hvmid⟩
      obtain ⟨hmem, hin⟩ := (hadmits row).mp (mem_latestPerVmid_iff.mp hrow).mem
      exact ⟨row, hmem, hvmid, hin⟩
    · rintro ⟨row, hmem, hvmid, hin⟩
      obtain ⟨first, hfirst, hsame⟩ := @exists_isFirstNewest _ _ _ _ (fun row : Row => row.vmid)
        (fun row => row.timestamp) _ _ ((hadmits row).mpr ⟨hmem, hin⟩)
      exact ⟨first, mem_latestPerVmid_iff.mpr hfirst, hsame.trans hvmid⟩

/-- **The newest backups are picked by time**, in the restore of a tag group as in the resolution
of an inventory group, which then keeps those that the group selects. -/
theorem newest_by_time (hc : c.Valid) (hstamped : Stamped backups time)
    (hvmids : HaveVmids backups) (mt : Matching) (group : Group) (tags : TagMap) :
    NewestByTime (latestPerVmid backups (normalizeCutoff c.text)) backups time c ∧
      NewestByTime (group.best mt backups (normalizeCutoff c.text))
        (backups.filter (group.admits mt))
        time c ∧
      ∃ rows, resolveGroupRows mt group backups (normalizeCutoff c.text) tags = .ok rows ∧
        ∀ row, row ∈ rows ↔
          row ∈ group.best mt backups (normalizeCutoff c.text) ∧ group.selects mt tags row := by
  have hadmitted : Stamped (backups.filter (group.admits mt)) time :=
    fun row hrow => hstamped row (List.mem_filter.mp hrow).1
  refine ⟨latestPerVmid_newestByTime hc hstamped, latestPerVmid_newestByTime hc hadmitted,
    _, resolveGroupRows_ok hvmids group tags, fun row => ?_⟩
  rw [Group.rows, List.mem_mergeSort, List.mem_filter]

/-- Three backups of a guest, the last of which comes after the day of the cutoff. -/
private def threeBackups : List Row :=
  [1777593600, 1777679999, 1777680000].map fun t =>
    { backupId := s!"main/store/root|vm/100/{secondText t}", vmid := some 100,
      timestamp := secondText t, pveStorage := "pbs-main", voltail := s!"vm/100/{secondText t}" }

/-- The times of the three backups. -/
private def threeTimes (row : Row) : ℤ :=
  if row.timestamp = "2026-05-01T00:00:00Z" then 1777593600
  else if row.timestamp = "2026-05-01T23:59:59Z" then 1777679999
  else 1777680000

/-- A group of one guest. -/
private def guestGroup : Group := { id := 3, name := "g", vmids := [100] }

/-- The last backup of the day is the one that is picked. -/
theorem newest_by_time_day :
    (Cutoff.day ⟨2026, 5, 1⟩).text = "2026-05-01" ∧
      NewestByTime (latestPerVmid threeBackups (normalizeCutoff (Cutoff.day ⟨2026, 5, 1⟩).text))
        threeBackups threeTimes (.day ⟨2026, 5, 1⟩) ∧
      (latestPerVmid threeBackups (normalizeCutoff "2026-05-01")).map threeTimes =
        [1777679999] := by
  have hvalid : (Cutoff.day ⟨2026, 5, 1⟩).Valid := by decide +kernel
  have hstamped : Stamped threeBackups threeTimes := by decide +kernel
  have hvmids : HaveVmids threeBackups := by decide +kernel
  have hspec := newest_by_time hvalid hstamped hvmids .unused guestGroup []
  exact ⟨by decide +kernel, hspec.1, by decide +kernel⟩

end RestoreEngine
