import RestoreEngine.Lists.Separated
import RestoreEngine.Backups.Epoch

/-!
# Backup ids

A backup id is taken apart into what it was put together from: the source, the VMID and the second
of the snapshot (`parseJobBackupRef_backupId`). So different snapshots of a source have different
backup ids and different keys in the cache of disk usages (`listed_ids`).
-/

namespace RestoreEngine

open Time Effects

variable {source : Source} {vmid : ℤ} {t : ℤ}

/-! ### Texts -/

/-- The decimal text of a number. -/
private theorem toList_toString (h : 0 ≤ t) : (toString t).toList = Nat.toDigits 10 t.toNat := by
  obtain ⟨n, rfl⟩ := Int.eq_ofNat_of_zero_le h
  exact Nat.toList_repr

private theorem toString_inj {s t : ℤ} (hs : 0 ≤ s) (ht : 0 ≤ t) (h : toString s = toString t) :
    s = t := by
  have hdigits : Nat.toDigits 10 s.toNat = Nat.toDigits 10 t.toNat := by
    rw [← toList_toString hs, ← toList_toString ht, h]
  have hnat : s.toNat = t.toNat := by
    rw [← Nat.ofDigitChars_ten_toDigits (n := s.toNat), hdigits, Nat.ofDigitChars_ten_toDigits]
  omega

/-- The text of a backup id. -/
theorem toList_backupId (vmid : ℤ) (sourceId isoTime : String) :
    (makeBackupId sourceId (makeVoltail vmid isoTime)).toList =
      sourceId.toList ++ '|' :: ('v' :: 'm' :: '/' :: ((toString vmid).toList ++
        '/' :: isoTime.toList)) := by
  have hstring : ∀ s : String, toString s = s := fun _ => rfl
  simp [makeBackupId, makeVoltail, hstring]

/-! ### Taking a backup id apart -/

/-- The text has no slash, no bar and no space. -/
def Plain (l : List Char) : Prop :=
  l ≠ [] ∧ ∀ c ∈ l, c ≠ '/' ∧ c ≠ '|' ∧ Text.isSpace c = false

private theorem plain_vmid (h : 0 < vmid) : Plain (toString vmid).toList := by
  constructor
  · rw [toList_toString (le_of_lt h)]
    exact Nat.toDigits_ne_nil
  · intro c hc
    rw [toList_toString (le_of_lt h)] at hc
    have hdigit : c.isDigit = true := Nat.isDigit_of_mem_toDigits (by omega) (by omega) hc
    refine ⟨?_, ?_, Text.isSpace_of_isDigit hdigit⟩
    · rintro rfl
      exact absurd hdigit (by decide)
    · rintro rfl
      exact absurd hdigit (by decide)

theorem plain_text (a : Stamp) : Plain a.text := by
  constructor
  · intro hnil
    have hlen := congrArg List.length hnil
    simp [Stamp.text] at hlen
  · intro c hc
    refine ⟨?_, ?_, isSpace_of_mem_text hc⟩
    · rintro rfl
      exact absurd (Stamp.mem_text hc) (by decide)
    · rintro rfl
      exact absurd (Stamp.mem_text hc) (by decide)

/-- A text has the last character of what it ends with. -/
private theorem getLast_append {l iso : List Char} (hiso : Plain iso) {c : Char}
    (hc : (l ++ iso).getLast? = some c) : c ∈ iso := by
  rw [List.getLast?_append_of_ne_nil l hiso.1] at hc
  exact List.mem_of_getLast? hc

/-- Nothing is stripped from what follows the bar. -/
private theorem strip_voltail {l iso : List Char} (hiso : Plain iso) :
    stripSlashes (Text.strip (String.ofList ('v' :: (l ++ iso)))) =
      String.ofList ('v' :: (l ++ iso)) := by
  have hstrip : Text.strip (String.ofList ('v' :: (l ++ iso))) =
      String.ofList ('v' :: (l ++ iso)) := by
    refine Text.strip_eq_self (fun c hc => ?_) fun c hc => ?_
    · rw [String.toList_ofList] at hc
      obtain rfl : 'v' = c := Option.some.inj hc
      decide
    · rw [String.toList_ofList, ← List.cons_append] at hc
      exact (hiso.2 c (getLast_append hiso hc)).2.2
  have hright : ('v' :: (l ++ iso)).reverse.dropWhile (· == '/') = ('v' :: (l ++ iso)).reverse := by
    match hlist : ('v' :: (l ++ iso)).reverse with
    | [] => rfl
    | c :: cs =>
      have hlast : ('v' :: l ++ iso).getLast? = some c := by
        rw [List.cons_append, ← List.head?_reverse, hlist, List.head?_cons]
      have hne := (hiso.2 c (getLast_append hiso hlast)).1
      rw [List.dropWhile_cons_of_neg (by simpa using hne)]
  rw [hstrip, stripSlashes, Text.rstripChar, Text.lstripChar, String.toList_ofList,
    String.toList_ofList, List.dropWhile_cons_of_neg (by decide), hright, List.reverse_reverse]

/-- The three parts of what follows the bar. -/
private theorem split_voltail {v iso : List Char} (hv : Plain v) (hiso : Plain iso) :
    (Text.split (stripSlashes (Text.strip (String.ofList ('v' :: 'm' :: '/' :: (v ++ '/' :: iso)))))
      '/').filter (· ≠ "") = ["vm", String.ofList v, String.ofList iso] := by
  have hends : 'v' :: 'm' :: '/' :: (v ++ '/' :: iso) =
      'v' :: (('m' :: '/' :: (v ++ ['/'])) ++ iso) := by
    simp
  have hcut : ('v' :: 'm' :: '/' :: (v ++ '/' :: iso)).splitOn '/' = [['v', 'm'], v, iso] := by
    have hslash : ∀ l : List Char, Plain l → ∀ c ∈ l, (c == '/') = false :=
      fun l hl c hc => by simpa using (hl.2 c hc).1
    have hvm : ∀ c ∈ ['v', 'm'], (c == '/') = false := by decide
    rw [List.splitOn_eq_splitOnP]
    change (['v', 'm'] ++ '/' :: (v ++ '/' :: iso)).splitOnP (· == '/') = _
    rw [List.splitOnP_append_cons_of_forall_mem hvm '/' (by decide),
      List.splitOnP_append_cons_of_forall_mem (hslash v hv) '/' (by decide),
      List.splitOnP_eq_singleton (hslash iso hiso)]
  have hne : ∀ l : List Char, Plain l → String.ofList l ≠ "" :=
    fun l hl hempty => hl.1 (String.ofList_injective hempty)
  rw [hends, strip_voltail hiso, ← hends, Text.split, String.toList_ofList, hcut]
  have hvm : String.ofList ['v', 'm'] = "vm" := by decide
  simp [hvm, hne v hv, hne iso hiso]

/-- A stamp with its offset spelled out. -/
private theorem withOffset_text (a : Stamp) : withOffset a.text = a.body ++ "+00:00".toList := by
  rw [withOffset, Stamp.text, if_pos List.getLast?_concat, List.dropLast_concat]

/-- **A backup id is taken apart** into the source, the VMID and the second. -/
theorem parseJobBackupRef_backupId {sourceId : String} (hbar : '|' ∉ sourceId.toList)
    (hstrip : Text.strip sourceId = sourceId) (hvmid : 0 < vmid) (ht : InRange t) :
    parseJobBackupRef (makeBackupId sourceId (makeVoltail vmid (secondText t))) =
      .ok (sourceId, toString vmid, t) := by
  have hplain := plain_text (stampOf t)
  have hv := plain_vmid hvmid
  have hvalid := stampOf_valid ht
  have hlist := toList_backupId vmid sourceId (secondText t)
  rw [secondText_eq ht, String.toList_ofList] at hlist
  rw [secondText_eq ht]
  generalize makeBackupId sourceId (makeVoltail vmid (String.ofList (stampOf t).text)) = backupId
    at hlist ⊢
  -- nothing is stripped from the id itself
  have hraw : Text.strip backupId = backupId := by
    refine Text.strip_eq_self (fun c hc => ?_) fun c hc => ?_
    · rw [hlist] at hc
      match hs : sourceId.toList with
      | [] =>
        rw [hs] at hc
        obtain rfl : '|' = c := Option.some.inj hc
        decide
      | d :: ds =>
        rw [hs] at hc
        obtain rfl : d = c := Option.some.inj hc
        exact Text.isSpace_head hstrip (hs ▸ rfl)
    · have hend : backupId.toList = (sourceId.toList ++ '|' :: 'v' :: 'm' :: '/' ::
          ((toString vmid).toList ++ ['/'])) ++ (stampOf t).text := by
        rw [hlist]
        simp
      rw [hend] at hc
      exact (hplain.2 c (getLast_append hplain hc)).2.2
  have hmem : '|' ∈ backupId.toList := by
    rw [hlist]
    exact List.mem_append_right _ List.mem_cons_self
  have hbefore : ∀ c ∈ sourceId.toList, decide (c ≠ '|') = true :=
    fun c hc => decide_eq_true fun h => hbar (h ▸ hc)
  have htake : backupId.toList.takeWhile (· ≠ '|') = sourceId.toList := by
    rw [hlist, List.takeWhile_append_of_pos hbefore, List.takeWhile_cons_of_neg (by decide),
      List.append_nil]
  have hdrop : (backupId.toList.dropWhile (· ≠ '|')).tail =
      'v' :: 'm' :: '/' :: ((toString vmid).toList ++ '/' :: (stampOf t).text) := by
    rw [hlist, List.dropWhile_append_of_pos hbefore, List.dropWhile_cons_of_neg (by decide),
      List.tail_cons]
  have hvm : Text.lower "vm" = "vm" := by decide
  rw [parseJobBackupRef]
  simp only [hraw, htake, hdrop, split_voltail hv hplain, hmem, String.ofList_toList,
    String.toList_ofList, withOffset_text, Stamp.fromIsoformat_body hvalid, hstrip, hvm,
    Stamp.timestamp_eq, seconds_stampOf ht, not_true_eq_false, if_false, ne_eq]

/-! ### The snapshots of a source -/

/-- The entry is about a snapshot of a guest, at a second. -/
structure SnapshotEntry.IsSnapshot (entry : SnapshotEntry) (vmid t : ℤ) : Prop where
  kind : Text.lower entry.backupType = "vm"
  named : Text.strip entry.backupId ≠ ""
  vmid : (entry.vmid.orElse (.text (Text.strip entry.backupId))).toInt? = some vmid
  time : entry.backupTime.toInt? = some t

/-- A snapshot has a row with its backup id. -/
theorem SnapshotEntry.IsSnapshot.row {entry : SnapshotEntry} (h : entry.IsSnapshot vmid t)
    (ht : InRange t) (source : Source) : ∃ row, snapshotRow source entry = .ok (some row) ∧
      row.backupId = makeBackupId source.sourceId (makeVoltail vmid (secondText t)) := by
  have hfirst : firstSecond ≤ t := le_trans (by decide) ht.nonneg
  have htext : epochToIsoZ entry.backupTime = .ok (secondText t) := by
    rw [epochToIsoZ, h.time]
    exact if_pos ⟨hfirst, ht.le_last⟩
  have hne : secondText t ≠ "" := by
    rw [secondText_eq ht]
    exact fun hempty => (plain_text (stampOf t)).1 (String.ofList_injective hempty)
  rw [snapshotRow, if_neg (not_or.mpr ⟨not_not.mpr h.kind, h.named⟩), h.vmid]
  simp only [htext]
  exact ⟨_, if_neg hne, rfl⟩

/-- What is listed: the rows of the entries. -/
theorem mem_listSourceBackups {payload : List SnapshotEntry} {rows : List Row}
    (h : listSourceBackups source payload = .ok rows) {row : Row} :
    row ∈ rows ↔ ∃ entry ∈ payload, snapshotRow source entry = .ok (some row) := by
  induction payload generalizing rows with
  | nil =>
    obtain rfl := Except.ok.inj h
    simp
  | cons entry rest ih =>
    obtain ⟨first, hfirst, h⟩ := of_bind_ok h
    obtain ⟨others, hothers, h⟩ := of_bind_ok h
    obtain rfl := Except.ok.inj h
    rw [List.mem_append, ih hothers]
    constructor
    · rintro (hrow | ⟨e, he, hrow⟩)
      · have hsome : first = some row := Option.mem_toList.mp hrow
        exact ⟨entry, List.mem_cons_self, hfirst.trans (congrArg _ hsome)⟩
      · exact ⟨e, List.mem_cons_of_mem _ he, hrow⟩
    · rintro ⟨e, he, hrow⟩
      rcases List.mem_cons.mp he with rfl | he
      · left
        have hsome : first = some row := Except.ok.inj (hfirst.symm.trans hrow)
        exact Option.mem_toList.mpr hsome
      · exact Or.inr ⟨e, he, hrow⟩

/-- Entries whose times a `datetime` can have are listed. -/
private theorem listSourceBackups_ok {payload : List SnapshotEntry}
    (h : ∀ entry ∈ payload, ∀ t, entry.backupTime.toInt? = some t →
      firstSecond ≤ t ∧ t ≤ lastSecond) : ∃ rows, listSourceBackups source payload = .ok rows := by
  induction payload with
  | nil => exact ⟨[], rfl⟩
  | cons entry rest ih =>
    obtain ⟨others, hothers⟩ := ih fun e he => h e (List.mem_cons_of_mem _ he)
    obtain ⟨text, htext⟩ : ∃ text, epochToIsoZ entry.backupTime = .ok text := by
      rw [epochToIsoZ]
      match htime : entry.backupTime.toInt? with
      | none => exact ⟨_, rfl⟩
      | some t => exact ⟨_, if_pos (h entry List.mem_cons_self t htime)⟩
    obtain ⟨row, hrow⟩ : ∃ row, snapshotRow source entry = .ok row := by
      rw [snapshotRow]
      simp only [htext]
      by_cases hpass : Text.lower entry.backupType ≠ "vm" ∨ Text.strip entry.backupId = ""
      · exact ⟨none, if_pos hpass⟩
      · rw [if_neg hpass]
        match (entry.vmid.orElse (.text (Text.strip entry.backupId))).toInt? with
        | none => exact ⟨none, rfl⟩
        | some vmid =>
          by_cases hempty : text = ""
          · exact ⟨none, if_pos hempty⟩
          · exact ⟨_, if_neg hempty⟩
    refine ⟨row.toList ++ others, ?_⟩
    rw [listSourceBackups, hrow, hothers]
    rfl

/-- **The cache keys of a source** tell its snapshots apart. -/
private theorem fidxUsageCacheKey_inj {sourceId : String} {v v' t t' : ℤ} (hv : 0 < v)
    (hv' : 0 < v') (ht : 0 ≤ t) (ht' : 0 ≤ t')
    (h : fidxUsageCacheKey sourceId (toString v) t = fidxUsageCacheKey sourceId (toString v') t') :
    v = v' ∧ t = t' := by
  have hstring : ∀ s : String, toString s = s := fun _ => rfl
  obtain ⟨front, hlist⟩ : ∃ front : List Char, ∀ v t : ℤ,
      (fidxUsageCacheKey sourceId (toString v) t).toList =
        front ++ '|' :: ((toString v).toList ++ '|' :: (toString t).toList) := by
    refine ⟨("restore:fidxusage:" ++ sourceId).toList, fun v t => ?_⟩
    unfold fidxUsageCacheKey
    generalize "restore:fidxusage:" = front
    simp [hstring]
  have hlists := congrArg String.toList h
  rw [hlist, hlist] at hlists
  rw [List.append_cancel_left_eq, List.cons.injEq] at hlists
  have hnobar : ∀ w : ℤ, 0 < w → '|' ∉ (toString w).toList := fun w hw hmem =>
    ((plain_vmid hw).2 '|' hmem).2.1 rfl
  obtain ⟨hvmid, htime⟩ := (Lists.join_inj (hnobar v hv) (hnobar v' hv')).mp hlists.2
  exact ⟨toString_inj (le_of_lt hv) (le_of_lt hv') (String.toList_inj.mp hvmid),
    toString_inj ht ht' (String.toList_inj.mp htime)⟩

/-- **Backup ids are readable.** Of every snapshot of a guest that a source lists, the backup id is
taken apart into the source, the VMID and the second; different snapshots have different backup
ids and different keys in the cache. -/
theorem listed_ids (hbar : '|' ∉ source.sourceId.toList)
    (hstrip : Text.strip source.sourceId = source.sourceId) (payload : List SnapshotEntry) :
    ((∀ entry ∈ payload, ∀ t, entry.backupTime.toInt? = some t →
      firstSecond ≤ t ∧ t ≤ lastSecond) → ∃ rows, listSourceBackups source payload = .ok rows) ∧
    ∀ rows, listSourceBackups source payload = .ok rows →
      (∀ entry ∈ payload, ∀ vmid t, entry.IsSnapshot vmid t → 0 < vmid → InRange t →
        ∃ row ∈ rows, snapshotRow source entry = .ok (some row) ∧
          parseJobBackupRef row.backupId = .ok (source.sourceId, toString vmid, t)) ∧
      ∀ entry ∈ payload, ∀ entry' ∈ payload, ∀ vmid t vmid' t' row row',
        entry.IsSnapshot vmid t → 0 < vmid → InRange t → entry'.IsSnapshot vmid' t' → 0 < vmid' →
        InRange t' → snapshotRow source entry = .ok (some row) →
        snapshotRow source entry' = .ok (some row') → (vmid, t) ≠ (vmid', t') →
          row.backupId ≠ row'.backupId ∧
            fidxCacheKey row.backupId ≠ fidxCacheKey row'.backupId := by
  refine ⟨listSourceBackups_ok, fun rows hlisted => ?_⟩
  have hparse : ∀ entry vmid t row, SnapshotEntry.IsSnapshot entry vmid t → 0 < vmid → InRange t →
      snapshotRow source entry = .ok (some row) →
        parseJobBackupRef row.backupId = .ok (source.sourceId, toString vmid, t) := by
    intro entry vmid t row hentry hvmid ht hrow
    obtain ⟨row', hrow', hid⟩ := hentry.row ht source
    obtain rfl : row' = row := Option.some.inj (Except.ok.inj (hrow'.symm.trans hrow))
    rw [hid]
    exact parseJobBackupRef_backupId hbar hstrip hvmid ht
  refine ⟨fun entry hmem vmid t hentry hvmid ht => ?_, ?_⟩
  · obtain ⟨row, hrow, -⟩ := hentry.row ht source
    exact ⟨row, (mem_listSourceBackups hlisted).mpr ⟨entry, hmem, hrow⟩, hrow,
      hparse entry vmid t row hentry hvmid ht hrow⟩
  · intro entry _ entry' _ vmid t vmid' t' row row' hentry hvmid ht hentry' hvmid' ht' hrow hrow' hne
    have hread := hparse entry vmid t row hentry hvmid ht hrow
    have hread' := hparse entry' vmid' t' row' hentry' hvmid' ht' hrow'
    constructor
    · intro hsame
      rw [hsame, hread'] at hread
      have hparts := Prod.mk.inj (Prod.mk.inj (Except.ok.inj hread)).2
      have hid := toString_inj (le_of_lt hvmid) (le_of_lt hvmid') hparts.1.symm
      exact hne (Prod.ext hid hparts.2.symm)
    · intro hsame
      rw [fidxCacheKey, fidxCacheKey, hread, hread'] at hsame
      have hkeys : fidxUsageCacheKey source.sourceId (toString vmid) t =
          fidxUsageCacheKey source.sourceId (toString vmid') t' := Except.ok.inj hsame
      obtain ⟨hv, htime⟩ := fidxUsageCacheKey_inj hvmid hvmid' ht.nonneg ht'.nonneg hkeys
      exact hne (Prod.ext hv htime)

/-- A source with its answer: two snapshots of a guest, one of them on a leap day. -/
private def leapSource : Source where
  sourceId := "main/idrija4tb/root"
  serverId := "main"
  label := "main · idrija4tb"
  host := "pbs"
  port := 8007
  verifySsl := true
  apiTokenId := ""
  apiTokenSecret := ""
  user := ""
  password := ""
  datastore := "idrija4tb"
  ns := ""
  pveStorage := "pbs-main"

private def leapAnswer : List SnapshotEntry :=
  [{ backupType := "vm", backupId := "109", backupTime := .number 1709164800 },
   { backupType := "vm", backupId := "109", backupTime := .number 1786093566 }]

/-- The ids of the two snapshots. -/
theorem listed_ids_leap : ∃ rows, listSourceBackups leapSource leapAnswer = .ok rows ∧
    rows.map (fun row => parseJobBackupRef row.backupId) =
      [.ok ("main/idrija4tb/root", "109", 1709164800),
       .ok ("main/idrija4tb/root", "109", 1786093566)] ∧
    ∃ row ∈ rows, parseJobBackupRef row.backupId =
      .ok ("main/idrija4tb/root", toString (109 : ℤ), 1709164800) := by
  have hbar : '|' ∉ leapSource.sourceId.toList := by decide
  have hstrip : Text.strip leapSource.sourceId = leapSource.sourceId := by decide
  obtain ⟨hreturns, hids⟩ := listed_ids hbar hstrip leapAnswer
  obtain ⟨rows, hrows⟩ := hreturns (by decide)
  refine ⟨rows, hrows, ?_, ?_⟩
  · have hall : (listSourceBackups leapSource leapAnswer).toOption.map
        (·.map fun row => parseJobBackupRef row.backupId) =
          some [.ok ("main/idrija4tb/root", "109", 1709164800),
            .ok ("main/idrija4tb/root", "109", 1786093566)] := by decide +kernel
    rw [hrows] at hall
    exact Option.some.inj hall
  · obtain ⟨row, hrow, -, hparse⟩ := (hids rows hrows).1
      { backupType := "vm", backupId := "109", backupTime := .number 1709164800 }
      List.mem_cons_self 109 1709164800 ⟨by decide, by decide, by decide, by decide⟩ (by decide)
      (by decide)
    exact ⟨row, hrow, hparse⟩

end RestoreEngine
