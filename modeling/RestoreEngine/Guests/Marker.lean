import Mathlib.Algebra.Order.BigOperators.Group.List
import Mathlib.Algebra.Order.Group.Nat
import RestoreEngine.Guests.Config
import RestoreEngine.Lists.Unseen
import RestoreEngine.Texts.Lines

/-!
# The ownership marker

What `mark_qemu_managed_by_tool` does to the tags and the description of a guest. The tags go
through a filter that was made for something else: a tag that looks like a UUID, or that differs
from an earlier one in case only, is dropped. From a description that mentions the tool every line
that mentions it is dropped, and every blank one. `stamped_iff` tells when nothing is lost.
-/

namespace RestoreEngine

open Effects Prog Program

variable {cfg : GuestConfig} {tags seen : List String} {t t' tag raw : String}

/-! ### Tags -/

/-- The tags of a guest, as Proxmox reads them: separated by semicolons or commas. -/
def configTags (cfg : GuestConfig) : List String :=
  let text := (cfg.lookup "tags").getD ""
  let text := String.ofList (text.toList.map fun c => if c = ',' then ';' else c)
  ((Text.split text ';').map Text.strip).filter (· ≠ "")

/-- **Tags that survive the filter**: it keeps each of them, and no two differ in case only. -/
structure TagsReady (cfg : GuestConfig) : Prop where
  kept : ∀ t ∈ configTags cfg, sanitizeTagToken t = some t
  apart : ∀ t ∈ configTags cfg, ∀ t' ∈ configTags cfg, Text.lower t = Text.lower t' → t = t'

private theorem sanitizeTagToken_strip (tag : String) :
    sanitizeTagToken (Text.strip tag) = sanitizeTagToken tag := by
  unfold sanitizeTagToken
  rw [Text.strip_strip]

private theorem sanitizeTagToken_eq_some (h : sanitizeTagToken tag = some t) :
    t = Text.strip tag ∧ t ≠ "" ∧ sanitizeTagToken t = some t := by
  have heq : t = Text.strip tag ∧ t ≠ "" := by
    unfold sanitizeTagToken at h
    dsimp only at h
    split_ifs at h with hblank
    obtain rfl := Option.some.inj h
    exact ⟨rfl, hblank⟩
  exact ⟨heq.1, heq.2, by rw [heq.1, sanitizeTagToken_strip, h, heq.1]⟩

private theorem dedupTags_eq (seen tags : List String) :
    dedupTags seen tags = Lists.keepUnseen Text.lower seen tags := by
  induction tags generalizing seen with
  | nil => rfl
  | cons tag tags ih =>
    rw [dedupTags, Lists.keepUnseen]
    exact if_congr Iff.rfl (ih _) (congrArg _ (ih _))

private theorem mem_of_mem_dedupTags (h : t ∈ dedupTags seen tags) : t ∈ tags :=
  (Lists.keepUnseen_sublist Text.lower seen tags).subset (dedupTags_eq seen tags ▸ h)

/-- Tags that are read back as they are. -/
private structure CleanTags (tags : List String) : Prop where
  kept : ∀ t ∈ tags, sanitizeTagToken t = some t
  plain : ∀ t ∈ tags, ',' ∉ t.toList ∧ ';' ∉ t.toList
  apart : (tags.map Text.lower).Nodup

/-- The pieces that the tags are read from. -/
private def tagPieces (raw : String) : List String :=
  Text.split (String.ofList (raw.toList.map fun c => if c = ',' then ';' else c)) ';'

private theorem plain_of_mem_tagPieces (h : tag ∈ tagPieces raw) :
    ',' ∉ tag.toList ∧ ';' ∉ tag.toList := by
  refine ⟨fun hcomma => ?_, Text.not_mem_of_mem_split h⟩
  have hmem := Text.mem_of_mem_split h hcomma
  rw [String.toList_ofList, List.mem_map] at hmem
  obtain ⟨c, -, hc⟩ := hmem
  split_ifs at hc with heq
  · exact absurd hc (by decide)
  · exact heq hc

private theorem configTags_eq (h : (cfg.lookup "tags").getD "" = raw) :
    configTags cfg = ((tagPieces raw).map Text.strip).filter (· ≠ "") := by
  rw [configTags, h]
  rfl

private theorem qemuTagsFromConfig_eq (h : (cfg.lookup "tags").getD "" = raw) :
    qemuTagsFromConfig cfg = dedupTags [] ((tagPieces raw).filterMap sanitizeTagToken) := by
  rw [qemuTagsFromConfig]
  cases hlookup : cfg.lookup "tags" with
  | none =>
    rw [hlookup] at h
    rw [← h]
    decide
  | some raw' =>
    rw [hlookup] at h
    rw [← h]
    rfl

/-- The tags that survive are clean. -/
private theorem cleanTags_qemuTags (cfg : GuestConfig) : CleanTags (qemuTagsFromConfig cfg) := by
  rw [qemuTagsFromConfig_eq rfl]
  have hpiece : ∀ t ∈ dedupTags [] ((tagPieces ((cfg.lookup "tags").getD "")).filterMap
      sanitizeTagToken), ∃ p ∈ tagPieces ((cfg.lookup "tags").getD ""),
      sanitizeTagToken p = some t := fun t ht => List.mem_filterMap.mp (mem_of_mem_dedupTags ht)
  refine ⟨fun t ht => ?_, fun t ht => ?_, ?_⟩
  · obtain ⟨p, -, hp⟩ := hpiece t ht
    exact (sanitizeTagToken_eq_some hp).2.2
  · obtain ⟨p, hmem, hp⟩ := hpiece t ht
    obtain ⟨rfl, -, -⟩ := sanitizeTagToken_eq_some hp
    have hplain := plain_of_mem_tagPieces hmem
    exact hplain.imp (fun h hc => h (Text.mem_of_mem_strip hc)) fun h hc =>
      h (Text.mem_of_mem_strip hc)
  · rw [dedupTags_eq]
    exact Lists.nodup_keepUnseen _ _ _

/-- They are tags of the guest. -/
private theorem mem_configTags (h : t ∈ qemuTagsFromConfig cfg) : t ∈ configTags cfg := by
  rw [qemuTagsFromConfig_eq rfl] at h
  obtain ⟨p, hmem, hp⟩ := List.mem_filterMap.mp (mem_of_mem_dedupTags h)
  obtain ⟨rfl, hne, -⟩ := sanitizeTagToken_eq_some hp
  rw [configTags_eq rfl]
  exact List.mem_filter.mpr ⟨List.mem_map_of_mem hmem, decide_eq_true hne⟩

/-- A tag of the guest that the filter keeps survives, up to case. -/
private theorem exists_mem_qemuTags (h : t ∈ configTags cfg) (hkept : sanitizeTagToken t = some t) :
    ∃ t' ∈ qemuTagsFromConfig cfg, Text.lower t' = Text.lower t := by
  rw [configTags_eq rfl] at h
  obtain ⟨p, hmem, rfl⟩ := List.mem_map.mp (List.mem_filter.mp h).1
  rw [sanitizeTagToken_strip] at hkept
  rw [qemuTagsFromConfig_eq rfl, dedupTags_eq]
  exact (Lists.exists_mem_keepUnseen (List.mem_filterMap.mpr ⟨p, hmem, hkept⟩)).resolve_left
    List.not_mem_nil

/-- **Clean tags** are read back as they are written. -/
private theorem CleanTags.read_back (h : CleanTags tags) (hne : tags ≠ [])
    (hcfg : cfg.lookup "tags" = some (Text.join ";" tags)) :
    qemuTagsFromConfig cfg = tags ∧ configTags cfg = tags := by
  have hraw : (cfg.lookup "tags").getD "" = Text.join ";" tags := by rw [hcfg, Option.getD_some]
  have hpieces : tagPieces (Text.join ";" tags) = tags := by
    rw [tagPieces]
    have hcomma : ',' ∉ (Text.join ";" tags).toList := by
      intro hmem
      -- neither the separator nor a tag has a comma
      rcases Text.mem_join hmem with hsep | ⟨t, ht, hc⟩
      · exact absurd hsep (by decide)
      · exact (h.plain t ht).1 hc
    have hmap : (Text.join ";" tags).toList.map (fun c => if c = ',' then ';' else c) =
        (Text.join ";" tags).toList := by
      refine (List.map_congr_left (g := id) fun c hc => if_neg ?_).trans (List.map_id _)
      rintro rfl
      exact hcomma hc
    rw [hmap, String.ofList_toList]
    exact Text.split_join rfl hne fun t ht => (h.plain t ht).2
  constructor
  · rw [qemuTagsFromConfig_eq hraw, hpieces,
      List.filterMap_congr (g := some) fun t ht => h.kept t ht, List.filterMap_some]
    rw [dedupTags_eq]
    exact Lists.keepUnseen_eq_self h.apart fun t _ => List.not_mem_nil
  · rw [configTags_eq hraw, hpieces]
    have hstrip : ∀ t ∈ tags, Text.strip t = t ∧ t ≠ "" := fun t ht =>
      (sanitizeTagToken_eq_some (h.kept t ht)).imp Eq.symm And.left
    rw [List.map_congr_left (g := id) fun t ht => (hstrip t ht).1, List.map_id]
    exact List.filter_eq_self.mpr fun t ht => decide_eq_true (hstrip t ht).2

/-! ### The tags afterwards -/

/-- The tags that the guest is stamped with. -/
private def stampedTags (cfg : GuestConfig) : List String :=
  let tags := qemuTagsFromConfig cfg
  if managedTag ∉ tags ∧ Text.lower managedTag ∉ tags.map Text.lower then tags ++ [managedTag]
  else tags

private theorem managed_stampedTags (cfg : GuestConfig) :
    Text.lower managedTag ∈ (stampedTags cfg).map Text.lower := by
  rw [stampedTags]
  split_ifs with h
  · exact List.mem_map_of_mem (List.mem_append_right _ List.mem_cons_self)
  · by_contra hnot
    exact h ⟨fun hmem => hnot (List.mem_map_of_mem hmem), hnot⟩

private theorem stampedTags_ne_nil (cfg : GuestConfig) : stampedTags cfg ≠ [] := by
  intro h
  have hmem := managed_stampedTags cfg
  rw [h] at hmem
  exact List.not_mem_nil hmem

private theorem cleanTags_stampedTags (cfg : GuestConfig) : CleanTags (stampedTags cfg) := by
  have hclean := cleanTags_qemuTags cfg
  rw [stampedTags]
  split_ifs with h
  · refine ⟨List.forall_mem_append.mpr ⟨hclean.kept, ?_⟩,
      List.forall_mem_append.mpr ⟨hclean.plain, ?_⟩, ?_⟩
    · rw [List.forall_mem_singleton]
      decide
    · rw [List.forall_mem_singleton]
      decide
    · rw [List.map_append, List.map_singleton]
      exact List.Nodup.append hclean.apart (List.nodup_singleton _)
        (List.disjoint_singleton.mpr h.2)
  · exact hclean

/-- Tags that carry the marker are stamped with what they are. -/
private theorem stampedTags_eq_self (h : Text.lower managedTag ∈ (qemuTagsFromConfig cfg).map
    Text.lower) : stampedTags cfg = qemuTagsFromConfig cfg := by
  rw [stampedTags]
  exact if_neg fun hnot => hnot.2 h

/-- **No tag is lost** exactly when the tags survive the filter. -/
private theorem stampedTags_iff (cfg : GuestConfig) :
    (∀ t ∈ configTags cfg, t ∈ stampedTags cfg) ↔ TagsReady cfg := by
  have hclean := cleanTags_stampedTags cfg
  constructor
  · intro hall
    refine ⟨fun t ht => hclean.kept t (hall t ht), fun t ht t' ht' heq => ?_⟩
    exact List.inj_on_of_nodup_map hclean.apart (hall t ht) (hall t' ht') heq
  · intro hready t ht
    obtain ⟨t', ht', heq⟩ := exists_mem_qemuTags ht (hready.kept t ht)
    obtain rfl := hready.apart t' (mem_configTags ht') t ht heq
    rw [stampedTags]
    split_ifs
    · exact List.mem_append_left _ ht'
    · exact ht'

/-! ### Descriptions -/

/-- The lines of a description. A newline at its end begins no further line. -/
def descriptionLines (desc : String) : List String :=
  let pieces := Text.split desc '\n'
  if pieces.getLast? = some "" then pieces.dropLast else pieces

/-- An ownership marker: `restore-engine:job=…;run=…`. -/
def isMarkerLine (line : String) : Bool :=
  Text.startsWith line "restore-engine:job=" && Text.contains line ";run="

/-- The lines of a description other than ownership markers. -/
def ownLines (desc : String) : List String := (descriptionLines desc).filter (!isMarkerLine ·)

/-- **Descriptions that survive**: no line but markers mentions the tool, none is blank, and there
is no space at the ends of the description, unless it follows a marker. -/
structure DescriptionReady (desc : String) : Prop where
  clear : ∀ l ∈ ownLines desc, Text.contains l managedDescMarker = false
  filled : ∀ l ∈ ownLines desc, l ≠ ""
  start : ∀ l, (ownLines desc).head? = some l → ∀ c, l.toList.head? = some c →
    Text.isSpace c = false
  finish : ∀ l, (descriptionLines desc).getLast? = some l → isMarkerLine l = false →
    ∀ c, l.toList.getLast? = some c → Text.isSpace c = false

/-- The marker of a job and a run. -/
private def markerLine (jobId : Uuid) (planRunId : Option Uuid) : String :=
  let run := match planRunId with | some r => toString r | none => "-"
  s!"{managedDescMarker}job={jobId};run={run}"

/-- The description that the guest is stamped with. -/
private def stampedDescription (desc : String) (jobId : Uuid) (planRunId : Option Uuid) : String :=
  let marker := markerLine jobId planRunId
  let desc := Text.strip desc
  if Text.contains desc managedDescMarker then
    let parts := (Text.split desc '\n').filter fun p => !Text.contains p managedDescMarker
    Text.strip (Text.join "\n" ((parts ++ [marker]).filter (· ≠ "")))
  else if desc = "" then marker
  else Text.strip (desc ++ "\n" ++ marker)

variable {jobId : Uuid} {planRunId : Option Uuid} {desc : String}

private theorem markerChanges_eq (cfg : GuestConfig) (jobId : Uuid) (planRunId : Option Uuid) :
    markerChanges cfg jobId planRunId = [("tags", Text.join ";" (stampedTags cfg)),
      ("description", stampedDescription ((cfg.lookup "description").getD "") jobId planRunId)] := by
  unfold markerChanges stampedTags stampedDescription markerLine
  rfl

private theorem toList_markerLine (jobId : Uuid) (planRunId : Option Uuid) :
    ∃ run : String, (∀ c ∈ run.toList, Text.isSpace c = false) ∧
      (markerLine jobId planRunId).toList = "restore-engine:job=".toList ++
        (Nat.toDigits 10 jobId ++ (";run=".toList ++ run.toList)) := by
  have hrepr : ∀ n : ℕ, (toString n).toList = Nat.toDigits 10 n := fun n => by
    rw [Nat.toString_eq_repr, Nat.repr, String.toList_ofList]
  refine ⟨match planRunId with | some r => toString r | none => "-", ?_, ?_⟩
  · cases planRunId with
    | some r =>
      intro c hc
      rw [hrepr] at hc
      exact Text.isSpace_of_isDigit (Nat.isDigit_of_mem_toDigits (by omega) (by omega) hc)
    | none => decide
  · have heq : markerLine jobId planRunId = "restore-engine:" ++ "job=" ++ toString jobId ++
        ";run=" ++ (match planRunId with | some r => toString r | none => "-") := rfl
    have hmark : "restore-engine:job=".toList = "restore-engine:".toList ++ "job=".toList := by
      decide
    rw [heq, hmark, ← hrepr]
    simp only [String.toList_append, List.append_assoc]

private theorem isSpace_of_mem_markerLine {c : Char} (h : c ∈ (markerLine jobId planRunId).toList) :
    Text.isSpace c = false := by
  obtain ⟨run, hrun, heq⟩ := toList_markerLine jobId planRunId
  rw [heq, List.mem_append, List.mem_append, List.mem_append] at h
  have hword : ∀ c ∈ "restore-engine:job=".toList ++ ";run=".toList, Text.isSpace c = false := by
    decide
  rcases h with h | h | h | h
  · exact hword c (List.mem_append_left _ h)
  · exact Text.isSpace_of_isDigit (Nat.isDigit_of_mem_toDigits (by omega) (by omega) h)
  · exact hword c (List.mem_append_right _ h)
  · exact hrun c h

private theorem isMarkerLine_markerLine (jobId : Uuid) (planRunId : Option Uuid) :
    isMarkerLine (markerLine jobId planRunId) = true := by
  obtain ⟨run, -, heq⟩ := toList_markerLine jobId planRunId
  rw [isMarkerLine, Bool.and_eq_true, Text.startsWith_iff, Text.contains_iff, heq]
  refine ⟨List.prefix_append _ _, ?_⟩
  rw [← List.append_assoc, ← List.append_assoc]
  exact List.infix_append _ _ _

/-- A marker mentions the tool. -/
private theorem contains_of_isMarkerLine {line : String} (h : isMarkerLine line = true) :
    Text.contains line managedDescMarker = true := by
  rw [isMarkerLine, Bool.and_eq_true, Text.startsWith_iff] at h
  have hpre : managedDescMarker.toList <+: "restore-engine:job=".toList := by decide
  exact Text.contains_iff.mpr (hpre.trans h.1).isInfix

private theorem ne_of_isMarkerLine {line : String} (h : isMarkerLine line = true) : line ≠ "" := by
  rintro rfl
  exact absurd h (by decide)

private theorem newline_notMem_markerLine : '\n' ∉ (markerLine jobId planRunId).toList :=
  fun h => absurd (isSpace_of_mem_markerLine h) (by decide)

private theorem strip_markerLine :
    Text.strip (markerLine jobId planRunId) = markerLine jobId planRunId :=
  Text.strip_eq_self (fun _ hc => isSpace_of_mem_markerLine (List.mem_of_head? hc))
    fun _ hc => isSpace_of_mem_markerLine (List.mem_of_getLast? hc)

private theorem space_notMem_marker (c : Char) (h : Text.isSpace c = true) :
    c ∉ managedDescMarker.toList := by
  have hall : ∀ c ∈ managedDescMarker.toList, Text.isSpace c = false := by decide
  exact fun hmem => absurd h ((Bool.not_eq_true _).mpr (hall c hmem))

/-- The lines of the description that the marker is put behind. -/
private def keptLines (desc : String) : List String :=
  let pieces := (Text.split (Text.strip desc) '\n').filter fun p =>
    !Text.contains p managedDescMarker
  if Text.contains (Text.strip desc) managedDescMarker then pieces.filter (· ≠ "") else pieces

private theorem stampedDescription_eq (desc : String) (jobId : Uuid) (planRunId : Option Uuid) :
    stampedDescription desc jobId planRunId =
      Text.strip (Text.join "\n" (keptLines desc ++ [markerLine jobId planRunId])) := by
  have hmarker := isMarkerLine_markerLine jobId planRunId
  rw [stampedDescription, keptLines]
  generalize Text.strip desc = s
  dsimp only
  by_cases hmention : Text.contains s managedDescMarker = true
  · rw [if_pos hmention, if_pos hmention, List.filter_append, List.filter_singleton,
      decide_eq_true (ne_of_isMarkerLine hmarker), cond_true]
  · -- no line mentions the tool
    have hall : (Text.split s '\n').filter (fun p => !Text.contains p managedDescMarker) =
        Text.split s '\n' := by
      refine List.filter_eq_self.mpr fun p hp => ?_
      rw [Bool.not_eq_true', ← Bool.not_eq_true]
      exact fun hin => hmention ((Text.contains_iff_split (by decide)).mpr ⟨p, hp, hin⟩)
    rw [if_neg hmention, if_neg hmention, hall, Text.join_append_singleton _ (Text.split_ne_nil _ _),
      Text.join_split rfl]
    split_ifs with hblank
    · subst hblank
      rw [← String.toList_inj, Text.toList_strip, String.toList_append, String.toList_append]
      change _ = Text.trimmed ('\n' :: (markerLine jobId planRunId).toList)
      rw [Text.trimmed, List.dropWhile_cons_of_pos rfl, ← Text.trimmed, ← Text.toList_strip,
        strip_markerLine]
    · rfl

private theorem weight_marker (s : String) : Text.weight managedDescMarker.toList s.toList =
    (((Text.split s '\n').filter fun p => !Text.contains p managedDescMarker).map
      String.length).sum := by
  rw [Text.weight_eq, String.ofList_toList]

/-- **The lines afterwards**: some that do not mention the tool, then the marker. -/
private theorem split_stampedDescription (desc : String) (jobId : Uuid) (planRunId : Option Uuid) :
    ∃ rest, Text.split (stampedDescription desc jobId planRunId) '\n' =
        rest ++ [markerLine jobId planRunId] ∧
      (∀ q ∈ rest, Text.contains q managedDescMarker = false) ∧
      (Text.contains (Text.strip desc) managedDescMarker = true → ∀ q ∈ rest, q ≠ "") ∧
      (∀ q, rest.head? = some q → ∀ c, q.toList.head? = some c → Text.isSpace c = false) ∧
      (rest.map String.length).sum ≤
        Text.weight managedDescMarker.toList (Text.strip desc).toList := by
  have hmarker := isMarkerLine_markerLine jobId planRunId
  have hkept : ∀ p ∈ keptLines desc, p ∈ Text.split (Text.strip desc) '\n' ∧
      Text.contains p managedDescMarker = false := by
    intro p hp
    rw [keptLines] at hp
    split_ifs at hp
    · have h := List.mem_filter.mp (List.mem_filter.mp hp).1
      exact ⟨h.1, by simpa using h.2⟩
    · have h := List.mem_filter.mp hp
      exact ⟨h.1, by simpa using h.2⟩
  obtain ⟨rest, hrest, hsuffix, hfilled, hstart⟩ := Text.split_strip_join newline_notMem_markerLine
    strip_markerLine (ne_of_isMarkerLine hmarker)
    fun p hp => Text.not_mem_of_mem_split (hkept p hp).1
  rw [← stampedDescription_eq] at hrest
  have hclear : ∀ q ∈ rest, Text.contains q managedDescMarker = false := by
    intro q hq
    obtain ⟨p, hp, hpq⟩ := hsuffix q hq
    rw [← Bool.not_eq_true]
    intro h
    exact absurd (Text.contains_iff.mpr ((Text.contains_iff.mp h).trans hpq.isInfix))
      ((Bool.not_eq_true _).mpr (hkept p hp).2)
  refine ⟨rest, hrest, hclear, fun hmention => hfilled fun p hp => ?_, hstart, ?_⟩
  · rw [keptLines, if_pos hmention] at hp
    exact of_decide_eq_true (List.mem_filter.mp hp).2
  · have hclearLines : ∀ lines : List String, (∀ p ∈ lines, Text.contains p managedDescMarker =
        false) → (lines ++ [markerLine jobId planRunId]).filter
          (fun p => !Text.contains p managedDescMarker) = lines := by
      intro lines hlines
      rw [List.filter_append, List.filter_singleton, contains_of_isMarkerLine hmarker,
        List.filter_eq_self.mpr fun p hp => by rw [hlines p hp]; rfl]
      exact List.append_nil lines
    calc (rest.map String.length).sum
        = Text.weight managedDescMarker.toList
            (stampedDescription desc jobId planRunId).toList := by
          rw [weight_marker, hrest, hclearLines rest hclear]
      _ ≤ Text.weight managedDescMarker.toList
            (Text.join "\n" (keptLines desc ++ [markerLine jobId planRunId])).toList := by
          rw [stampedDescription_eq, Text.toList_strip]
          exact Text.weight_trimmed_le space_notMem_marker _
      _ = ((keptLines desc).map String.length).sum := by
          have hpieces : ∀ p ∈ keptLines desc ++ [markerLine jobId planRunId],
              '\n' ∉ p.toList :=
            List.forall_mem_append.mpr ⟨fun p hp => Text.not_mem_of_mem_split (hkept p hp).1,
              List.forall_mem_singleton.mpr newline_notMem_markerLine⟩
          rw [weight_marker, Text.split_join rfl
            (List.append_ne_nil_of_right_ne_nil _ (List.cons_ne_nil _ _)) hpieces,
            hclearLines _ fun p hp => (hkept p hp).2]
      _ ≤ Text.weight managedDescMarker.toList (Text.strip desc).toList := by
          rw [weight_marker, keptLines]
          split_ifs
          · exact List.Sublist.sum_le_sum (List.filter_sublist.map _) fun _ _ => Nat.zero_le _
          · exact le_rfl

private theorem split_eq (desc : String) : Text.split desc '\n' = descriptionLines desc ∨
    Text.split desc '\n' = descriptionLines desc ++ [""] := by
  rw [descriptionLines]
  split_ifs with h
  · right
    obtain ⟨pieces, hpieces⟩ := List.getLast?_eq_some_iff.mp h
    rw [hpieces, List.dropLast_concat]
  · exact .inl rfl

/-- The last line afterwards is the marker. -/
private theorem descriptionLines_eq {rest : List String}
    (h : Text.split desc '\n' = rest ++ [markerLine jobId planRunId]) :
    descriptionLines desc = rest ++ [markerLine jobId planRunId] := by
  rw [descriptionLines, h, List.getLast?_concat, if_neg]
  exact fun heq => ne_of_isMarkerLine (isMarkerLine_markerLine jobId planRunId)
    (Option.some.inj heq)

/-- Lines that mention the tool before it was stamped are gone, so own lines do not. -/
private theorem sublist_of_sublist_concat {lines rest : List String}
    (hlines : ∀ l ∈ lines, isMarkerLine l = false)
    (h : lines.Sublist (rest ++ [markerLine jobId planRunId])) : lines.Sublist rest := by
  obtain ⟨l₁, l₂, rfl, h₁, h₂⟩ := List.sublist_append_iff.mp h
  cases l₂ with
  | nil => rwa [List.append_nil]
  | cons l l₂ =>
    obtain rfl := List.mem_singleton.mp (h₂.subset List.mem_cons_self)
    exact absurd (isMarkerLine_markerLine jobId planRunId)
      ((Bool.not_eq_true _).mpr (hlines _ (List.mem_append_right _ List.mem_cons_self)))

private theorem eq_of_sublist {lines lines' : List String} (h : lines.Sublist lines')
    (hfilled : ∀ q ∈ lines', q ≠ "")
    (hsum : (lines'.map String.length).sum ≤ (lines.map String.length).sum) : lines = lines' := by
  induction h with
  | slnil => rfl
  | @cons lines lines' q h ih =>
    -- a dropped line has characters
    have hle := List.Sublist.sum_le_sum (h.map String.length) fun _ _ => Nat.zero_le _
    have hq : q.length ≠ 0 := fun hq =>
      hfilled q List.mem_cons_self (String.length_eq_zero_iff.mp hq)
    rw [List.map_cons, List.sum_cons] at hsum
    omega
  | @cons_cons lines lines' q h ih =>
    rw [List.map_cons, List.map_cons, List.sum_cons, List.sum_cons] at hsum
    rw [ih (fun q hq => hfilled q (List.mem_cons_of_mem _ hq)) (by omega)]

private theorem isMarkerLine_of_mem_ownLines {l : String} (h : l ∈ ownLines desc) :
    isMarkerLine l = false := by
  simpa using (List.mem_filter.mp h).2

/-- Own lines are the lines that do not mention the tool, if none of them does. -/
private theorem filter_clear_eq
    (hclear : ∀ l ∈ ownLines desc, Text.contains l managedDescMarker = false)
    {lines : List String} (hlines : ∀ l ∈ lines, l ∈ descriptionLines desc) :
    lines.filter (fun l => !Text.contains l managedDescMarker) = lines.filter (!isMarkerLine ·) := by
  refine List.filter_congr fun l hl => ?_
  cases hmarker : isMarkerLine l with
  | true => rw [contains_of_isMarkerLine hmarker]
  | false =>
    rw [hclear l (List.mem_filter.mpr ⟨hlines l hl, by rw [hmarker]; rfl⟩)]

private theorem weight_ownLines
    (hclear : ∀ l ∈ ownLines desc, Text.contains l managedDescMarker = false) :
    Text.weight managedDescMarker.toList desc.toList = ((ownLines desc).map String.length).sum := by
  have hlines := filter_clear_eq hclear fun l hl => hl
  rw [weight_marker]
  rcases split_eq desc with h | h
  · rw [h, hlines, ownLines]
  · have hblank : ([""].filter fun l => !Text.contains l managedDescMarker) = [""] := by decide
    rw [h, List.filter_append, hlines, hblank, List.map_append, List.sum_append]
    exact Nat.add_zero _

/-- The description that a stamp leaves mentions the tool. -/
private theorem contains_stampedDescription (desc : String) (jobId : Uuid)
    (planRunId : Option Uuid) : Text.contains
      (Text.strip (stampedDescription desc jobId planRunId)) managedDescMarker = true := by
  have hself : Text.strip (stampedDescription desc jobId planRunId) =
      stampedDescription desc jobId planRunId := by
    rw [stampedDescription_eq, Text.strip_strip]
  obtain ⟨rest, hrest, -⟩ := split_stampedDescription desc jobId planRunId
  rw [hself, Text.contains_iff_split (c := '\n') (by decide), hrest]
  exact ⟨_, List.mem_append_right _ List.mem_cons_self,
    contains_of_isMarkerLine (isMarkerLine_markerLine jobId planRunId)⟩

/-- **Descriptions that lose nothing** are ready for the stamp. -/
private theorem descriptionReady_of
    (hlines : (ownLines desc).Sublist (descriptionLines (stampedDescription desc jobId planRunId)))
    (hagain : stampedDescription (stampedDescription desc jobId planRunId) jobId planRunId =
      stampedDescription desc jobId planRunId) : DescriptionReady desc := by
  obtain ⟨rest, hrest, hclear, -, hstart, hweight⟩ := split_stampedDescription desc jobId planRunId
  rw [descriptionLines_eq hrest] at hlines
  have hsub := sublist_of_sublist_concat (fun l => isMarkerLine_of_mem_ownLines) hlines
  -- what is stamped twice has no blank line
  have hfilled : ∀ q ∈ rest, q ≠ "" := by
    obtain ⟨rest', hrest', -, hfilled, -⟩ :=
      split_stampedDescription (stampedDescription desc jobId planRunId) jobId planRunId
    rw [hagain, hrest] at hrest'
    rw [(List.append_inj' hrest' rfl).1]
    exact hfilled (contains_stampedDescription desc jobId planRunId)
  have hown : ∀ l ∈ ownLines desc, Text.contains l managedDescMarker = false :=
    fun l hl => hclear l (hsub.subset hl)
  have hstrip : Text.weight managedDescMarker.toList (Text.strip desc).toList ≤
      Text.weight managedDescMarker.toList desc.toList := by
    rw [Text.toList_strip]
    exact Text.weight_trimmed_le space_notMem_marker _
  have heq : ownLines desc = rest :=
    eq_of_sublist hsub hfilled ((hweight.trans hstrip).trans (weight_ownLines hown).le)
  refine ⟨hown, heq ▸ hfilled, heq ▸ hstart, fun l hl hmarker c hc => ?_⟩
  by_contra hspace
  rw [Bool.not_eq_false] at hspace
  obtain ⟨others, hothers⟩ := List.getLast?_eq_some_iff.mp hl
  have hmem : l ∈ ownLines desc := List.mem_filter.mpr
    ⟨hothers ▸ List.mem_append_right _ List.mem_cons_self, by rw [hmarker]; rfl⟩
  have hclearLast := hown l hmem
  rw [← String.ofList_toList (s := managedDescMarker)] at hclearLast
  have hlt := Text.weight_strip_lt space_notMem_marker (hothers ▸ split_eq desc) hc hspace hclearLast
  have hle := hweight.trans_lt (hlt.trans_eq (weight_ownLines hown))
  rw [heq] at hle
  exact lt_irrefl _ hle

/-- The first line of a description that is ready. -/
private theorem DescriptionReady.first (h : DescriptionReady desc) {first : String}
    (hfirst : (descriptionLines desc).head? = some first) :
    first ≠ "" ∧ ∀ c, first.toList.head? = some c → Text.isSpace c = false := by
  obtain ⟨lines, hlines⟩ := List.head?_eq_some_iff.mp hfirst
  cases hmarker : isMarkerLine first with
  | true =>
    refine ⟨ne_of_isMarkerLine hmarker, fun c hc => ?_⟩
    rw [isMarkerLine, Bool.and_eq_true, Text.startsWith_iff] at hmarker
    obtain ⟨tail, htail⟩ := hmarker.1
    rw [← htail] at hc
    obtain rfl : 'r' = c := Option.some.inj hc
    rfl
  | false =>
    have hown : (ownLines desc).head? = some first := by
      rw [ownLines, hlines, List.filter_cons_of_pos (by rw [hmarker]; rfl), List.head?_cons]
    exact ⟨h.filled first (List.mem_of_head? hown), h.start first hown⟩

/-- The last line of a description that is ready is not blank. -/
private theorem DescriptionReady.last (h : DescriptionReady desc) {last : String}
    (hlast : (descriptionLines desc).getLast? = some last) :
    ∃ c ∈ last.toList, Text.isSpace c = false := by
  obtain ⟨lines, hlines⟩ := List.getLast?_eq_some_iff.mp hlast
  cases hmarker : isMarkerLine last with
  | true =>
    rw [isMarkerLine, Bool.and_eq_true, Text.startsWith_iff] at hmarker
    exact ⟨'r', hmarker.1.subset (by decide), rfl⟩
  | false =>
    have hown : last ∈ ownLines desc := List.mem_filter.mpr
      ⟨hlines ▸ List.mem_append_right _ List.mem_cons_self, by rw [hmarker]; rfl⟩
    have hne : last.toList ≠ [] := fun hnil => h.filled last hown (String.toList_inj.mp hnil)
    exact ⟨_, List.getLast_mem hne,
      h.finish last hlast hmarker _ (List.getLast?_eq_some_getLast hne)⟩

/-- The marker of an earlier stamp is the one line that does not stay. -/
private theorem keptLines_of_ready (h : DescriptionReady desc) (hne : descriptionLines desc ≠ []) :
    keptLines desc = ownLines desc := by
  obtain ⟨first, tail, hfirst⟩ := List.exists_cons_of_ne_nil hne
  have hlast := List.getLast?_eq_some_getLast hne
  obtain ⟨others, hothers⟩ := List.getLast?_eq_some_iff.mp hlast
  generalize (descriptionLines desc).getLast hne = last at hlast hothers
  have hhead := h.first (by rw [hfirst, List.head?_cons])
  have hstart : ∀ c, desc.toList.head? = some c → Text.isSpace c = false := by
    intro c hc
    have hjoin : Text.join "\n" (Text.split desc '\n') = desc := Text.join_split rfl desc
    rw [← hjoin] at hc
    rcases split_eq desc with hsplit | hsplit
    · rw [hsplit, hfirst, Text.head?_join _ hhead.1] at hc
      exact hhead.2 c hc
    · rw [hsplit, hfirst, List.cons_append, Text.head?_join _ hhead.1] at hc
      exact hhead.2 c hc
  obtain ⟨last', hsplit, hsame, hown⟩ :=
    Text.split_strip (hothers ▸ split_eq desc) (h.last hlast) hstart
  have hfilter : (Text.split (Text.strip desc) '\n').filter
      (fun p => !Text.contains p managedDescMarker) = ownLines desc := by
    have hend : [last'].filter (fun p => !Text.contains p managedDescMarker) =
        [last].filter (!isMarkerLine ·) := by
      -- of the last line only a marker loses spaces
      cases hmarker : isMarkerLine last with
      | true =>
        rw [List.filter_singleton, List.filter_singleton, hsame _ space_notMem_marker,
          contains_of_isMarkerLine hmarker, hmarker]
        rfl
      | false =>
        rw [hown (h.finish last hlast hmarker)]
        exact filter_clear_eq h.clear fun l hl => hothers ▸ List.mem_append_right _ hl
    rw [hsplit, ownLines, hothers, List.filter_append, List.filter_append, hend,
      filter_clear_eq h.clear fun l hl => hothers ▸ List.mem_append_left _ hl]
  rw [keptLines]
  split_ifs
  · rw [hfilter]
    exact List.filter_eq_self.mpr fun l hl => decide_eq_true (h.filled l hl)
  · exact hfilter

/-- **A description that is ready** keeps its own lines, and the marker comes behind them. -/
private theorem split_of_ready (h : DescriptionReady desc) (jobId : Uuid)
    (planRunId : Option Uuid) : Text.split (stampedDescription desc jobId planRunId) '\n' =
      ownLines desc ++ [markerLine jobId planRunId] := by
  have hmarker := isMarkerLine_markerLine jobId planRunId
  by_cases hlines : descriptionLines desc = []
  · have hdesc : desc = "" := by
      rcases split_eq desc with hsplit | hsplit
      · exact absurd (hsplit.trans hlines) (Text.split_ne_nil _ _)
      · have hjoin : Text.join "\n" (Text.split desc '\n') = desc := Text.join_split rfl desc
        rw [← hjoin, hsplit, hlines]
        rfl
    have hstamped : stampedDescription desc jobId planRunId = markerLine jobId planRunId := by
      rw [hdesc]
      rfl
    rw [hstamped, Text.split_of_not_mem newline_notMem_markerLine, ownLines, hlines]
    rfl
  · have hpieces : ∀ l ∈ ownLines desc ++ [markerLine jobId planRunId], '\n' ∉ l.toList := by
      refine List.forall_mem_append.mpr ⟨fun l hl => ?_,
        List.forall_mem_singleton.mpr newline_notMem_markerLine⟩
      have hmem := (List.mem_filter.mp hl).1
      rcases split_eq desc with hsplit | hsplit
      · exact Text.not_mem_of_mem_split (hsplit ▸ hmem)
      · exact Text.not_mem_of_mem_split (hsplit ▸ List.mem_append_left _ hmem)
    rw [stampedDescription_eq, keptLines_of_ready h hlines, Text.strip_eq_self,
      Text.split_join rfl (List.append_ne_nil_of_right_ne_nil _ (List.cons_ne_nil _ _)) hpieces]
    · intro c hc
      cases hown : ownLines desc with
      | nil =>
        rw [hown] at hc
        exact isSpace_of_mem_markerLine (List.mem_of_head? hc)
      | cons l lines =>
        rw [hown, List.cons_append, Text.head?_join _ (h.filled l (hown ▸ List.mem_cons_self))] at hc
        exact h.start l (by rw [hown, List.head?_cons]) c hc
    · intro c hc
      rw [Text.getLast?_join _ _ (ne_of_isMarkerLine hmarker)] at hc
      exact isSpace_of_mem_markerLine (List.mem_of_getLast? hc)

/-- **A description that is ready** is stamped once. -/
private theorem stamped_again (h : DescriptionReady desc) (jobId : Uuid)
    (planRunId : Option Uuid) :
    stampedDescription (stampedDescription desc jobId planRunId) jobId planRunId =
      stampedDescription desc jobId planRunId := by
  have hmarker := isMarkerLine_markerLine jobId planRunId
  have hsplit := split_of_ready h jobId planRunId
  have hown : ownLines (stampedDescription desc jobId planRunId) = ownLines desc := by
    rw [ownLines, descriptionLines_eq hsplit, List.filter_append, List.filter_singleton, hmarker,
      List.filter_eq_self.mpr fun l hl => by rw [isMarkerLine_of_mem_ownLines hl]; rfl]
    exact List.append_nil _
  have hready : DescriptionReady (stampedDescription desc jobId planRunId) := by
    refine ⟨by rw [hown]; exact h.clear, by rw [hown]; exact h.filled,
      by rw [hown]; exact h.start, fun l hl hnot => ?_⟩
    rw [descriptionLines_eq hsplit, List.getLast?_concat] at hl
    rw [← Option.some.inj hl, hmarker] at hnot
    cases hnot
  have hagain := split_of_ready hready jobId planRunId
  rw [hown, ← hsplit] at hagain
  have hjoin := congrArg (Text.join "\n") hagain
  rwa [Text.join_split rfl, Text.join_split rfl] at hjoin

/-! ### The stamp -/

variable {w w' : World} {px : Client} {node : String} {v : ℤ} {g g' : Guest}

/-- The options that a stamp leaves. -/
private theorem lookup_marked (cfg : GuestConfig) (jobId : Uuid) (planRunId : Option Uuid)
    (key : String) : (World.putOptions cfg (markerChanges cfg jobId planRunId)).lookup key =
      if key = "tags" then some (Text.join ";" (stampedTags cfg))
      else if key = "description" then
        some (stampedDescription ((cfg.lookup "description").getD "") jobId planRunId)
      else cfg.lookup key := by
  have hnodup : ["tags", "description"].Nodup := by decide
  have hkeyed : ∀ tags desc : String,
      GuestConfig.Keyed [("tags", tags), ("description", desc)] := fun _ _ => hnodup
  rw [markerChanges_eq, lookup_putOptions (hkeyed _ _), List.lookup_cons]
  split_ifs with htags hdesc
  · rw [htags, beq_self_eq_true, Option.some_or]
  · rw [beq_false_of_ne htags, List.lookup_cons, hdesc, beq_self_eq_true, Option.some_or]
  · rw [beq_false_of_ne htags, List.lookup_cons, beq_false_of_ne hdesc, List.lookup_nil,
      Option.none_or]

/-- **A stamp that succeeds** has changed the configuration of the guest. -/
private theorem markQemuManagedByTool_ok
    (h : Ends environment (markQemuManagedByTool px node v jobId planRunId) w (.ok ()) w') :
    ∃ g, w.qemuAt (Text.strip node) v = some g ∧
      w' = w.configure v g (World.putOptions g.config (markerChanges g.config jobId planRunId)) := by
  rcases ends_bind.mp h with ⟨cfg, w₁, hread, h⟩ | ⟨e, he, -⟩
  swap
  · cases he
  obtain ⟨rfl, g, hg, rfl⟩ := getQemuConfig_ok hread
  obtain ⟨g', hg', rfl⟩ := putQemuConfig_ok h
  obtain rfl := Option.some.inj (hg.symm.trans hg')
  exact ⟨g, hg, rfl⟩

/-- A guest can be stamped. -/
private theorem ends_markQemuManagedByTool (px : Client) (hg : w.qemuAt (Text.strip node) v = some g)
    (jobId : Uuid) (planRunId : Option Uuid) :
    Ends environment (markQemuManagedByTool px node v jobId planRunId) w (.ok ())
      (w.configure v g (World.putOptions g.config (markerChanges g.config jobId planRunId))) := by
  have hanswer : ∀ effect : Guest → Except Exn GuestConfig × World,
      onGuest w (Text.strip node) v .ok effect = effect g := fun effect => by
    simp only [onGuest, hg]
  have hanswer' : ∀ effect : Guest → Except Exn Unit × World,
      onGuest w (Text.strip node) v .ok effect = effect g := fun effect => by
    simp only [onGuest, hg]
  refine ends_bind.mpr (.inl ⟨g.config, w, ?_, ?_⟩)
  · exact .call (c := .ok) (congrArg some (hanswer _)) (.ret _ _)
  · exact .call (c := .ok) (congrArg some (hanswer' _)) (.ret _ _)

/-- **What a stamp should leave**: the guest is marked, it has its tags and its own lines, and
stamping it again changes no option. -/
structure StampKeeps (px : Client) (node : String) (v : ℤ) (jobId : Uuid) (planRunId : Option Uuid)
    (before after : GuestConfig) (w' : World) : Prop where
  managed : w'.Marked v (Text.strip node)
  tags : ∀ t ∈ configTags before, t ∈ configTags after
  lines : (ownLines ((before.lookup "description").getD "")).Sublist
    (descriptionLines ((after.lookup "description").getD ""))
  again : ∀ w'' g'', Ends environment (markQemuManagedByTool px node v jobId planRunId) w' (.ok ())
    w'' → w''.qemuAt (Text.strip node) v = some g'' →
    ∀ key, g''.config.lookup key = after.lookup key

/-- **When a stamp loses nothing**: exactly if the tags survive its filter, and the description
what it does to lines. -/
theorem stamped_iff (hg : w.qemuAt (Text.strip node) v = some g)
    (h : Ends environment (markQemuManagedByTool px node v jobId planRunId) w (.ok ()) w') :
    ∃ g', w'.qemuAt (Text.strip node) v = some g' ∧
      (StampKeeps px node v jobId planRunId g.config g'.config w' ↔
        TagsReady g.config ∧ DescriptionReady ((g.config.lookup "description").getD "")) := by
  obtain ⟨g₁, hg₁, rfl⟩ := markQemuManagedByTool_ok h
  obtain rfl := Option.some.inj (hg.symm.trans hg₁)
  have hg' := World.qemuAt_configure hg
    (World.putOptions g.config (markerChanges g.config jobId planRunId))
  refine ⟨_, hg', ?_⟩
  have hlookup := lookup_marked g.config jobId planRunId
  generalize World.putOptions g.config (markerChanges g.config jobId planRunId) = after
    at hlookup hg' ⊢
  generalize hdesc : (g.config.lookup "description").getD "" = desc at hlookup
  -- the tags and the description afterwards
  have htags : qemuTagsFromConfig after = stampedTags g.config ∧
      configTags after = stampedTags g.config :=
    (cleanTags_stampedTags g.config).read_back (stampedTags_ne_nil g.config)
      ((hlookup "tags").trans (if_pos rfl))
  have hafter : (after.lookup "description").getD "" =
      stampedDescription desc jobId planRunId := by
    rw [hlookup, if_neg (by decide), if_pos rfl, Option.getD_some]
  have hmanaged : Text.lower managedTag ∈ (qemuTagsFromConfig after).map Text.lower :=
    htags.1 ▸ managed_stampedTags g.config
  -- the options after another stamp
  have hagain : ∀ key, (World.putOptions after (markerChanges after jobId planRunId)).lookup key =
      if key = "description" then
        some (stampedDescription (stampedDescription desc jobId planRunId) jobId planRunId)
      else after.lookup key := by
    intro key
    rw [lookup_marked, stampedTags_eq_self hmanaged, htags.1, hafter]
    split_ifs with h₁ h₂ h₂
    · exact absurd (h₁.symm.trans h₂) (by decide)
    · rw [hlookup, if_pos h₁]
    · rfl
    · rfl
  constructor
  · intro hkeeps
    have hsame := hkeeps.again _ _ (ends_markQemuManagedByTool px hg' jobId planRunId)
      (World.qemuAt_configure hg' _) "description"
    rw [hagain, if_pos rfl, hlookup, if_neg (by decide), if_pos rfl] at hsame
    refine ⟨(stampedTags_iff g.config).mp fun t ht => htags.2 ▸ hkeeps.tags t ht, ?_⟩
    have hlines := hkeeps.lines
    rw [hdesc, hafter] at hlines
    exact descriptionReady_of hlines (Option.some.inj hsame)
  · rintro ⟨htagsReady, hready⟩
    have hsplit := split_of_ready hready jobId planRunId
    refine ⟨⟨_, hg', ?_⟩, fun t ht => ?_, ?_, fun w'' g'' hrun hg'' key => ?_⟩
    · rw [carriesMarker, Bool.or_eq_true, List.contains_iff_mem]
      exact .inl hmanaged
    · rw [htags.2]
      exact (stampedTags_iff g.config).mpr htagsReady t ht
    · rw [hafter, hdesc, descriptionLines_eq hsplit]
      exact List.sublist_append_left _ _
    · obtain ⟨g₂, hg₂, rfl⟩ := markQemuManagedByTool_ok hrun
      obtain rfl := Option.some.inj (hg'.symm.trans hg₂)
      obtain rfl := Option.some.inj ((World.qemuAt_configure hg' _).symm.trans hg'')
      refine (hagain key).trans ?_
      rw [stamped_again hready, hlookup]
      split_ifs with h₁ h₂ h₂
      · exact absurd (h₂.symm.trans h₁) (by decide)
      all_goals rfl

/-- A world with one guest. -/
private def oneGuest (cfg : GuestConfig) : World :=
  { guests := (∅ : AList _).insert 100 { kind := .qemu, node := "pve", config := cfg } }

private theorem oneGuest_guest (cfg : GuestConfig) :
    (oneGuest cfg).qemuAt (Text.strip "pve") 100 =
      some { kind := .qemu, node := "pve", config := cfg } := by
  have hnode : Text.strip "pve" = "pve" := by decide
  rw [hnode]
  rfl

/-- A guest with two tags and one line keeps them. -/
theorem stamped_iff_plain :
    ∃ w' g', w'.qemuAt (Text.strip "pve") 100 = some g' ∧
      StampKeeps (.job 0) "pve" 100 0 (some 1) [("tags", "web;db"), ("description", "Lab")] g'.config
        w' := by
  obtain ⟨g', hg', hiff⟩ := stamped_iff (oneGuest_guest _) (ends_markQemuManagedByTool (.job 0)
    (oneGuest_guest [("tags", "web;db"), ("description", "Lab")]) 0 (some 1))
  have htags : configTags [("tags", "web;db"), ("description", "Lab")] = ["web", "db"] := by
    decide
  have hlines : descriptionLines "Lab" = ["Lab"] ∧ ownLines "Lab" = ["Lab"] := by decide
  refine ⟨_, g', hg', hiff.mpr ⟨⟨?_, ?_⟩, ?_⟩⟩
  · rw [htags]
    decide
  · rw [htags]
    decide
  · change DescriptionReady "Lab"
    refine ⟨?_, ?_, fun l hl c hc => ?_, fun l hl _ c hc => ?_⟩
    · rw [hlines.2]
      decide
    · rw [hlines.2]
      decide
    · rw [hlines.2] at hl
      obtain rfl := Option.some.inj hl
      obtain rfl : 'L' = c := Option.some.inj hc
      decide
    · rw [hlines.1] at hl
      obtain rfl := Option.some.inj hl
      obtain rfl : 'b' = c := Option.some.inj hc
      decide

/-- A tag as Proxmox allows it. -/
def isPveTag (tag : String) : Bool :=
  match tag.toList with
  | [] => false
  | c :: cs => (c.isAlphanum || c == '_') && cs.all fun d => d.isAlphanum || d ∈ ['_', '-', '+', '.']

/-- **A tag is lost**: one that looks like a UUID. -/
theorem stamp_drops_tag : ¬ ∀ (w w' : World) (px : Client) (node : String) (v : ℤ) (g : Guest)
    (jobId : Uuid) (planRunId : Option Uuid), w.qemuAt (Text.strip node) v = some g →
    (∀ t ∈ configTags g.config, isPveTag t = true) →
    Ends environment (markQemuManagedByTool px node v jobId planRunId) w (.ok ()) w' →
    ∃ g', w'.qemuAt (Text.strip node) v = some g' ∧
      StampKeeps px node v jobId planRunId g.config g'.config w' := by
  intro h
  have hg := oneGuest_guest [("tags", "123e4567-e89b-12d3-a456-426614174000")]
  obtain ⟨g', hg', hkeeps⟩ := h _ _ (.job 0) "pve" 100 _ 0 none hg (by decide)
    (ends_markQemuManagedByTool (.job 0) hg 0 none)
  obtain rfl := Option.some.inj ((World.qemuAt_configure hg _).symm.trans hg')
  exact absurd (hkeeps.tags "123e4567-e89b-12d3-a456-426614174000" (by decide)) (by decide)

end RestoreEngine
