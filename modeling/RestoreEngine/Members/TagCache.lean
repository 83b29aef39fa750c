import RestoreEngine.Effects.Pool
import RestoreEngine.Model.TagCache
import RestoreEngine.Texts.Lines
import RestoreEngine.Texts.Split

/-!
# The cache of tags loses nothing

What `parse_tags` returns are tags without separators, none of them empty (`parseTags_clean`), so
that the joint text splits into them again (`splitCached_join`). However the calls that resolve tags
take turns, what is read back from the cache is what was stored (`kept_of_reachable`). A call that
finds the tags in the cache comes to the same as the one that read them (`tagCache_lossless`).
-/

namespace RestoreEngine.Tags

open Effects Program

variable {lower : String → String} {tags seen : List String} {tag : String} {l : List Char}
  {w w' v : TagWorld} {A : Replies → Prop} {texts : String → String} {rows : List Row}
  {node : String}

/-! ### What `parse_tags` returns -/

/-- **Clean tags**: none is empty or holds a separator, and no two differ in case only. -/
structure Clean (lower : String → String) (tags : List String) : Prop where
  filled : ∀ tag ∈ tags, tag ≠ ""
  plain : ∀ tag ∈ tags, ';' ∉ tag.toList ∧ ',' ∉ tag.toList
  apart : (tags.map lower).Nodup

theorem Clean.nil : Clean lower [] :=
  ⟨fun _ h => absurd h List.not_mem_nil, fun _ h => absurd h List.not_mem_nil, List.nodup_nil⟩

/-- The pieces between runs of separators hold none. -/
private theorem sep_of_mem_splitRuns {sep : Char → Bool} {inRun : Bool} {piece : List Char}
    (h : piece ∈ splitRuns sep inRun l) : ∀ c ∈ piece, sep c = false := by
  induction l generalizing inRun piece with
  | nil =>
    rw [splitRuns, List.mem_singleton] at h
    rw [h]
    exact fun c hc => absurd hc List.not_mem_nil
  | cons d rest ih =>
    rw [splitRuns] at h
    split_ifs at h with hsep hin
    · exact ih h
    · rcases List.mem_cons.mp h with rfl | h
      · exact fun c hc => absurd hc List.not_mem_nil
      · exact ih h
    · cases hrest : splitRuns sep false rest with
      | nil => rw [hrest] at h; exact absurd h List.not_mem_nil
      | cons first others =>
        rw [hrest, List.modifyHead_cons, List.mem_cons] at h
        rcases h with rfl | h
        · intro c hc
          rcases List.mem_cons.mp hc with rfl | hc
          · exact Bool.eq_false_iff.mpr hsep
          · exact ih (hrest ▸ List.mem_cons_self) c hc
        · exact ih (hrest ▸ List.mem_cons_of_mem _ h)

private theorem sanitizeTagToken_eq_some {part : String}
    (h : sanitizeTagToken lower part = some tag) : tag = Text.strip part ∧ tag ≠ "" := by
  unfold sanitizeTagToken at h
  dsimp only at h
  split_ifs at h with hblank
  obtain rfl := Option.some.inj h
  exact ⟨rfl, hblank⟩

/-- **`parse_tags` returns clean tags**, whatever the text is. -/
theorem parseTags_clean (lower : String → String) (text : String) :
    Clean lower (parseTags lower text) := by
  rw [parseTags]
  split
  · exact Clean.nil
  · next found _ =>
    have hparts : ∀ tag ∈ Lists.keepUnseen lower [] (((splitRuns isSeparator false
        (rawTags found)).map String.ofList).filterMap (sanitizeTagToken lower)),
        tag ≠ "" ∧ ∀ c ∈ tag.toList, isSeparator c = false := by
      intro tag htag
      obtain ⟨part, hpart, hsome⟩ := List.mem_filterMap.mp
        ((Lists.keepUnseen_sublist _ _ _).subset htag)
      obtain ⟨piece, hpiece, rfl⟩ := List.mem_map.mp hpart
      obtain ⟨rfl, hfilled⟩ := sanitizeTagToken_eq_some hsome
      refine ⟨hfilled, fun c hc => sep_of_mem_splitRuns hpiece c ?_⟩
      rw [← String.toList_ofList (l := piece)]
      exact Text.mem_of_mem_strip hc
    refine ⟨fun tag htag => (hparts tag htag).1, fun tag htag => ?_,
      Lists.nodup_keepUnseen _ _ _⟩
    have hsep := (hparts tag htag).2
    exact ⟨fun hmem => absurd (hsep _ hmem) (by decide),
      fun hmem => absurd (hsep _ hmem) (by decide)⟩

/-- **Clean tags are read back** from the text that they are joined to. -/
theorem splitCached_join (h : Clean lower tags) : splitCached (Text.join ";" tags) = tags := by
  rw [splitCached]
  by_cases hnil : tags = []
  · rw [hnil]
    decide
  · rw [Text.split_join rfl hnil fun tag htag => (h.plain tag htag).1, List.filter_eq_self]
    exact fun tag htag => decide_eq_true (h.filled tag htag)

/-! ### Calls that take turns -/

/-- **The cache reads back**: each text splits into the list that it was made from. -/
def TagWorld.ReadsBack (w : TagWorld) : Prop :=
  ∀ volid, (w.cache volid).map splitCached = w.stored volid

theorem TagWorld.stored_set_self (w : TagWorld) (volid : String) (tags : List String) :
    (w.set volid tags).stored volid = some tags := Function.update_self _ _ _

theorem TagWorld.stored_set_of_ne {volid other : String} (h : other ≠ volid) :
    (w.set volid tags).stored other = w.stored other := Function.update_of_ne h _ _

/-- Clean tags may be stored. -/
theorem TagWorld.ReadsBack.set (h : w.ReadsBack) (volid : String) (htags : Clean lower tags) :
    (w.set volid tags).ReadsBack := by
  intro other
  by_cases hother : other = volid
  · subst hother
    simp only [TagWorld.set, Function.update_self, Option.map_some, splitCached_join htags]
  · simp only [TagWorld.set, Function.update_of_ne hother]
    exact h other

/-- What a call has read of which archive: a text, or nothing, without being told why. -/
abbrev Reads := List (String × Option String)

/-- A call stores the tags of a text that it has read, or none if there was no text. -/
def protocol (lower : String → String) : Protocol tagSig Reads where
  observe
    | reads, .extractVmConfig _ volid, .ok text => (volid, some text) :: reads
    | reads, .extractVmConfig _ volid, .error exc =>
      if exc.text = "" then (volid, none) :: reads else reads
    | reads, .getCached _, _ | reads, .setCached _ _, _ | reads, .connectProxmox, _ => reads
  Permits
    | reads, .setCached volid tags =>
      ∃ read, (volid, read) ∈ reads ∧ tags = (read.map (parseTags lower)).getD []
    | _, .getCached _ | _, .connectProxmox | _, .extractVmConfig _ _ => True

variable {reads : Reads}

private theorem satisfies_tagCall {σ α : Type} {B : Machine tagSig σ} {Q : Except Exn α → σ → Prop}
    {s : σ} {o : TagOp} {k : o.Res → TagProg α} (hpermits : B.Permits s o)
    (hk : ∀ r s', B.Moves s o r s' → (k r).Satisfies B Q s') :
    (tagCall o >>= k).Satisfies B Q s := by
  refine satisfies_bind.mpr ((satisfies_perform (S := tagSig)).mpr ⟨hpermits, ?_⟩)
  exact fun r s' hmoves => then_ok.mpr (hk r s' hmoves)

private theorem resolveTagsCached_onProtocol (rows : List Row) (found : Found) (reads : Reads) :
    (resolveTagsCached lower node rows found).Satisfies (protocol lower).machine
      (fun _ _ => True) reads := by
  induction rows generalizing found reads with
  | nil => exact satisfies_ret.mpr trivial
  | cons row rows ih =>
    rw [resolveTagsCached]
    split
    · exact ih _ _
    · refine satisfies_tagCall trivial fun cached _ _ => ?_
      rcases cached with - | cached
      · refine satisfies_tagCall trivial fun config reads' hreads => ?_
        rcases config with exc | text
        · exact ih _ _
        · -- the tags are those of the text that was just read
          obtain rfl : reads' = _ := hreads
          exact satisfies_tagCall ⟨some text, List.mem_cons_self, rfl⟩ fun _ _ _ => ih _ _
      · exact ih _ _

private theorem lookUpTags_onProtocol {force : Bool} (rows : List Row) (result : TagMap)
    (pending : List (Row × String)) (reads : Reads) :
    (lookUpTags force rows result pending).Satisfies (protocol lower).machine
      (fun _ _ => True) reads := by
  induction rows generalizing result pending reads with
  | nil => exact satisfies_ret.mpr trivial
  | cons row rows ih =>
    rw [lookUpTags]
    split
    · exact satisfies_raise.mpr trivial
    · refine Satisfies.ite (fun _ => ih _ _ _) fun _ => ?_
      refine satisfies_tagCall trivial fun cached _ _ => ?_
      rcases cached with - | cached
      · exact ih _ _ _
      · exact ih _ _ _

private theorem fetchTags_onProtocol (pending : List (Row × String)) (found : Found)
    (reads : Reads) : (fetchTags lower node pending found).Satisfies (protocol lower).machine
      (fun _ _ => True) reads := by
  induction pending generalizing found reads with
  | nil => exact satisfies_ret.mpr trivial
  | cons entry pending ih =>
    rw [fetchTags]
    refine satisfies_tagCall trivial fun fetched reads' hreads => ?_
    refine Satisfies.ite (fun _ => ih _ _) fun herr => ?_
    refine satisfies_tagCall ?_ fun _ _ _ => ih _ _
    obtain rfl : reads' = _ := hreads
    rcases fetched with exc | text
    · -- the exception has no text
      have hblank : exc.text = "" := not_not.mp herr
      refine ⟨none, ?_, rfl⟩
      simp [protocol, hblank]
    · exact ⟨some text, List.mem_cons_self, rfl⟩

private theorem attachTags_onProtocol (rows : List Row) (reads : Reads) :
    (attachTags rows).Satisfies (protocol lower).machine (fun _ _ => True) reads := by
  induction rows generalizing reads with
  | nil => exact satisfies_ret.mpr trivial
  | cons row rows ih =>
    rw [attachTags]
    split
    · exact satisfies_ret.mpr trivial
    · refine satisfies_tagCall trivial fun cached _ _ => ?_
      exact (ih _).bind (fun _ _ _ => satisfies_ret.mpr trivial) fun _ _ _ => trivial

/-- **Every call keeps to the protocol**: it stores the tags of what it has read. -/
theorem TagCall.onProtocol (call : TagCall) (reads : Reads) :
    (call.program lower).Satisfies (protocol lower).machine (fun _ _ => True) reads := by
  cases call with
  | resolveTags node force rows =>
    refine Satisfies.bind (R := fun _ _ => True) ?_ (fun _ _ _ => satisfies_ret.mpr trivial)
      fun _ _ _ => trivial
    refine (lookUpTags_onProtocol rows [] [] reads).bind (fun looked _ _ => ?_) fun _ _ _ => trivial
    refine Satisfies.ite (fun _ => satisfies_ret.mpr trivial) fun _ => ?_
    refine satisfies_tagCall trivial fun connected _ _ => ?_
    refine Satisfies.bind (R := fun _ _ => True) (satisfies_ofExcept.mpr trivial) (fun _ _ _ => ?_)
      fun _ _ _ => trivial
    exact fetchTags_onProtocol _ _ _
  | resolveTagsCached node rows =>
    exact (resolveTagsCached_onProtocol rows _ reads).bind
      (fun _ _ _ => satisfies_ret.mpr trivial) fun _ _ _ => trivial
  | listBackups rows =>
    exact (attachTags_onProtocol rows reads).bind
      (fun _ _ _ => satisfies_ret.mpr trivial) fun _ _ _ => trivial

variable {ι : Type} [DecidableEq ι]

/-- Calls that are about to run, with an empty cache. -/
def start (lower : String → String) (calls : ι → TagCall) : Pool tagSig Exn TagWorld Reads ι where
  world := {}
  proc i := (calls i).program lower
  view _ := []

/-- The cache reads back, and each list in it is that of a text that was read, or an empty one. -/
structure Kept (lower : String → String) (w : TagWorld) (views : ι → Reads) : Prop where
  readsBack : w.ReadsBack
  read : ∀ volid tags, w.stored volid = some tags → ∃ i read, (volid, read) ∈ views i ∧
    tags = (read.map (parseTags lower)).getD []

/-- What was read stays read. -/
private theorem observe_subset (reads : Reads) (o : TagOp) (r : o.Res) :
    reads ⊆ (protocol lower).observe reads o r := by
  rcases o with volid | ⟨volid, tags⟩ | - | ⟨node, volid⟩
  · exact List.Subset.refl _
  · exact List.Subset.refl _
  · exact List.Subset.refl _
  · rcases r with exc | text
    · simp only [protocol]
      split_ifs
      · exact List.subset_cons_self _ _
      · exact List.Subset.refl _
    · exact List.subset_cons_self _ _

private theorem views_subset (views : ι → Reads) (i j : ι) (o : TagOp) (r : o.Res) :
    views j ⊆ Function.update views i ((protocol lower).observe (views i) o r) j := by
  by_cases hj : j = i
  · subst hj
    rw [Function.update_self]
    exact observe_subset _ _ _
  · rw [Function.update_of_ne hj]
    exact List.Subset.refl _

/-- One call of the protocol keeps the cache in order. -/
private theorem Kept.step {views : ι → Reads} {i : ι} {o : TagOp} {px : {px : Replies // A px}}
    {r : o.Res} (h : Kept lower w views) (hpermits : (protocol lower).Permits (views i) o)
    (hmove : tagEnv A o px w = some (r, w')) :
    Kept lower w' (Function.update views i ((protocol lower).observe (views i) o r)) := by
  have hread : ∀ volid tags, w.stored volid = some tags → ∃ j read,
      (volid, read) ∈ Function.update views i ((protocol lower).observe (views i) o r) j ∧
        tags = (read.map (parseTags lower)).getD [] := by
    intro volid tags hstored
    obtain ⟨j, read, hmem, htags⟩ := h.read volid tags hstored
    exact ⟨j, read, views_subset views i j o r hmem, htags⟩
  rcases o with volid | ⟨volid, tags⟩ | - | ⟨node, volid⟩
  · cases hmove
    exact ⟨h.readsBack, hread⟩
  · cases hmove
    obtain ⟨read, hmem, htags⟩ := hpermits
    have hclean : Clean lower tags := by
      rw [htags]
      cases read with
      | none => exact Clean.nil
      | some text => exact parseTags_clean lower text
    refine ⟨h.readsBack.set volid hclean, fun other tags' hstored => ?_⟩
    by_cases hother : other = volid
    · subst hother
      rw [w.stored_set_self, Option.some.injEq] at hstored
      exact ⟨i, read, views_subset views i i _ _ hmem, hstored ▸ htags⟩
    · rw [TagWorld.stored_set_of_ne hother] at hstored
      exact hread other tags' hstored
  · cases hmove
    exact ⟨h.readsBack, hread⟩
  · cases hmove
    exact ⟨h.readsBack, hread⟩

/-- **However the calls take turns**, the cache reads back, and holds tags of what was read. -/
theorem kept_of_reachable {calls : ι → TagCall} {c : Pool tagSig Exn TagWorld Reads ι}
    (h : Reachable (tagEnv A) (protocol lower) (fun _ _ _ _ _ => True) (start lower calls) c) :
    Kept lower c.world c.view := by
  refine h.invariant (Kept lower) (Q := fun _ _ => True) (fun i => (calls i).onProtocol []) ?_ ?_
  · exact ⟨fun _ => rfl, fun _ _ hstored => nomatch hstored⟩
  · intro w views i o px r w' hkept hpermits hmove _
    exact hkept.step hpermits hmove

/-! ### Reading and finding again -/

/-- The rows whose archives have names, with the names. -/
def namedRows (rows : List Row) : List (Row × String) :=
  rows.filterMap fun row => (archivePath row.pveStorage row.voltail).toOption.map (row, ·)

/-- The tags in the texts that are stored in the archives of the rows. -/
def tagsOfTexts (lower : String → String) (texts : String → String) (named : List (Row × String)) :
    TagMap := (named.map fun p => (p.1.backupId, parseTags lower (texts p.2))).reverse

/-- Proxmox is there and answers with these texts. -/
structure Replies.Give (px : Replies) (texts : String → String) : Prop where
  connect : px.connect = .ok ()
  config : ∀ node volid, px.config node volid = .ok (texts volid)

/-- The tags of the text of an archive are in the cache. -/
def TagWorld.Holds (lower : String → String) (texts : String → String) (w : TagWorld)
    (volid : String) : Prop := w.stored volid = some (parseTags lower (texts volid))

/-- The tags of the archives are in the cache, and what was there of these texts still is. -/
structure Stores (lower : String → String) (texts : String → String) (named : List (Row × String))
    (w w' : TagWorld) : Prop where
  readsBack : w'.ReadsBack
  rows : ∀ p ∈ named, w'.Holds lower texts p.2
  keeps : ∀ volid, w.Holds lower texts volid → w'.Holds lower texts volid

theorem namedRows_cons_of_error {row : Row} {exc : Exn}
    (h : archivePath row.pveStorage row.voltail = .error exc) (rows : List Row) :
    namedRows (row :: rows) = namedRows rows :=
  List.filterMap_cons_none (by rw [h]; rfl)

theorem namedRows_cons_of_ok {row : Row} {volid : String}
    (h : archivePath row.pveStorage row.voltail = .ok volid) (rows : List Row) :
    namedRows (row :: rows) = (row, volid) :: namedRows rows :=
  List.filterMap_cons_some (by rw [h]; rfl)

theorem tagsOfTexts_cons (row : Row) (volid : String) (named : List (Row × String)) :
    tagsOfTexts lower texts ((row, volid) :: named) =
      tagsOfTexts lower texts named ++ [(row.backupId, parseTags lower (texts volid))] := by
  rw [tagsOfTexts, List.map_cons, List.reverse_cons]
  rfl

namespace Stores

theorem refl (hw : w.ReadsBack) : Stores lower texts [] w w :=
  ⟨hw, fun _ h => absurd h List.not_mem_nil, fun _ h => h⟩

/-- One archive more. -/
theorem cons {w₁ : TagWorld} {row : Row} {volid : String} {named : List (Row × String)}
    (h : Stores lower texts named w₁ w') (hvolid : w₁.Holds lower texts volid)
    (hkeeps : ∀ other, w.Holds lower texts other → w₁.Holds lower texts other) :
    Stores lower texts ((row, volid) :: named) w w' := by
  refine ⟨h.readsBack, fun p hp => ?_, fun other hother => h.keeps other (hkeeps other hother)⟩
  rcases List.mem_cons.mp hp with rfl | hp
  · exact h.keeps volid hvolid
  · exact h.rows p hp

end Stores

theorem TagWorld.holds_set (w : TagWorld) (volid : String) :
    (w.set volid (parseTags lower (texts volid))).Holds lower texts volid :=
  w.stored_set_self volid _

theorem TagWorld.Holds.set {volid other : String} (h : w.Holds lower texts other) :
    (w.set volid (parseTags lower (texts volid))).Holds lower texts other := by
  by_cases hother : other = volid
  · subst hother
    exact w.holds_set other
  · rw [Holds, stored_set_of_ne hother]
    exact h

section calls

variable {α : Type} {Q : Except Exn α → TagWorld → Prop} {volid : String}

private theorem satisfies_getCached {k : Option String → TagProg α}
    (h : (k (w.cache volid)).Satisfies (tagEnv A).machine Q w) :
    (tagCall (.getCached volid) >>= k).Satisfies (tagEnv A).machine Q w := by
  refine satisfies_tagCall trivial fun r w' ⟨px, hmove⟩ => ?_
  cases hmove
  exact h

private theorem satisfies_setCached {k : Unit → TagProg α}
    (h : (k ()).Satisfies (tagEnv A).machine Q (w.set volid tags)) :
    (tagCall (.setCached volid tags) >>= k).Satisfies (tagEnv A).machine Q w := by
  refine satisfies_tagCall trivial fun r w' ⟨px, hmove⟩ => ?_
  cases hmove
  exact h

private theorem satisfies_extract {k : Except Exn String → TagProg α}
    (h : ∀ px, A px → (k (px.config node volid)).Satisfies (tagEnv A).machine Q w) :
    (tagCall (.extractVmConfig node volid) >>= k).Satisfies (tagEnv A).machine Q w := by
  refine satisfies_tagCall trivial fun r w' ⟨px, hmove⟩ => ?_
  cases hmove
  exact h px.val px.property

private theorem satisfies_connect {k : Except Exn Unit → TagProg α}
    (h : ∀ px, A px → (k px.connect).Satisfies (tagEnv A).machine Q w) :
    (tagCall .connectProxmox >>= k).Satisfies (tagEnv A).machine Q w := by
  refine satisfies_tagCall trivial fun r w' ⟨px, hmove⟩ => ?_
  cases hmove
  exact h px.val px.property

end calls

/-- **`_resolve_tags_cached`** finds the tags of the texts, if each of them is in the cache, or is
not and can be read. -/
theorem resolveTagsCached_spec (hw : w.ReadsBack) (found : Found)
    (hrows : ∀ p ∈ namedRows rows, w.Holds lower texts p.2 ∨
      w.stored p.2 = none ∧ ∀ px, A px → px.Give texts) :
    (resolveTagsCached lower node rows found).Satisfies (tagEnv A).machine (fun out w' =>
      (∀ f, out = .ok f → f.1 = tagsOfTexts lower texts (namedRows rows) ++ found.1) ∧
        Stores lower texts (namedRows rows) w w') w := by
  induction rows generalizing found w with
  | nil => exact satisfies_ret.mpr ⟨fun f hf => (Except.ok.inj hf) ▸ rfl, .refl hw⟩
  | cons row rows ih =>
    obtain ⟨result, errors⟩ := found
    rw [resolveTagsCached]
    split
    · next exc hexc =>
      rw [namedRows_cons_of_error hexc] at hrows ⊢
      exact ih hw (result, (row.backupId, exc.text) :: errors) hrows
    · next volid hvolid =>
      rw [namedRows_cons_of_ok hvolid] at hrows ⊢
      have hback := hw volid
      refine satisfies_getCached ?_
      rcases hrows (row, volid) List.mem_cons_self with hholds | ⟨hnone, hgive⟩
      · -- the tags are in the cache
        rw [hholds] at hback
        obtain ⟨cached, hcached, hsplit⟩ := Option.map_eq_some_iff.mp hback
        rw [hcached]
        refine (ih hw _ fun p hp => hrows p (List.mem_cons_of_mem _ hp)).mono ?_
        intro out w' ⟨hfound, hstores⟩
        refine ⟨fun f hf => ?_, hstores.cons hholds fun _ h => h⟩
        rw [hfound f hf, tagsOfTexts_cons, hsplit, List.append_assoc, List.singleton_append]
      · -- they are read, and stored
        rw [hnone, Option.map_eq_none_iff] at hback
        rw [hback]
        refine satisfies_extract fun px hpx => ?_
        rw [(hgive px hpx).config]
        refine satisfies_setCached ?_
        have hrest : ∀ p ∈ namedRows rows,
            (w.set volid (parseTags lower (texts volid))).Holds lower texts p.2 ∨
              (w.set volid (parseTags lower (texts volid))).stored p.2 = none ∧
                ∀ px, A px → px.Give texts := by
          intro p hp
          by_cases hp₂ : p.2 = volid
          · left
            rw [hp₂]
            exact w.holds_set volid
          · refine (hrows p (List.mem_cons_of_mem _ hp)).imp (fun h => h.set) fun h => ⟨?_, h.2⟩
            rw [TagWorld.stored_set_of_ne hp₂]
            exact h.1
        refine (ih (hw.set volid (parseTags_clean lower _)) _ hrest).mono ?_
        intro out w' ⟨hfound, hstores⟩
        refine ⟨fun f hf => ?_, hstores.cons (w.holds_set volid) fun _ h => h.set⟩
        rw [hfound f hf, tagsOfTexts_cons, List.append_assoc, List.singleton_append]

/-- A forced call reads all rows. -/
private theorem lookUpTags_forced (result : TagMap) (pending : List (Row × String)) :
    (lookUpTags true rows result pending).Satisfies (tagEnv A).machine (fun out w' =>
      w' = w ∧ ∀ f, out = .ok f → f = (result, pending ++ namedRows rows)) w := by
  induction rows generalizing pending with
  | nil =>
    refine satisfies_ret.mpr ⟨rfl, fun f hf => ?_⟩
    rw [namedRows, List.filterMap_nil, List.append_nil]
    exact (Except.ok.inj hf).symm
  | cons row rows ih =>
    rw [lookUpTags]
    split
    · exact satisfies_raise.mpr ⟨rfl, fun f hf => nomatch hf⟩
    · next volid hvolid =>
      rw [if_pos rfl, namedRows_cons_of_ok hvolid, List.append_cons pending (row, volid)]
      exact ih _

/-- Where all tags are in the cache, none is to be read. -/
private theorem lookUpTags_held (hw : w.ReadsBack) (result : TagMap)
    (hrows : ∀ p ∈ namedRows rows, w.Holds lower texts p.2) :
    (lookUpTags false rows result []).Satisfies (tagEnv A).machine (fun out w' =>
      w' = w ∧ ∀ f, out = .ok f →
        f = (tagsOfTexts lower texts (namedRows rows) ++ result, [])) w := by
  induction rows generalizing result with
  | nil => exact satisfies_ret.mpr ⟨rfl, fun f hf => (Except.ok.inj hf).symm⟩
  | cons row rows ih =>
    rw [lookUpTags]
    split
    · exact satisfies_raise.mpr ⟨rfl, fun f hf => nomatch hf⟩
    · next volid hvolid =>
      rw [namedRows_cons_of_ok hvolid] at hrows ⊢
      have hback := hw volid
      rw [hrows _ List.mem_cons_self] at hback
      obtain ⟨cached, hcached, hsplit⟩ := Option.map_eq_some_iff.mp hback
      rw [if_neg Bool.false_ne_true]
      refine satisfies_getCached ?_
      rw [hcached]
      refine (ih _ fun p hp => hrows p (List.mem_cons_of_mem _ hp)).mono ?_
      intro out w' ⟨hsame, hfound⟩
      refine ⟨hsame, fun f hf => ?_⟩
      rw [hfound f hf, tagsOfTexts_cons, hsplit, List.append_assoc, List.singleton_append]

/-- The rows to be read are read, and their tags stored. -/
private theorem fetchTags_spec (hgive : ∀ px, A px → px.Give texts) (hw : w.ReadsBack)
    (pending : List (Row × String)) (result : TagMap) (errors : List (String × String)) :
    (fetchTags lower node pending (result, errors)).Satisfies (tagEnv A).machine (fun out w' =>
      (∀ f, out = .ok f → f.1 = tagsOfTexts lower texts pending ++ result) ∧
        Stores lower texts pending w w') w := by
  induction pending generalizing result w with
  | nil => exact satisfies_ret.mpr ⟨fun f hf => (Except.ok.inj hf) ▸ rfl, .refl hw⟩
  | cons entry pending ih =>
    obtain ⟨row, volid⟩ := entry
    rw [fetchTags]
    refine satisfies_extract fun px hpx => ?_
    rw [(hgive px hpx).config]
    refine satisfies_setCached ?_
    refine (ih (hw.set volid (parseTags_clean lower _)) _).mono ?_
    intro out w' ⟨hfound, hstores⟩
    refine ⟨fun f hf => ?_, hstores.cons (w.holds_set volid) fun _ h => h.set⟩
    rw [hfound f hf, tagsOfTexts_cons, List.append_assoc, List.singleton_append]

/-- **`_resolve_tags`, forced**, finds the tags of the texts and stores them. -/
theorem resolveTags_forced (hgive : ∀ px, A px → px.Give texts) (hw : w.ReadsBack)
    (rows : List Row) : (resolveTags lower node true rows).Satisfies (tagEnv A).machine
      (fun out w' => ∀ f, out = .ok f → f.1 = tagsOfTexts lower texts (namedRows rows) ∧
        Stores lower texts (namedRows rows) w w') w := by
  refine (lookUpTags_forced [] []).bind (fun looked w₁ hlooked => ?_) fun _ _ _ f hf => nomatch hf
  obtain ⟨rfl, heq⟩ := hlooked
  rw [heq looked rfl, List.nil_append]
  refine Satisfies.ite (fun hnil => satisfies_ret.mpr fun f hf => ?_) fun _ => ?_
  · -- there are no rows
    rw [show namedRows rows = [] from hnil]
    exact ⟨(Except.ok.inj hf) ▸ rfl, .refl hw⟩
  · refine satisfies_connect fun px hpx => ?_
    rw [(hgive px hpx).connect]
    refine (fetchTags_spec hgive hw (namedRows rows) [] []).mono ?_
    intro out w' ⟨hfound, hstores⟩ f hf
    exact ⟨(hfound f hf).trans (List.append_nil _), hstores⟩

/-- **`_resolve_tags`, not forced**, finds the tags in the cache. -/
theorem resolveTags_held (hw : w.ReadsBack)
    (hrows : ∀ p ∈ namedRows rows, w.Holds lower texts p.2) :
    (resolveTags lower node false rows).Satisfies (tagEnv A).machine (fun out _ =>
      ∀ f, out = .ok f → f.1 = tagsOfTexts lower texts (namedRows rows)) w := by
  refine (lookUpTags_held hw [] hrows).bind (fun looked w₁ hlooked => ?_) fun _ _ _ f hf =>
    nomatch hf
  rw [hlooked.2 looked rfl, List.append_nil]
  exact satisfies_ret.mpr fun f hf => (Except.ok.inj hf) ▸ rfl

/-! ### The cache -/

/-- **A fresh read**: with these texts in the archives, `_resolve_tags` was forced, or
`_resolve_tags_cached` found none of the archives in the cache. -/
def FreshRead (lower texts : String → String) (rows : List Row) (w : TagWorld) (found : Found)
    (w' : TagWorld) : Prop :=
  ∃ node, Ends (tagEnv (·.Give texts)) (resolveTags lower node true rows) w (.ok found) w' ∨
    (∀ p ∈ namedRows rows, w.cache p.2 = none) ∧
      Ends (tagEnv (·.Give texts)) (resolveTagsCached lower node rows ([], [])) w (.ok found) w'

/-- **A call that looks into the cache**, of either function, whatever Proxmox answers. -/
def CachedRead (lower : String → String) (rows : List Row) (w : TagWorld) (found : Found)
    (w' : TagWorld) : Prop :=
  ∃ node, Ends (tagEnv fun _ => True) (resolveTags lower node false rows) w (.ok found) w' ∨
    Ends (tagEnv fun _ => True) (resolveTagsCached lower node rows ([], [])) w (.ok found) w'

theorem FreshRead.found {found : Found} (hw : w.ReadsBack)
    (h : FreshRead lower texts rows w found w') :
    found.1 = tagsOfTexts lower texts (namedRows rows) ∧
      Stores lower texts (namedRows rows) w w' := by
  obtain ⟨node, hends | ⟨hnone, hends⟩⟩ := h
  · exact hends.post (resolveTags_forced (fun _ h => h) hw rows) found rfl
  · have hrows : ∀ p ∈ namedRows rows, w.Holds lower texts p.2 ∨
        w.stored p.2 = none ∧ ∀ px : Replies, px.Give texts → px.Give texts := by
      intro p hp
      refine .inr ⟨?_, fun _ h => h⟩
      rw [← hw p.2, hnone p hp]
      rfl
    obtain ⟨hfound, hstores⟩ := hends.post (resolveTagsCached_spec hw ([], []) hrows)
    exact ⟨(hfound found rfl).trans (List.append_nil _), hstores⟩

theorem CachedRead.found {found : Found} (hw : w.ReadsBack)
    (hrows : ∀ p ∈ namedRows rows, w.Holds lower texts p.2)
    (h : CachedRead lower rows w found w') :
    found.1 = tagsOfTexts lower texts (namedRows rows) := by
  obtain ⟨node, hends | hends⟩ := h
  · exact hends.post (resolveTags_held hw hrows) found rfl
  · have hspec := hends.post (resolveTagsCached_spec hw ([], []) fun p hp => .inl (hrows p hp))
    exact (hspec.1 found rfl).trans (List.append_nil _)

/-- **The cache of tags loses nothing.** `parse_tags` returns clean tags. However calls take turns,
every text in the cache splits into the list that was stored. While the tags of a fresh read are
stored, a call that looks into the cache comes to the same tags, so that every group has the same
members. -/
theorem tagCache_lossless (lower : String → String) :
    (∀ text, Clean lower (parseTags lower text) ∧
      splitCached (Text.join ";" (parseTags lower text)) = parseTags lower text) ∧
    (∀ (calls : ℕ → TagCall) c, Reachable (tagEnv fun _ => True) (protocol lower)
      (fun _ _ _ _ _ => True) (start lower calls) c → c.world.ReadsBack) ∧
    ∀ texts rows w found w', w.ReadsBack → FreshRead lower texts rows w found w' →
      ∀ v, v.ReadsBack → (∀ p ∈ namedRows rows, v.stored p.2 = w'.stored p.2) →
        ∀ found' v', CachedRead lower rows v found' v' → found'.1 = found.1 ∧
          ∀ mt group backups cutoff, resolveGroupRows mt group backups cutoff found'.1 =
            resolveGroupRows mt group backups cutoff found.1 := by
  refine ⟨fun text => ⟨parseTags_clean lower text, splitCached_join (parseTags_clean lower text)⟩,
    fun calls c h => (kept_of_reachable h).readsBack, ?_⟩
  intro texts rows w found w' hw hfresh v hv hsame found' v' hcached
  obtain ⟨hfound, hstores⟩ := hfresh.found hw
  have hheld : ∀ p ∈ namedRows rows, v.Holds lower texts p.2 := fun p hp =>
    (hsame p hp).trans (hstores.rows p hp)
  have heq : found'.1 = found.1 := (hcached.found hv hheld).trans hfound.symm
  exact ⟨heq, fun mt group backups cutoff => by rw [heq]⟩

/-- A backup. -/
def sampleRow : Row where
  backupId := "vm/10/2026-02-01T00:00:00Z"
  vmid := some 10
  pveStorage := "pbs"
  voltail := "vm/10/2026-02-01T00:00:00Z"

@[reducible] private def sampleReplies :
    Inhabited {px : Replies // px.Give fun _ => "tags: prod;app\n"} :=
  ⟨⟨⟨.ok (), fun _ _ => .ok "tags: prod;app\n"⟩, rfl, fun _ _ => rfl⟩⟩

/-- Two tags are read, and found again. -/
theorem tagCache_lossless_prod : ∃ found w',
    FreshRead Text.lower (fun _ => "tags: prod;app\n") [sampleRow] {} found w' ∧
      found.1 = [(sampleRow.backupId, ["prod", "app"])] ∧
      ∀ found' v', CachedRead Text.lower [sampleRow] w' found' v' → found'.1 = found.1 := by
  have hempty : ({} : TagWorld).ReadsBack := fun _ => rfl
  have hrun := @ends_of_run tagSig Exn Found TagWorld _
    (tagEnv (·.Give fun _ => "tags: prod;app\n")) sampleReplies []
    (resolveTags Text.lower "pve1" true [sampleRow]) {} _ _ rfl
  have hfresh : FreshRead Text.lower (fun _ => "tags: prod;app\n") [sampleRow] {} _ _ :=
    ⟨"pve1", .inl hrun⟩
  refine ⟨_, _, hfresh, ?_, fun found' v' hcached => ?_⟩
  · rw [(hfresh.found hempty).1]
    decide +kernel
  · exact ((tagCache_lossless Text.lower).2.2 _ _ _ _ _ hempty hfresh _
      (hfresh.found hempty).2.readsBack (fun _ _ => rfl) found' v' hcached).1

end RestoreEngine.Tags
