import Mathlib.Algebra.Order.BigOperators.Group.List
import Mathlib.Algebra.BigOperators.Ring.List
import Mathlib.Algebra.Ring.Nat
import Mathlib.Data.Fintype.EquivFin
import RestoreEngine.Usage.FixedIndex

/-!
# The usage of a snapshot and of its disks

`_load_all_fidx_digests` joins the digests of all indexes and keeps one chunk size, the one of the
last index. So the estimate of a snapshot counts the zero chunks of every disk by the chunk size of
the last one. It is the sum of what the disks have by themselves, whatever the hash function,
exactly if all of them have one chunk size (`estimateFidxUsage_additive_iff`).
-/

namespace RestoreEngine.PbsWire

open Bytes

/-- What an index holds: its chunk size and its digests. -/
abbrev FidxFile : Type := ℕ × List (List UInt8)

/-! ### Reading a snapshot -/

/-- The downloads of the indexes succeed, and hold these files. There is at least one. -/
structure Snapshot.Reads (snapshot : Snapshot) (files : List FidxFile) : Prop where
  ne : files ≠ []
  parsed : List.Forall₂ (fun name file => ∃ body, snapshot.get name = .ok (200, body) ∧
    parseFidx body = .ok file) snapshot.fidxNames files

variable {snapshot : Snapshot} {files : List FidxFile} {sha256 : List UInt8 → List UInt8}

/-- An index that is parsed is long enough, and holds a digest. -/
theorem parseFidx_ok {body : List UInt8} {file : FidxFile} (h : parseFidx body = .ok file) :
    fidxHeader + 32 ≤ body.length ∧ file.2 ≠ [] := by
  rw [parseFidx] at h
  split_ifs at h with hshort
  have hdigests : file.2 = (List.range ((body.length - fidxHeader) / 32)).map fun i =>
      slice body (fidxHeader + i * 32) (fidxHeader + (i + 1) * 32) := by
    dsimp only at h
    split at h <;> exact (congrArg Prod.snd (Except.ok.inj h)).symm
  refine ⟨by omega, fun hnil => ?_⟩
  have hlength := congrArg List.length (hdigests.symm.trans hnil)
  rw [List.length_map, List.length_range, List.length_nil] at hlength
  omega

/-- Every index holds a digest. -/
private theorem digests_ne {get : String → Except Exn (ℕ × List UInt8)} {names : List String}
    (h : List.Forall₂ (fun name file => ∃ body, get name = .ok (200, body) ∧
      parseFidx body = .ok file) names files) : ∀ file ∈ files, file.2 ≠ [] := by
  induction h with
  | nil => exact nofun
  | cons hfile hfiles ih =>
    obtain ⟨body, -, hparse⟩ := hfile
    exact List.forall_mem_cons.mpr ⟨(parseFidx_ok hparse).2, ih⟩

/-- The loop joins the digests, and keeps the chunk size of the last index. -/
private theorem loadFidxs_eq {get : String → Except Exn (ℕ × List UInt8)} {names : List String}
    (h : List.Forall₂ (fun name file => ∃ body, get name = .ok (200, body) ∧
      parseFidx body = .ok file) names files) (chunkSize : ℕ) (allDigests : List (List UInt8)) :
    loadFidxs get chunkSize allDigests names =
      .ok ((files.map Prod.fst).getLastD chunkSize, allDigests ++ files.flatMap Prod.snd) := by
  induction h generalizing chunkSize allDigests with
  | nil => rw [loadFidxs, List.flatMap_nil, List.append_nil]; rfl
  | cons hfile hfiles ih =>
    obtain ⟨body, hget, hparse⟩ := hfile
    have hlong := (parseFidx_ok hparse).1
    rw [loadFidxs, hget]
    simp only [bind, Except.bind]
    rw [if_neg (by omega), hparse]
    dsimp only
    rw [ih, List.flatMap_cons, List.append_assoc, List.map_cons, List.getLastD_cons]

/-- The chunk size that the estimate goes by. -/
def lastChunkSize (files : List FidxFile) : ℕ := (files.map Prod.fst).getLastD defaultChunkSize

/-- **The estimate of a snapshot.** -/
theorem estimateFidxUsage_eq (h : snapshot.Reads files) : estimateFidxUsage sha256 snapshot =
    .ok (usageFromDigests sha256 (lastChunkSize files) (files.flatMap Prod.snd) files.length) := by
  have hnames : snapshot.fidxNames ≠ [] := by
    intro hnil
    have hparsed := h.parsed
    rw [hnil] at hparsed
    cases hparsed
    exact h.ne rfl
  rw [estimateFidxUsage, loadAllFidxDigests, if_neg hnames, loadFidxs_eq h.parsed,
    ← h.parsed.length_eq]
  rfl

/-! ### Sums -/

/-- The usage of every disk by itself. -/
def usages (sha256 : List UInt8 → List UInt8) (files : List FidxFile) : List FidxUsageEstimate :=
  files.map fun file => usageFromDigests sha256 file.1 file.2

/-- **The counts and the totals are sums** of those of the disks. -/
structure FidxUsageEstimate.SumOf (est : FidxUsageEstimate) (parts : List FidxUsageEstimate) :
    Prop where
  totalPositions : est.totalPositions = (parts.map (·.totalPositions)).sum
  nonzeroPositions : est.nonzeroPositions = (parts.map (·.nonzeroPositions)).sum
  virtualBytes : est.virtualBytes = (parts.map (·.virtualBytes)).sum
  nonzeroBytes : est.nonzeroBytes = (parts.map (·.nonzeroBytes)).sum

/-- The zero chunks among the digests. -/
theorem count_add_nonzeroPositions (chunkSize : ℕ) (digests : List (List UInt8)) (n : ℕ) :
    digests.count (zeroDigest sha256 chunkSize) +
      (usageFromDigests sha256 chunkSize digests n).nonzeroPositions = digests.length := by
  have hsplit := List.length_eq_countP_add_countP (· == zeroDigest sha256 chunkSize) (l := digests)
  rw [hsplit, List.count, Nat.add_left_cancel_iff, usageFromDigests, List.countP_eq_length_filter]
  simp

/-- What one chunk size counts in all files. -/
private theorem nonzero_flatMap (chunkSize : ℕ) (n : ℕ) :
    (usageFromDigests sha256 chunkSize (files.flatMap Prod.snd) n).nonzeroPositions =
      (files.map fun file =>
        (usageFromDigests sha256 chunkSize file.2).nonzeroPositions).sum := by
  rw [usageFromDigests]
  dsimp only
  rw [List.filter_flatMap, List.length_flatMap]
  rfl

/-- Disks of one chunk size add up. -/
private theorem sumOf_of_same {chunkSize : ℕ} (hsame : ∀ file ∈ files, file.1 = chunkSize) :
    (usageFromDigests sha256 chunkSize (files.flatMap Prod.snd) files.length).SumOf
      (usages sha256 files) := by
  have hparts {β : Type} (g : FidxUsageEstimate → β) : (usages sha256 files).map g =
      files.map fun file => g (usageFromDigests sha256 chunkSize file.2) := by
    rw [usages, List.map_map]
    exact List.map_congr_left fun file hfile => by rw [Function.comp, hsame file hfile]
  have htotal : (files.flatMap Prod.snd).length = (files.map fun file => file.2.length).sum :=
    List.length_flatMap
  have hnonzero := @nonzero_flatMap files sha256 chunkSize files.length
  constructor
  · rw [hparts]
    exact htotal
  · rw [hparts]
    exact hnonzero
  · rw [hparts]
    refine (congrArg (· * chunkSize) htotal).trans ?_
    exact (List.sum_map_mul_right ..).symm
  · rw [hparts]
    refine (congrArg (· * chunkSize) hnonzero).trans ?_
    exact (List.sum_map_mul_right ..).symm

/-! ### Disks of different chunk sizes -/

/-- A hash function that takes chunks of one size for `digest` and all others for `other`. -/
private def sizeHash (size : ℕ) (digest other : List UInt8) (chunk : List UInt8) : List UInt8 :=
  if chunk.length = size then digest else other

private theorem zeroDigest_sizeHash {size chunkSize : ℕ} {digest other : List UInt8} :
    zeroDigest (sizeHash size digest other) chunkSize =
      if chunkSize = size then digest else other := by
  rw [zeroDigest, sizeHash, List.length_replicate]

/-- **A disk of another chunk size spoils the sum**, for some hash function. -/
private theorem not_sumOf {size n : ℕ} {file : FidxFile} (hfile : file ∈ files)
    (hother : file.1 ≠ size) (hne : file.2 ≠ []) :
    ∃ sha256, ¬ (usageFromDigests sha256 size (files.flatMap Prod.snd) n).SumOf
      (usages sha256 files) := by
  -- one of its digests is the zero chunk of the other size, and nothing else is a zero chunk
  obtain ⟨digest, hdigest⟩ := List.exists_mem_of_ne_nil _ hne
  obtain ⟨other, hother'⟩ := Infinite.exists_notMem_finset (files.flatMap Prod.snd).toFinset
  refine ⟨sizeHash size digest other, fun hsum => ?_⟩
  have hcounts := @count_add_nonzeroPositions (sizeHash size digest other)
  have hzero : zeroDigest (sizeHash size digest other) size = digest := by
    rw [zeroDigest_sizeHash, if_pos rfl]
  have hforeign (g : FidxFile) (hg : g ∈ files) (hsize : g.1 ≠ size) :
      g.2.count (zeroDigest (sizeHash size digest other) g.1) = 0 := by
    rw [zeroDigest_sizeHash, if_neg hsize]
    refine List.count_eq_zero.mpr fun hmem => hother' ?_
    exact List.mem_toFinset.mpr (List.mem_flatMap.mpr ⟨g, hg, hmem⟩)
  have hnonzero := hsum.nonzeroPositions
  rw [nonzero_flatMap, usages, List.map_map] at hnonzero
  refine absurd hnonzero (Nat.ne_of_lt (List.sum_lt_sum _ _ ?_ ⟨file, hfile, ?_⟩))
  · intro g hg
    have hown := hcounts g.1 g.2 1
    have hlast := hcounts size g.2 1
    by_cases hsize : g.1 = size
    · rw [Function.comp, hsize]
    · rw [hforeign g hg hsize] at hown
      simp only [Function.comp]
      omega
  · have hown := hcounts file.1 file.2 1
    have hlast := hcounts size file.2 1
    have hpos := List.count_pos_iff.mpr hdigest
    rw [hforeign file hfile hother] at hown
    rw [hzero] at hlast
    simp only [Function.comp]
    omega

/-- **When the usage of a snapshot is the sum over its disks**, whatever the hash function. -/
theorem estimateFidxUsage_additive_iff (snapshot : Snapshot) (files : List FidxFile)
    (h : snapshot.Reads files) :
    (∀ sha256, ∃ est, estimateFidxUsage sha256 snapshot = .ok est ∧
        est.SumOf (usages sha256 files)) ↔
      ∀ file ∈ files, ∀ other ∈ files, file.1 = other.1 := by
  obtain ⟨last, hlast, hmem⟩ : ∃ last, lastChunkSize files = last.1 ∧ last ∈ files := by
    refine ⟨files.getLast h.ne, ?_, List.getLast_mem h.ne⟩
    rw [lastChunkSize, List.getLastD_eq_getLast?, List.getLast?_map,
      List.getLast?_eq_some_getLast h.ne]
    rfl
  constructor
  · intro hsum
    suffices hall : ∀ file ∈ files, file.1 = last.1 from
      fun file hfile other hother => (hall file hfile).trans (hall other hother).symm
    intro file hfile
    by_contra hdiffers
    obtain ⟨sha256, hnot⟩ := not_sumOf (n := files.length) hfile hdiffers
      (digests_ne h.parsed file hfile)
    obtain ⟨est, hest, hsum⟩ := hsum sha256
    rw [estimateFidxUsage_eq h, hlast] at hest
    obtain rfl := Except.ok.inj hest
    exact hnot hsum
  · intro hsame sha256
    refine ⟨_, estimateFidxUsage_eq h, ?_⟩
    rw [hlast]
    exact sumOf_of_same fun file hfile => hsame file hfile last hmem

private theorem length_blankLead : (List.replicate 64 (0 : UInt8)).length = 64 :=
  List.length_replicate

private theorem length_blankRest :
    (List.replicate (fidxHeader - 80) (0 : UInt8)).length = fidxHeader - 80 :=
  List.length_replicate

/-- An image of one chunk. -/
private def oneChunk (exponent : ℕ) (h : 12 ≤ exponent ∧ exponent ≤ 30)
    (hsize : 0 < 2 ^ exponent ∧ 2 ^ exponent < 256 ^ 8)
    (hcount : 1 = (2 ^ exponent + 2 ^ exponent - 1) / 2 ^ exponent) : FixedIndex where
  lead := List.replicate 64 0
  lead_length := length_blankLead
  size := 2 ^ exponent
  size_pos := hsize.1
  size_lt := hsize.2
  exponent
  exponent_bounds := h
  rest := List.replicate (fidxHeader - 80) 0
  rest_length := length_blankRest
  digests := [List.replicate 32 1]
  digests_count := hcount
  digests_width := by decide

/-- A disk with chunks of 64 KiB. -/
private def efiDisk : FixedIndex := oneChunk 16 (by decide) (by decide) (by decide)

/-- A disk with chunks of 4 MiB. -/
private def dataDisk : FixedIndex := oneChunk 22 (by decide) (by decide) (by decide)

private theorem parseFidx_efiDisk :
    parseFidx efiDisk.data = .ok (64 * 1024, [List.replicate 32 1]) := by
  rw [efiDisk.parseFidx_data, show efiDisk.readChunkSize = 64 * 1024 by decide]
  rfl

private theorem parseFidx_dataDisk :
    parseFidx dataDisk.data = .ok (4 * 1024 * 1024, [List.replicate 32 1]) := by
  rw [dataDisk.parseFidx_data, show dataDisk.readChunkSize = 4 * 1024 * 1024 by decide]
  rfl

/-- Two disks of one chunk size. -/
theorem estimateFidxUsage_additive_two : ∃ snapshot files, snapshot.Reads files ∧
    files.length = 2 ∧ ∀ sha256, ∃ est, estimateFidxUsage sha256 snapshot = .ok est ∧
      est.SumOf (usages sha256 files) := by
  let file : FidxFile := (4 * 1024 * 1024, [List.replicate 32 1])
  let snapshot : Snapshot := ⟨["drive-scsi0.img.fidx", "drive-scsi1.img.fidx"],
    fun _ => .ok (200, dataDisk.data)⟩
  have hfile : ∃ body, snapshot.get "drive-scsi0.img.fidx" = .ok (200, body) ∧
      parseFidx body = .ok file := ⟨dataDisk.data, rfl, parseFidx_dataDisk⟩
  have hreads : snapshot.Reads [file, file] :=
    ⟨List.cons_ne_nil _ _, .cons hfile (.cons hfile .nil)⟩
  refine ⟨snapshot, _, hreads, rfl, (estimateFidxUsage_additive_iff snapshot _ hreads).mpr ?_⟩
  have hsame : ∀ f ∈ [file, file], f = file := fun f hf => by simpa using hf
  intro f hf other hother
  rw [hsame f hf, hsame other hother]

/-- **A small disk counts as a large one**: a disk of 64 KiB and one of 4 MiB are estimated at 8 MiB
together, whatever the hash function. -/
theorem estimateFidxUsage_last_chunk_size : ∃ snapshot files, snapshot.Reads files ∧
    files = [(64 * 1024, [List.replicate 32 1]), (4 * 1024 * 1024, [List.replicate 32 1])] ∧
    ∀ sha256, ∃ est, estimateFidxUsage sha256 snapshot = .ok est ∧
      est.virtualBytes = 8 * 1024 * 1024 ∧
      ((usages sha256 files).map (·.virtualBytes)).sum = 4 * 1024 * 1024 + 64 * 1024 ∧
      ¬ est.SumOf (usages sha256 files) := by
  let snapshot : Snapshot := ⟨["drive-efidisk0.img.fidx", "drive-scsi0.img.fidx"], fun name =>
    .ok (200, if name = "drive-efidisk0.img.fidx" then efiDisk.data else dataDisk.data)⟩
  have hreads : snapshot.Reads
      [(64 * 1024, [List.replicate 32 1]), (4 * 1024 * 1024, [List.replicate 32 1])] :=
    ⟨List.cons_ne_nil _ _, .cons ⟨_, rfl, parseFidx_efiDisk⟩
      (.cons ⟨_, rfl, parseFidx_dataDisk⟩ .nil)⟩
  refine ⟨snapshot, _, hreads, rfl, fun sha256 => ?_⟩
  have hparts : (usages sha256 [(64 * 1024, [List.replicate 32 1]),
      (4 * 1024 * 1024, [List.replicate 32 1])]).map (·.virtualBytes) =
        [1 * (64 * 1024), 1 * (4 * 1024 * 1024)] := rfl
  have hvirtual : (usageFromDigests sha256 (4 * 1024 * 1024)
      [List.replicate 32 1, List.replicate 32 1] 2).virtualBytes = 2 * (4 * 1024 * 1024) := rfl
  refine ⟨_, estimateFidxUsage_eq hreads, hvirtual, ?_, fun hsum => ?_⟩
  · rw [hparts]
    decide
  · have htotal := hvirtual.symm.trans hsum.virtualBytes
    rw [hparts] at htotal
    exact absurd htotal (by decide)

end RestoreEngine.PbsWire
