import RestoreEngine.Bytes.Layout
import RestoreEngine.Model.Records

/-!
# `pbs_wire.py`: fixed indexes and the usage of a snapshot

A fixed index lists the digests of the chunks of a disk image, behind a header of 4096 bytes.
`parseFidx` takes an index apart; `estimateFidxUsage` reads the indexes of a snapshot and counts the
chunks that are not zero, which it tells by the digest of a chunk of zeroes. The hash function is a
parameter, and so is what the reader session answers (`Snapshot`).
-/

namespace RestoreEngine.PbsWire

open Bytes

/-- `FIDX_HEADER`. -/
def fidxHeader : ℕ := 4096

/-- `DEFAULT_CHUNK_SIZE`. -/
def defaultChunkSize : ℕ := 4 * 1024 * 1024

/-! ### Fixed indexes -/

/-- `struct.unpack_from("<Q", data, offset)`. -/
def unpackFrom (data : List UInt8) (offset : ℕ) : Except Unit ℕ :=
  if data.length < offset + 8 then .error () else .ok (value (slice data offset (offset + 8)))

/-- The chunk sizes that are taken from the header. -/
def statedChunkSizes : List ℕ := [64 * 1024, 256 * 1024, 1024 * 1024, 2 * 1024 * 1024,
  4 * 1024 * 1024]

/-- The chunk size that `_parse_fidx` goes by, for an index of `n` digests. -/
def chunkSizeOf (data : List UInt8) (n : ℕ) : Except Unit ℕ := do
  let cand ← unpackFrom data 72
  if cand ∈ statedChunkSizes then return cand
  else do
    let size64 ← unpackFrom data 64
    if 0 < n ∧ size64 % n = 0 then
      let inferred := size64 / n
      return if 0 < inferred then inferred else defaultChunkSize
    else return defaultChunkSize

/-- `_parse_fidx`. -/
def parseFidx (data : List UInt8) : Except Exn (ℕ × List (List UInt8)) :=
  if data.length < fidxHeader + 32 then
    .error (.valueError s!"fidx too small ({data.length} bytes)")
  else
    let n := (data.length - fidxHeader) / 32
    let digests := (List.range n).map fun i =>
      slice data (fidxHeader + i * 32) (fidxHeader + (i + 1) * 32)
    match chunkSizeOf data n with
    | .ok chunkSize => .ok (chunkSize, digests)
    | .error () => .ok (defaultChunkSize, digests)

/-! ### Usage -/

/-- `FidxUsageEstimate`. -/
structure FidxUsageEstimate where
  chunkSize : ℕ
  fidxFiles : ℕ
  totalPositions : ℕ
  nonzeroPositions : ℕ
  uniqueNonzero : ℕ
  deriving DecidableEq

namespace FidxUsageEstimate

variable (est : FidxUsageEstimate)

def virtualBytes : ℕ := est.totalPositions * est.chunkSize

def nonzeroBytes : ℕ := est.nonzeroPositions * est.chunkSize

def zeroBytes : ℕ := est.virtualBytes - est.nonzeroBytes

end FidxUsageEstimate

section usage

variable (sha256 : List UInt8 → List UInt8)

/-- `_zero_digest`. -/
def zeroDigest (chunkSize : ℕ) : List UInt8 := sha256 (List.replicate chunkSize 0)

/-- `usage_from_digests`. -/
def usageFromDigests (chunkSize : ℕ) (digests : List (List UInt8)) (fidxFiles : ℕ := 1) :
    FidxUsageEstimate :=
  let zero := zeroDigest sha256 chunkSize
  let nonzero := digests.filter (· ≠ zero)
  { chunkSize, fidxFiles
    totalPositions := digests.length
    nonzeroPositions := nonzero.length
    uniqueNonzero := nonzero.dedup.length }

/-- What the server tells of a snapshot: the names of its indexes, and what a download of each
answers, a status and a body. -/
structure Snapshot where
  fidxNames : List String
  get : String → Except Exn (ℕ × List UInt8)

/-- The loop of `_load_all_fidx_digests`. -/
def loadFidxs (get : String → Except Exn (ℕ × List UInt8)) (chunkSize : ℕ)
    (allDigests : List (List UInt8)) : List String → Except Exn (ℕ × List (List UInt8))
  | [] => .ok (chunkSize, allDigests)
  | name :: names => do
    let (status, body) ← get name
    if status ≠ 200 ∨ body.length < fidxHeader + 32 then
      .error (.runtimeError s!"Failed to download {name} via reader: HTTP {status}")
    else do
      let (chunkSize, digests) ← parseFidx body
      loadFidxs get chunkSize (allDigests ++ digests) names

/-- `_load_all_fidx_digests`. -/
def loadAllFidxDigests (snapshot : Snapshot) : Except Exn (ℕ × List (List UInt8) × ℕ) :=
  if snapshot.fidxNames = [] then .error (.runtimeError "No .fidx files found for snapshot")
  else do
    let (chunkSize, allDigests) ← loadFidxs snapshot.get defaultChunkSize [] snapshot.fidxNames
    return (chunkSize, allDigests, snapshot.fidxNames.length)

/-- **`estimate_fidx_usage`.** -/
def estimateFidxUsage (snapshot : Snapshot) : Except Exn FidxUsageEstimate := do
  let (chunkSize, allDigests, fidxFiles) ← loadAllFidxDigests snapshot
  return usageFromDigests sha256 chunkSize allDigests fidxFiles

end usage

end RestoreEngine.PbsWire
