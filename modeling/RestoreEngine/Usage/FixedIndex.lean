import Mathlib.Algebra.Order.Group.Nat
import RestoreEngine.Model.PbsWire

/-!
# Reading a fixed index back

A fixed index as a server writes it: the size of the image and the size of a chunk stand in the
header, and the digests of the chunks behind it. `_parse_fidx` reads the digests back whatever the
header holds. It takes the chunk size from the header for five sizes only, and otherwise divides the
image among the digests; so it reads the chunk size back exactly if it is one of the five or divides
the image (`parseFidx_data_iff`).
-/

namespace RestoreEngine.PbsWire

open Bytes

/-- A fixed index. The size of the image is not zero and the one of a chunk is a power of two, from
4 KiB to 1 GiB; there is a digest for each chunk, of which the last one may be short. -/
structure FixedIndex where
  lead : List UInt8
  lead_length : lead.length = 64
  size : ℕ
  size_pos : 0 < size
  size_lt : size < 256 ^ 8
  exponent : ℕ
  exponent_bounds : 12 ≤ exponent ∧ exponent ≤ 30
  rest : List UInt8
  rest_length : rest.length = fidxHeader - 80
  digests : List (List UInt8)
  digests_count : digests.length = (size + 2 ^ exponent - 1) / 2 ^ exponent
  digests_width : ∀ d ∈ digests, d.length = 32

namespace FixedIndex

variable (f : FixedIndex)

/-- The size of a chunk. -/
def chunkSize : ℕ := 2 ^ f.exponent

/-- The header up to the sizes, the sizes, and the rest of the header. -/
def header : List UInt8 :=
  f.lead ++ (littleEndian 8 f.size ++ (littleEndian 8 f.chunkSize ++ f.rest))

/-- The file. -/
def data : List UInt8 := f.header ++ f.digests.flatten

/-! ### Sizes -/

theorem chunkSize_pos : 0 < f.chunkSize := Nat.two_pow_pos _

theorem chunkSize_lt : f.chunkSize < 256 ^ 8 := by
  have hle : f.chunkSize ≤ 2 ^ 30 := Nat.pow_le_pow_right (by omega) f.exponent_bounds.2
  omega

/-- There is a digest. -/
theorem digests_pos : 0 < f.digests.length := by
  have hpos := f.chunkSize_pos
  have hsize := f.size_pos
  rw [f.digests_count]
  exact Nat.div_pos (by rw [chunkSize] at hpos; omega) hpos

theorem length_header : f.header.length = fidxHeader := by
  rw [header, List.length_append, List.length_append, List.length_append, length_littleEndian,
    length_littleEndian, f.lead_length, f.rest_length]
  decide

theorem length_data : f.data.length = fidxHeader + 32 * f.digests.length := by
  have hflatten : f.digests.flatten.length = 32 * f.digests.length := by
    rw [List.length_flatten, List.map_congr_left f.digests_width, List.map_const',
      List.sum_replicate_nat, Nat.mul_comm]
  rw [data, List.length_append, length_header, hflatten]

/-- The chunks cover the image, and no chunk is too many. -/
theorem size_bounds :
    f.size ≤ f.digests.length * f.chunkSize ∧
      f.digests.length * f.chunkSize < f.size + f.chunkSize := by
  have hpos := f.chunkSize_pos
  have hcount : f.digests.length = (f.size + f.chunkSize - 1) / f.chunkSize := f.digests_count
  have hdiv := Nat.div_add_mod (f.size + f.chunkSize - 1) f.chunkSize
  have hmod := Nat.mod_lt (f.size + f.chunkSize - 1) hpos
  have hcomm : f.digests.length * f.chunkSize =
      f.chunkSize * ((f.size + f.chunkSize - 1) / f.chunkSize) := by
    rw [hcount, Nat.mul_comm]
  omega

/-! ### What is read -/

theorem unpackFrom_size : unpackFrom f.data 64 = .ok f.size := by
  have hlength := f.length_data
  have hpos := f.digests_pos
  have hslice : slice f.data 64 (64 + 8) = littleEndian 8 f.size := by
    rw [data, header, List.append_assoc, List.append_assoc]
    exact slice_append f.lead_length.symm (by rw [f.lead_length, length_littleEndian])
  rw [unpackFrom, if_neg (by rw [hlength, fidxHeader]; omega), hslice,
    value_littleEndian f.size_lt]

theorem unpackFrom_chunkSize : unpackFrom f.data 72 = .ok f.chunkSize := by
  have hlength := f.length_data
  have hpos := f.digests_pos
  have hslice : slice f.data 72 (72 + 8) = littleEndian 8 f.chunkSize := by
    rw [data, header, ← List.append_assoc f.lead, List.append_assoc _ _ f.digests.flatten,
      List.append_assoc _ f.rest]
    refine slice_append ?_ ?_
    all_goals rw [List.length_append, f.lead_length, length_littleEndian]
    rw [length_littleEndian]
  rw [unpackFrom, if_neg (by rw [hlength, fidxHeader]; omega), hslice,
    value_littleEndian f.chunkSize_lt]

/-- The chunk size that is read back: the stated one for some sizes, and otherwise what the image
has for each digest, if that is a whole number. -/
def readChunkSize : ℕ :=
  if f.chunkSize ∈ statedChunkSizes then f.chunkSize
  else if f.size % f.digests.length = 0 then
    if 0 < f.size / f.digests.length then f.size / f.digests.length else defaultChunkSize
  else defaultChunkSize

/-- **What `_parse_fidx` makes of the file.** -/
theorem parseFidx_data : parseFidx f.data = .ok (f.readChunkSize, f.digests) := by
  have hlength := f.length_data
  have hpos := f.digests_pos
  have hcount : (f.data.length - fidxHeader) / 32 = f.digests.length := by
    rw [hlength]
    omega
  have hdigests : ((List.range f.digests.length).map fun i =>
      slice f.data (fidxHeader + i * 32) (fidxHeader + (i + 1) * 32)) = f.digests := by
    refine (List.map_congr_left fun i _ => ?_).trans (blocks_flatten f.digests_width)
    rw [data, slice_append_right (by rw [length_header]; omega), length_header,
      Nat.add_sub_cancel_left, Nat.add_sub_cancel_left]
  have hchunk : chunkSizeOf f.data f.digests.length = .ok f.readChunkSize := by
    rw [chunkSizeOf, f.unpackFrom_chunkSize, readChunkSize]
    simp only [bind, Except.bind, pure, Except.pure, f.unpackFrom_size, hpos, true_and]
    split_ifs <;> rfl
  rw [parseFidx, if_neg (by omega)]
  dsimp only
  rw [hcount, hchunk, hdigests]

end FixedIndex

/-- **When an index is read back.** -/
theorem parseFidx_data_iff (f : FixedIndex) :
    parseFidx f.data = .ok (f.chunkSize, f.digests) ↔
      f.chunkSize ∈ statedChunkSizes ∨ f.chunkSize ∣ f.size := by
  have hpos := f.digests_pos
  obtain ⟨hcover, htight⟩ := f.size_bounds
  have hread : parseFidx f.data = .ok (f.chunkSize, f.digests) ↔ f.readChunkSize = f.chunkSize := by
    rw [f.parseFidx_data]
    exact ⟨fun h => congrArg Prod.fst (Except.ok.inj h), fun h => by rw [h]⟩
  rw [hread, FixedIndex.readChunkSize]
  by_cases hstated : f.chunkSize ∈ statedChunkSizes
  · rw [if_pos hstated]
    exact ⟨fun _ => .inl hstated, fun _ => rfl⟩
  have hdefault : defaultChunkSize ≠ f.chunkSize := fun h => hstated (h ▸ by decide)
  rw [if_neg hstated, or_iff_right hstated]
  constructor
  · intro h
    split_ifs at h with hmod hquot
    · -- the image is the quotient for each digest
      have hsize := Nat.div_add_mod f.size f.digests.length
      rw [hmod, h, Nat.add_zero] at hsize
      exact ⟨_, hsize.symm.trans (Nat.mul_comm _ _)⟩
    · exact absurd h hdefault
    · exact absurd h hdefault
  · rintro ⟨count, hcount⟩
    -- as many chunks as digests
    have hle : count ≤ f.digests.length := by
      refine Nat.le_of_mul_le_mul_left ?_ f.chunkSize_pos
      rw [← hcount, Nat.mul_comm]
      exact hcover
    have hge : f.digests.length ≤ count := by
      by_contra hlt
      have hmul : f.chunkSize * (count + 1) ≤ f.chunkSize * f.digests.length :=
        Nat.mul_le_mul_left _ (by omega)
      rw [Nat.mul_add, ← hcount, Nat.mul_one, Nat.mul_comm _ f.digests.length] at hmul
      omega
    obtain rfl : count = f.digests.length := Nat.le_antisymm hle hge
    have hquot : f.size / f.digests.length = f.chunkSize := by
      rw [hcount, Nat.mul_div_cancel _ hpos]
    rw [if_pos (by rw [hcount, Nat.mul_mod_left]), hquot, if_pos f.chunkSize_pos]

/-- An image of one and a half chunks of 512 KiB. -/
def shortTail : FixedIndex where
  lead := List.replicate 64 0
  lead_length := List.length_replicate
  size := 768 * 1024
  size_pos := by decide
  size_lt := by decide
  exponent := 19
  exponent_bounds := by decide
  rest := List.replicate (fidxHeader - 80) 0
  rest_length := List.length_replicate
  digests := [List.replicate 32 1, List.replicate 32 2]
  digests_count := by decide
  digests_width := by decide

/-- **A short last chunk** makes the others short: 384 KiB are read instead of 512 KiB. -/
theorem parseFidx_halves : shortTail.chunkSize = 512 * 1024 ∧
    parseFidx shortTail.data = .ok (384 * 1024, shortTail.digests) ∧
    parseFidx shortTail.data ≠ .ok (shortTail.chunkSize, shortTail.digests) := by
  have hread : shortTail.readChunkSize = 384 * 1024 := by decide
  have hparse : parseFidx shortTail.data = .ok (384 * 1024, shortTail.digests) := by
    rw [shortTail.parseFidx_data, hread]
  refine ⟨by decide, hparse, fun h => ?_⟩
  have hsizes := congrArg Prod.fst (Except.ok.inj (hparse.symm.trans h))
  exact absurd hsizes (by decide)

end RestoreEngine.PbsWire
